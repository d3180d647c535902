import Onnxcraft.Effect.Linear
import Onnxcraft.Model.System

/-!
# The registry

What the binding is for its callers: a registry of runtimes and of sessions, each open or closed.
`registry` is that object, with atomic operations. What is closed stays closed, and is closed by
nothing but its `Close`. `Call.Means` says what a call may return once it has performed an operation.
-/

namespace Onnxcraft

open Effect

/-! ## The object -/

/-- Which runtimes and sessions there are, and which are closed. -/
structure Registry where
  runtimes : List Bool
  sessions : List (Session × Bool)
  deriving DecidableEq

namespace Registry

/-- An operation of the registry, with its outcome. -/
inductive Action where
  | opened (r : Nat)
  | loaded (s : Session)
  /-- A load finds its runtime closed. -/
  | refused (r : Nat)
  | closedRuntime (r : Nat)
  | closedSession (s : Session)
  /-- A run finds its session open, or closed. -/
  | ran (s : Session)
  | gone (s : Session)
  deriving DecidableEq

def step : Action → Registry → Option Registry
  | .opened r, g => if r = g.runtimes.length then some { g with runtimes := g.runtimes ++ [false] }
      else none
  | .loaded s, g =>
    if s.id = g.sessions.length ∧ g.runtimes[s.runtime]? = some false then
      some { g with sessions := g.sessions ++ [(s, false)] }
    else none
  | .refused r, g => if g.runtimes[r]? = some true then some g else none
  | .closedRuntime r, g =>
    if r < g.runtimes.length then some { g with runtimes := g.runtimes.set r true } else none
  | .closedSession s, g =>
    if (g.sessions[s.id]?).map (·.1) = some s then
      some { g with sessions := g.sessions.set s.id (s, true) }
    else none
  | .ran s, g => if g.sessions[s.id]? = some (s, false) then some g else none
  | .gone s, g => if g.sessions[s.id]? = some (s, true) then some g else none

end Registry

/-- The registry as a sequential object. -/
def registry : Atomic Registry Registry.Action := ⟨⟨[], []⟩, Registry.step⟩

/-! ## What is closed -/

namespace Registry

variable {o : Action} {x y z : Registry} {os os' : List Action}

def ClosedRuntime (r : Nat) (x : Registry) : Prop := x.runtimes[r]? = some true

def ClosedSession (s : Session) (x : Registry) : Prop := x.sessions[s.id]? = some (s, true)

theorem closedRuntime_step {r : Nat} (h : step o x = some y) :
    (ClosedRuntime r x → ClosedRuntime r y) ∧
      (¬ClosedRuntime r x → ClosedRuntime r y → o = .closedRuntime r) := by
  unfold ClosedRuntime
  cases o with
  | opened r' =>
    simp only [step, Option.ite_none_right_eq_some, Option.some.injEq] at h
    obtain ⟨-, rfl⟩ := h
    refine ⟨fun hx => ?_, fun hx hy => ?_⟩
    · rw [List.getElem?_append_left (List.getElem?_eq_some_iff.1 hx).1, hx]
    · by_cases hr : r < x.runtimes.length
      · rw [List.getElem?_append_left hr] at hy
        exact absurd hy hx
      · rw [List.getElem?_append_right (Nat.le_of_not_lt hr)] at hy
        have := List.mem_of_getElem? hy
        simp at this
  | closedRuntime r' =>
    simp only [step, Option.ite_none_right_eq_some, Option.some.injEq] at h
    obtain ⟨hlt, rfl⟩ := h
    by_cases hr : r' = r
    · subst hr
      exact ⟨fun _ => List.getElem?_set_self hlt, fun _ _ => rfl⟩
    · dsimp only
      rw [List.getElem?_set_ne hr]
      exact ⟨id, fun hx hy => absurd hy hx⟩
  | _ =>
    simp only [step, Option.ite_none_right_eq_some, Option.some.injEq] at h
    obtain ⟨-, rfl⟩ := h
    exact ⟨id, fun hx hy => absurd hy hx⟩

theorem closedSession_step {s : Session} (h : step o x = some y) :
    (ClosedSession s x → ClosedSession s y) ∧
      (¬ClosedSession s x → ClosedSession s y → o = .closedSession s) := by
  unfold ClosedSession
  cases o with
  | loaded s' =>
    simp only [step, Option.ite_none_right_eq_some, Option.some.injEq] at h
    obtain ⟨-, rfl⟩ := h
    refine ⟨fun hx => ?_, fun hx hy => ?_⟩
    · rw [List.getElem?_append_left (List.getElem?_eq_some_iff.1 hx).1, hx]
    · by_cases hr : s.id < x.sessions.length
      · rw [List.getElem?_append_left hr] at hy
        exact absurd hy hx
      · rw [List.getElem?_append_right (Nat.le_of_not_lt hr)] at hy
        have := List.mem_of_getElem? hy
        simp at this
  | closedSession s' =>
    simp only [step, Option.ite_none_right_eq_some, Option.some.injEq] at h
    obtain ⟨hs', rfl⟩ := h
    by_cases hs : s'.id = s.id
    · obtain ⟨p, hp, hps⟩ := Option.map_eq_some_iff.1 hs'
      have hlt := (List.getElem?_eq_some_iff.1 hp).1
      dsimp only
      rw [← hs, List.getElem?_set_self hlt, hp]
      refine ⟨fun hx => ?_, fun _ hy => ?_⟩
      · rw [Option.some.injEq] at hx
        rw [← hps, hx]
      · rw [Option.some.injEq, Prod.mk.injEq] at hy
        rw [hy.1]
    · dsimp only
      rw [List.getElem?_set_ne hs]
      exact ⟨id, fun hx hy => absurd hy hx⟩
  | _ =>
    simp only [step, Option.ite_none_right_eq_some, Option.some.injEq] at h
    obtain ⟨-, rfl⟩ := h
    exact ⟨id, fun hx hy => absurd hy hx⟩

/-- What is refused has been closed before. -/
theorem refused_closed {r : Nat} (h : registry.after os = some z) (hr : .refused r ∈ os) :
    .closedRuntime r ∈ os := by
  have hrefused : ∀ x y, registry.step (.refused r) x = some y → ClosedRuntime r x :=
    fun x y h => (Option.ite_none_right_eq_some.1 h).1
  obtain ⟨o, ho, x, y, hstep, hx, hy⟩ :=
    Atomic.after_before (by simp [ClosedRuntime, registry]) hrefused h hr
  rwa [← (closedRuntime_step hstep).2 hx hy]

theorem gone_closed {s : Session} (h : registry.after os = some z) (hs : .gone s ∈ os) :
    .closedSession s ∈ os := by
  have hgone : ∀ x y, registry.step (.gone s) x = some y → ClosedSession s x :=
    fun x y h => (Option.ite_none_right_eq_some.1 h).1
  obtain ⟨o, ho, x, y, hstep, hx, hy⟩ :=
    Atomic.after_before (by simp [ClosedSession, registry]) hgone h hs
  rwa [← (closedSession_step hstep).2 hx hy]

theorem closedRuntime_closes {r : Nat} (h : step (.closedRuntime r) x = some y) :
    ClosedRuntime r y := by
  obtain ⟨hlt, hy⟩ := Option.ite_none_right_eq_some.1 h
  rw [← Option.some.inj hy]
  exact List.getElem?_set_self hlt

/-- A runtime that has been closed is closed. -/
theorem closed_after {r : Nat} (h : registry.after os = some z) (hclosed : .closedRuntime r ∈ os) :
    ClosedRuntime r z :=
  Atomic.after_holds (fun _ _ _ h => (closedRuntime_step h).1) (fun _ _ h => closedRuntime_closes h) h
    hclosed

/-- A closed runtime makes no session. -/
theorem closed_loaded {s : Session} (h : registry.after (os ++ os') = some z)
    (hclosed : .closedRuntime s.runtime ∈ os) : .loaded s ∉ os' := by
  intro hloaded
  obtain ⟨x, y, hstep, hx⟩ := Atomic.after_since (fun _ _ _ h => (closedRuntime_step h).1)
    (fun _ _ h => closedRuntime_closes h) h hclosed _ hloaded
  have hopen := (Option.ite_none_right_eq_some.1 hstep).1.2
  rw [show x.runtimes[s.runtime]? = some true from hx] at hopen
  simp at hopen

/-- A closed session runs nothing. -/
theorem closed_ran {s : Session} (h : registry.after (os ++ os') = some z)
    (hclosed : .closedSession s ∈ os) : .ran s ∉ os' := by
  intro hran
  have hclose : ∀ x y, registry.step (.closedSession s) x = some y → ClosedSession s y := by
    intro x y h
    obtain ⟨hs, hy⟩ := Option.ite_none_right_eq_some.1 h
    obtain ⟨p, hp, -⟩ := Option.map_eq_some_iff.1 hs
    rw [← Option.some.inj hy]
    exact List.getElem?_set_self (List.getElem?_eq_some_iff.1 hp).1
  obtain ⟨x, y, hstep, hx⟩ := Atomic.after_since (fun _ _ _ h => (closedSession_step h).1) hclose h
    hclosed _ hran
  have hopen := (Option.ite_none_right_eq_some.1 hstep).1
  rw [show x.sessions[s.id]? = some (s, true) from hx] at hopen
  simp at hopen

end Registry

/-- The registry that the world holds: a runtime is closed when it says so, a session when it has no
native session. -/
def World.registry (w : World) : Registry where
  runtimes := w.runtimes.map (·.closed)
  sessions := w.sessions.map fun st => (st.sess, st.native.isNone)

/-! ## What calls return -/

/-- The result of a run that has found its session open, or closed. -/
def Session.RunMeans {α : Type} (s : Session) (res : Except GoError α) (o : Registry.Action) : Prop :=
  res = .error .closed ∧ o = .gone s ∨ res ≠ .error .closed ∧ o = .ran s

/-- The result of a load that has made a session, or found its runtime closed. -/
def Runtime.LoadMeans (r : Nat) (res : Except GoError Session) (o : Registry.Action) : Prop :=
  res = .error .closed ∧ o = .refused r ∨ ∃ s, s.runtime = r ∧ res = .ok s ∧ o = .loaded s

/-- An error other than that of a closed runtime or session. -/
def FailsElse {α : Type} (res : Except GoError α) : Prop := ∃ err, res = .error err ∧ err ≠ .closed

namespace Call

/-- What a call may return once it has performed `o`. -/
def Means (c : Call) (ret : Ret) (o : Registry.Action) : Prop :=
  match c with
  | .openLibrary _ => ∃ r, ret = .runtime (.ok r) ∧ o = .opened r
  | .load r _ _ | .loadBytes r _ _ => ∃ res, ret = .session res ∧ Runtime.LoadMeans r res o
  | .closeRuntime r => ret = .none (.ok ()) ∧ o = .closedRuntime r
  | .closeSession s => ret = .none (.ok ()) ∧ o = .closedSession s
  | .run s _ _ => ∃ res, ret = .tensors res ∧ s.RunMeans res o
  | .runInto s _ _ _ => ∃ res, ret = .none res ∧ s.RunMeans res o
  | .callback _ _ _ => False

/-- What a call may return without having performed anything: it fails, and not because anything is
closed. A callback is not a call of the registry. -/
def Leaves (c : Call) (ret : Ret) : Prop :=
  match c with
  | .openLibrary _ => ∃ err, ret = .runtime (.error err)
  | .load _ _ _ | .loadBytes _ _ _ => ∃ res, ret = .session res ∧ FailsElse res
  | .closeRuntime _ | .closeSession _ => False
  | .run _ _ _ => ∃ res, ret = .tensors res ∧ FailsElse res
  | .runInto _ _ _ _ => ∃ res, ret = .none res ∧ FailsElse res
  | .callback _ _ _ => True

end Call

end Onnxcraft
