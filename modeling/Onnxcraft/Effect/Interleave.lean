import Onnxcraft.Effect.Wp

/-!
# Interleaved runs

A `System` is a world shared by threads, each running a `Prog`: `act` is the meaning of one
operation (`none`: this answer is not possible now), `start` the world in which a new thread may
begin a call, `move` what the environment does by itself. A `State` keeps with every thread the
events it has performed, and a step carries its `Label`.

`Reachable.inv`: the rule for invariants of all interleavings. A protocol `P` keeps a ghost state
per thread; if every call's program meets its `wp` and every step allowed by the world keeps
`Inv` over the world and the ghost states (and gives the thread the answers its protocol relies
on), then `Inv` holds in every reachable state and every thread meets the rest of its `wp`.
-/

namespace Effect

/-- A shared world `W`, calls `C`, moves of the environment `V`. -/
structure System (W C V : Type) (E : Type) (R : E → Type) (α : Type) where
  init : W
  prog : C → Prog E R α
  act : (e : E) → R e → W → Option W
  start : C → W → Option W
  move : V → W → Option W

/-- A call, what is left of its program, and what it has done. -/
structure Thread (C E : Type) (R : E → Type) (α : Type) where
  call : C
  rest : Prog E R α
  trace : List (Event E R)

structure State (W C E : Type) (R : E → Type) (α : Type) where
  world : W
  threads : List (Thread C E R α)

/-- Who takes a step. -/
inductive Label (C V E : Type) (R : E → Type) where
  | act (i : Nat) (ev : Event E R)
  | start (c : C)
  | move (v : V)

variable {W C V E : Type} {R : E → Type} {α G : Type}

namespace Thread

/-- The thread after its next operation was answered by `r`. -/
def next (t : Thread C E R α) {e : E} (k : R e → Prog E R α) (r : R e) : Thread C E R α :=
  ⟨t.call, k r, t.trace ++ [⟨e, r⟩]⟩

@[simp] theorem next_call (t : Thread C E R α) {e : E} (k : R e → Prog E R α) (r : R e) :
    (t.next k r).call = t.call := rfl
@[simp] theorem next_rest (t : Thread C E R α) {e : E} (k : R e → Prog E R α) (r : R e) :
    (t.next k r).rest = k r := rfl
@[simp] theorem next_trace (t : Thread C E R α) {e : E} (k : R e → Prog E R α) (r : R e) :
    (t.next k r).trace = t.trace ++ [⟨e, r⟩] := rfl

/-- The ghost state of a thread. -/
def ghost (P : Spec E R G) (g0 : C → G) (t : Thread C E R α) : G := P.after t.trace (g0 t.call)

@[simp] theorem ghost_next (P : Spec E R G) (g0 : C → G) (t : Thread C E R α) {e : E}
    (k : R e → Prog E R α) (r : R e) : (t.next k r).ghost P g0 = P.upd e r (t.ghost P g0) := by
  simp [ghost]

end Thread

namespace System

variable (S : System W C V E R α)

inductive Step : State W C E R α → Label C V E R → State W C E R α → Prop
  | act {σ : State W C E R α} {i : Nat} {t : Thread C E R α} {e : E} {k : R e → Prog E R α}
      {r : R e} {w' : W} (ht : σ.threads[i]? = some t) (hk : t.rest = .op e k)
      (ha : S.act e r σ.world = some w') :
      Step σ (.act i ⟨e, r⟩) ⟨w', σ.threads.set i (t.next k r)⟩
  | start {σ : State W C E R α} {c : C} {w' : W} (hs : S.start c σ.world = some w') :
      Step σ (.start c) ⟨w', σ.threads ++ [⟨c, S.prog c, []⟩]⟩
  | move {σ : State W C E R α} {v : V} {w' : W} (hm : S.move v σ.world = some w') :
      Step σ (.move v) ⟨w', σ.threads⟩

/-- Reached from the initial world, no thread running. -/
inductive Reachable : State W C E R α → Prop
  | init : Reachable ⟨S.init, []⟩
  | step {σ σ' : State W C E R α} {l : Label C V E R} :
      Reachable σ → S.Step σ l σ' → Reachable σ'

/-- `σ'` is reached from `σ` by steps whose labels satisfy `A`. -/
inductive Path (A : State W C E R α → Label C V E R → Prop) :
    State W C E R α → State W C E R α → Prop
  | nil (σ : State W C E R α) : Path A σ σ
  | snoc {σ σ' σ'' : State W C E R α} {l : Label C V E R} :
      Path A σ σ' → A σ' l → S.Step σ' l σ'' → Path A σ σ''

/-- Thread `i` can take a step now. -/
def Enabled (σ : State W C E R α) (i : Nat) : Prop :=
  ∃ ev σ', S.Step σ (.act i ev) σ'

end System

variable {S : System W C V E R α}

theorem System.Path.reachable {A : State W C E R α → Label C V E R → Prop}
    {σ σ' : State W C E R α} (h : S.Path A σ σ') (hr : S.Reachable σ) : S.Reachable σ' := by
  induction h with
  | nil => exact hr
  | snoc _ _ hs ih => exact .step ih hs

/-- Thread `i` can step iff its next operation has an answer now. -/
theorem System.enabled_iff {σ : State W C E R α} {i : Nat} :
    S.Enabled σ i ↔ ∃ t e k r w', σ.threads[i]? = some t ∧ t.rest = .op e k ∧
      S.act e r σ.world = some w' := by
  constructor
  · rintro ⟨ev, σ', h⟩
    cases h with
    | act ht hk ha => exact ⟨_, _, _, _, _, ht, hk, ha⟩
  · rintro ⟨t, e, k, r, w', ht, hk, ha⟩
    exact ⟨_, _, .act ht hk ha⟩

/-- An element of an updated list is the new one or an old one. -/
theorem mem_set_cases {β : Type} {l : List β} {i : Nat} {a x : β} (h : x ∈ l.set i a) :
    x = a ∨ x ∈ l := by
  rcases List.mem_or_eq_of_mem_set h with h | h
  · exact .inr h
  · exact .inl h

/-- An element of an updated list is the new one, or an old one at another place. -/
theorem mem_set_other {β : Type} {l : List β} {i : Nat} {a x : β} (h : x ∈ l.set i a) :
    x = a ∨ ∃ j, j ≠ i ∧ l[j]? = some x := by
  obtain ⟨j, hj⟩ := List.mem_iff_getElem?.1 h
  by_cases hji : j = i
  · subst hji
    rw [List.getElem?_set_self'] at hj
    obtain ⟨y, -, rfl⟩ := Option.map_eq_some_iff.1 hj
    exact .inl rfl
  · rw [List.getElem?_set_ne (Ne.symm hji)] at hj
    exact .inr ⟨j, hji, hj⟩

/-! ## The invariant rule -/

/-- The ghost states of all threads. -/
def State.ghosts (P : Spec E R G) (g0 : C → G) (σ : State W C E R α) : List G :=
  σ.threads.map (Thread.ghost P g0)

section
variable {P : Spec E R G} {g0 : C → G}

theorem State.ghosts_get {σ : State W C E R α} {i : Nat} {t : Thread C E R α}
    (h : σ.threads[i]? = some t) : (σ.ghosts P g0)[i]? = some (t.ghost P g0) := by
  simp [State.ghosts, h]

theorem State.ghosts_set {w' : W} {σ : State W C E R α} {i : Nat} {t : Thread C E R α} :
    State.ghosts P g0 ⟨w', σ.threads.set i t⟩ = (σ.ghosts P g0).set i (t.ghost P g0) := by
  simp [State.ghosts, List.map_set]

theorem State.ghosts_append {w' : W} {σ : State W C E R α} {t : Thread C E R α} :
    State.ghosts P g0 ⟨w', σ.threads ++ [t]⟩ = σ.ghosts P g0 ++ [t.ghost P g0] := by
  simp [State.ghosts]

end

/-- What makes `Inv` an invariant of the interleavings of `S` under the protocol `P`, whose ghost
state of a new call is `g0` and whose call's postcondition is `Q`. -/
structure Sound (S : System W C V E R α) (P : Spec E R G) (g0 : C → G)
    (Q : C → α → G → Prop) (Inv : W → List G → Prop) : Prop where
  init : Inv S.init []
  act : ∀ {w gs i g e r w'}, Inv w gs → gs[i]? = some g → P.pre e g → S.act e r w = some w' →
    P.env e g r ∧ Inv w' (gs.set i (P.upd e r g))
  start : ∀ {w gs c w'}, Inv w gs → S.start c w = some w' →
    Inv w' (gs ++ [g0 c]) ∧ wp P (S.prog c) (Q c) (g0 c)
  move : ∀ {w gs v w'}, Inv w gs → S.move v w = some w' → Inv w' gs

/-- **The invariant rule.** -/
theorem Sound.reachable {P : Spec E R G} {g0 : C → G} {Q : C → α → G → Prop}
    {Inv : W → List G → Prop} (h : Sound S P g0 Q Inv) {σ : State W C E R α}
    (hr : S.Reachable σ) :
    Inv σ.world (σ.ghosts P g0) ∧
      ∀ t ∈ σ.threads, wp P t.rest (Q t.call) (t.ghost P g0) := by
  induction hr with
  | init => exact ⟨h.init, by simp⟩
  | step _ hs ih =>
    obtain ⟨hi, hw⟩ := ih
    cases hs with
    | @act i t e k r w' ht hk ha =>
      have ht' := hw t (List.mem_of_getElem? ht)
      rw [hk] at ht'
      obtain ⟨he, hi'⟩ := h.act hi (State.ghosts_get ht) ht'.1 ha
      refine ⟨by simpa [State.ghosts_set] using hi', fun t' hm => ?_⟩
      rcases mem_set_cases hm with rfl | hm
      · simpa using ht'.2 r he
      · exact hw t' hm
    | @start c w' hs =>
      obtain ⟨hi', hp⟩ := h.start hi hs
      refine ⟨by simpa [State.ghosts_append, Thread.ghost, Spec.after] using hi', fun t' hm => ?_⟩
      rcases List.mem_append.1 hm with hm | hm
      · exact hw t' hm
      · rw [List.mem_singleton.1 hm]
        exact hp
    | move hm => exact ⟨h.move hi hm, hw⟩

/-- Every thread's trace keeps the protocol. -/
theorem Sound.valid {P : Spec E R G} {g0 : C → G} {Q : C → α → G → Prop}
    {Inv : W → List G → Prop} (h : Sound S P g0 Q Inv) {σ : State W C E R α}
    (hr : S.Reachable σ) : ∀ t ∈ σ.threads, P.Valid t.trace (g0 t.call) := by
  induction hr with
  | init => simp
  | step hr hs ih =>
    obtain ⟨hi, hw⟩ := h.reachable hr
    cases hs with
    | act ht hk ha =>
      intro t' hm
      rcases mem_set_cases hm with rfl | hm
      · have hpre := hw _ (List.mem_of_getElem? ht)
        rw [hk] at hpre
        obtain ⟨he, -⟩ := h.act hi (State.ghosts_get ht) hpre.1 ha
        exact Spec.valid_append.2 ⟨ih _ (List.mem_of_getElem? ht), Spec.valid_single.2 ⟨hpre.1, he⟩⟩
      · exact ih t' hm
    | start hs =>
      intro t' hm
      rcases List.mem_append.1 hm with hm | hm
      · exact ih t' hm
      · rw [List.mem_singleton.1 hm]
        trivial
    | move hm => exact ih

/-- Every thread's trace is a run of its call's program. -/
theorem System.Reachable.runs {σ : State W C E R α} (hr : S.Reachable σ) :
    ∀ t ∈ σ.threads, Runs (S.prog t.call) t.trace t.rest := by
  induction hr with
  | init => simp
  | step _ hs ih =>
    cases hs with
    | act ht hk ha =>
      intro t' hm
      rcases mem_set_cases hm with rfl | hm
      · have := ih _ (List.mem_of_getElem? ht)
        rw [hk] at this
        exact this.snoc _
      · exact ih t' hm
    | start hs =>
      intro t' hm
      rcases List.mem_append.1 hm with hm | hm
      · exact ih t' hm
      · rw [List.mem_singleton.1 hm]
        exact .nil _
    | move hm => exact ih

/-! ## Schedules -/

/-- An item of a schedule: a call begins, the environment moves, or thread `i` takes `n` steps,
answered by `f`. -/
inductive Cue (W C V E : Type) (R : E → Type) (α : Type) where
  | start (c : C)
  | move (v : V)
  | steps (i n : Nat) (f : State W C E R α → Nat → (e : E) → Option (R e))

namespace System

/-- Thread `i` takes one step, answered by `f`. -/
def tick (S : System W C V E R α) (f : State W C E R α → Nat → (e : E) → Option (R e)) (i : Nat)
    (σ : State W C E R α) : Option (State W C E R α) :=
  match σ.threads[i]? with
  | none => none
  | some t => match t.rest with
    | .ret _ => none
    | .op e k => match f σ i e with
      | none => none
      | some r => (S.act e r σ.world).map fun w' => ⟨w', σ.threads.set i (t.next k r)⟩

def ticks (S : System W C V E R α) (f : State W C E R α → Nat → (e : E) → Option (R e)) (i : Nat) :
    Nat → State W C E R α → Option (State W C E R α)
  | 0, σ => some σ
  | n + 1, σ => (S.tick f i σ).bind (S.ticks f i n)

/-- The state after a schedule. -/
def play (S : System W C V E R α) :
    List (Cue W C V E R α) → State W C E R α → Option (State W C E R α)
  | [], σ => some σ
  | .start c :: cues, σ => (S.start c σ.world).bind fun w' =>
      S.play cues ⟨w', σ.threads ++ [⟨c, S.prog c, []⟩]⟩
  | .move v :: cues, σ => (S.move v σ.world).bind fun w' => S.play cues ⟨w', σ.threads⟩
  | .steps i n f :: cues, σ => (S.ticks f i n σ).bind (S.play cues)

variable {σ σ' : State W C E R α} {f : State W C E R α → Nat → (e : E) → Option (R e)} {i : Nat}

theorem tick_step (h : S.tick f i σ = some σ') : ∃ ev, S.Step σ (.act i ev) σ' := by
  unfold tick at h
  split at h
  · exact nomatch h
  next t ht =>
  split at h
  · exact nomatch h
  next e k hk =>
  split at h
  · exact nomatch h
  next r hr =>
  obtain ⟨w', hw, rfl⟩ := Option.map_eq_some_iff.1 h
  exact ⟨⟨e, r⟩, .act ht hk hw⟩

theorem ticks_reachable {n : Nat} (hr : S.Reachable σ) (h : S.ticks f i n σ = some σ') :
    S.Reachable σ' := by
  induction n generalizing σ with
  | zero => exact Option.some.inj h ▸ hr
  | succ n ih =>
    obtain ⟨σ₁, h₁, h₂⟩ := Option.bind_eq_some_iff.1 h
    obtain ⟨ev, hs⟩ := tick_step h₁
    exact ih (.step hr hs) h₂

/-- A schedule leads to reachable states. -/
theorem play_reachable {cues : List (Cue W C V E R α)} (hr : S.Reachable σ)
    (h : S.play cues σ = some σ') : S.Reachable σ' := by
  induction cues generalizing σ with
  | nil => exact Option.some.inj h ▸ hr
  | cons cue cues ih =>
    cases cue with
    | start c =>
      obtain ⟨w', hw, h⟩ := Option.bind_eq_some_iff.1 h
      exact ih (.step hr (.start hw)) h
    | move v =>
      obtain ⟨w', hw, h⟩ := Option.bind_eq_some_iff.1 h
      exact ih (.step hr (.move hw)) h
    | steps i n f =>
      obtain ⟨σ₁, h₁, h₂⟩ := Option.bind_eq_some_iff.1 h
      exact ih (ticks_reachable hr h₁) h₂

/-- The state after a schedule from the start; a schedule that gets stuck leads nowhere. -/
def played (S : System W C V E R α) (cues : List (Cue W C V E R α)) : State W C E R α :=
  (S.play cues ⟨S.init, []⟩).getD ⟨S.init, []⟩

theorem played_reachable (cues : List (Cue W C V E R α)) : S.Reachable (S.played cues) := by
  unfold played
  cases h : S.play cues ⟨S.init, []⟩ with
  | none => exact .init
  | some σ => exact play_reachable .init h

end System

end Effect
