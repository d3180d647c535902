import Onnxcraft.Properties.Linear
import Onnxcraft.Protocol.Reports

/-!
# The error of what is closed

A `Close` that has returned makes every later load or run fail. No load and no run fails because of
a `Close` that nobody has called.
-/

namespace Onnxcraft

open Effect

namespace Call

/-- A load on the runtime `r`. -/
def Loads (c : Call) (r : Nat) : Prop := c.loadArgs.map (·.1) = some r

/-- A run of the session `s`. -/
def Runs (c : Call) (s : Session) : Prop := c.ctx.isSome ∧ c.session = some s

/-- A call needs what `d` closes. -/
def Needs (c d : Call) : Prop :=
  (∃ r, d = .closeRuntime r ∧ c.Loads r) ∨ ∃ s, d = .closeSession s ∧ c.Runs s

/-! ## What calls have performed -/

section
variable {c : Call} {r : Nat} {s : Session} {ret : Ret} {o : Registry.Action}

/-- A load that returns has made a session, or fails: because the runtime is closed, or otherwise. -/
theorem Loads.means (h : c.Loads r) (hm : c.Means ret o) :
    o = .refused r ∧ ret.error = some .closed ∨
      ∃ s : Session, s.runtime = r ∧ o = .loaded s ∧ ret.error = none := by
  obtain ⟨res, rfl, hres⟩ : ∃ res, ret = .session res ∧ Runtime.LoadMeans r res o := by
    cases c with
    | load r' path options =>
      obtain rfl := Option.some.inj h
      exact hm
    | loadBytes r' model options =>
      obtain rfl := Option.some.inj h
      exact hm
    | _ => cases h
  rcases hres with ⟨rfl, rfl⟩ | ⟨s, hs, rfl, rfl⟩
  · exact .inl ⟨rfl, rfl⟩
  · exact .inr ⟨s, hs, rfl, rfl⟩

theorem Runs.means (h : c.Runs s) (hm : c.Means ret o) :
    o = .gone s ∧ ret.error = some .closed ∨ o = .ran s ∧ ret.error ≠ some .closed := by
  obtain ⟨hctx, hs⟩ := h
  cases c with
  | run s' ctx inputs =>
    obtain rfl := Option.some.inj hs
    obtain ⟨res, rfl, ⟨rfl, rfl⟩ | ⟨hres, rfl⟩⟩ := hm
    · exact .inl ⟨rfl, rfl⟩
    · refine .inr ⟨rfl, fun h => hres ?_⟩
      cases res with
      | error err => exact congrArg _ (Option.some.inj h)
      | ok ts => cases h
  | runInto s' ctx outputs inputs =>
    obtain rfl := Option.some.inj hs
    obtain ⟨res, rfl, ⟨rfl, rfl⟩ | ⟨hres, rfl⟩⟩ := hm
    · exact .inl ⟨rfl, rfl⟩
    · refine .inr ⟨rfl, fun h => hres ?_⟩
      cases res with
      | error err => exact congrArg _ (Option.some.inj h)
      | ok u => cases h
  | _ => cases hctx

/-- A load or a run that has performed nothing fails, and not because anything is closed. -/
theorem Leaves.fails (h : c.Leaves ret) (hc : c.loadArgs.isSome ∨ c.ctx.isSome) :
    ∃ err, ret.error = some err ∧ err ≠ .closed := by
  cases c with
  | load | loadBytes | run | runInto =>
    obtain ⟨res, rfl, err, rfl, hne⟩ := h
    exact ⟨err, rfl, hne⟩
  | _ => rcases hc with hc | hc <;> cases hc

/-- Who has performed the closing of a runtime. -/
theorem closedRuntime_means (h : c.Means ret (.closedRuntime r)) : c = .closeRuntime r := by
  cases c with
  | closeRuntime r' =>
    obtain ⟨-, h⟩ := h
    rw [Registry.Action.closedRuntime.inj h]
  | openLibrary => obtain ⟨_, -, h⟩ := h; cases h
  | closeSession => cases h.2
  | load | loadBytes => obtain ⟨_, -, ⟨-, h⟩ | ⟨_, -, -, h⟩⟩ := h <;> cases h
  | run | runInto => obtain ⟨_, -, ⟨-, h⟩ | ⟨-, h⟩⟩ := h <;> cases h
  | callback => exact h.elim

theorem closedSession_means (h : c.Means ret (.closedSession s)) : c = .closeSession s := by
  cases c with
  | closeSession s' =>
    obtain ⟨-, h⟩ := h
    rw [Registry.Action.closedSession.inj h]
  | openLibrary => obtain ⟨_, -, h⟩ := h; cases h
  | closeRuntime => cases h.2
  | load | loadBytes => obtain ⟨_, -, ⟨-, h⟩ | ⟨_, -, -, h⟩⟩ := h <;> cases h
  | run | runInto => obtain ⟨_, -, ⟨-, h⟩ | ⟨-, h⟩⟩ := h <;> cases h
  | callback => exact h.elim

end

end Call

section
variable [Platform] {σ : Global} {t : Goroutine} {i : Nat} {ret : Ret}
  {ls : List (Label Call Move Op Op.Resp)} {cs : List (Commit Op Op.Resp Registry.Action)}

omit [Platform] in
/-- What has returned fails, or has performed something that is still to be found open. -/
theorem closed_fails (hlin : Linearizes registry World.registry Call.Means Call.Leaves ls σ cs)
    {cs₁ cs₂ : List (Commit Op Op.Resp Registry.Action)} (hcs : cs = cs₁ ++ cs₂)
    (ht : σ.threads[i]? = some t) (hret : t.rest = .ret ret)
    (hlate : ∀ c ∈ cs, c.thread = i → c ∈ cs₂) {d : Call} (hneeds : t.call.Needs d)
    (hclosed : ∃ c ∈ cs₁, ∃ ret, d.Means ret c.op) : ret.error.isSome := by
  obtain ⟨c, hc, ret', hclose⟩ := hclosed
  have hlegal : registry.after (cs₁.map Commit.op ++ cs₂.map Commit.op) = some σ.world.registry := by
    rw [← List.map_append, ← hcs]
    exact hlin.legal
  have hmem : c.op ∈ cs₁.map Commit.op := List.mem_map_of_mem hc
  rcases hlin.returned i t ret ht hret with ⟨c', hc', hi, hmeans⟩ | ⟨hleaves, -⟩
  · have hmem' : c'.op ∈ cs₂.map Commit.op := List.mem_map_of_mem (hlate c' hc' hi)
    rcases hneeds with ⟨r, rfl, hload⟩ | ⟨s, rfl, hrun⟩
    · rcases hload.means hmeans with ⟨-, herr⟩ | ⟨s, rfl, hop, -⟩
      · rw [herr]
        rfl
      · rw [hop] at hmem'
        rw [hclose.2] at hmem
        exact absurd hmem' (Registry.closed_loaded hlegal hmem)
    · rcases hrun.means hmeans with ⟨-, herr⟩ | ⟨hop, -⟩
      · rw [herr]
        rfl
      · rw [hop] at hmem'
        rw [hclose.2] at hmem
        exact absurd hmem' (Registry.closed_ran hlegal hmem)
  · have hc : t.call.loadArgs.isSome ∨ t.call.ctx.isSome := by
      rcases hneeds with ⟨r, -, hload⟩ | ⟨s, -, hrun⟩
      · obtain ⟨x, hx, -⟩ := Option.map_eq_some_iff.1 hload
        exact .inl (by rw [hx]; rfl)
      · exact .inr hrun.1
    obtain ⟨err, herr, -⟩ := hleaves.fails hc
    rw [herr]
    rfl

/-- **The error of what is closed.** -/
theorem closed_errors (hx : system.Execution ls σ) :
    (∀ ls₁ ls₂ σ₁, ls = ls₁ ++ ls₂ → system.Execution ls₁ σ₁ →
      ∀ (j : Nat) (u : Goroutine) (ret : Ret), σ₁.threads[j]? = some u → u.rest = .ret ret →
      ∀ (i : Nat) (t : Goroutine) (ret' : Ret), σ₁.threads.length ≤ i → σ.threads[i]? = some t →
        t.rest = .ret ret' → t.call.Needs u.call → ret'.error.isSome) ∧
    ∀ t ∈ σ.threads, ∀ ret, t.rest = .ret ret → ret.error = some .closed →
      (∀ r, t.call.Loads r → ∃ u ∈ σ.threads, u.call = .closeRuntime r) ∧
      ∀ s, t.call.Runs s → ∃ u ∈ σ.threads, u.call = .closeSession s := by
  obtain ⟨cs, hlin, htime⟩ := commits.linearizes hx
  refine ⟨?_, ?_⟩
  · intro ls₁ ls₂ σ₁ hls hx₁ j u ret hu hret i t ret' hlen ht hret' hneeds
    subst hls
    obtain ⟨cs₁, cs₂, hcs, hbefore, hafter⟩ := htime ls₁ ls₂ σ₁ rfl hx₁
    have hu' : σ.threads[j]? = some u := (hx.stopped hx₁ hu hret).1
    refine closed_fails hlin hcs ht hret' (fun c hc hi => hafter c hc (hi ▸ hlen)) hneeds ?_
    rcases hlin.returned j u ret hu' hret with ⟨c, hc, hj, hmeans⟩ | ⟨hleaves, -⟩
    · exact ⟨c, hbefore c hc u ret (hj ▸ hu) hret, ret, hmeans⟩
    · rcases hneeds with ⟨r, hcall, -⟩ | ⟨s, hcall, -⟩ <;> rw [hcall] at hleaves <;>
        exact hleaves.elim
  · intro t ht ret hret herr
    obtain ⟨i, hi⟩ := List.mem_iff_getElem?.1 ht
    have hdone : t.call.loadArgs.isSome ∨ t.call.ctx.isSome → ∃ c ∈ cs, t.call.Means ret c.op := by
      intro hc
      rcases hlin.returned i t ret hi hret with ⟨c, hc, -, hmeans⟩ | ⟨hleaves, -⟩
      · exact ⟨c, hc, hmeans⟩
      · obtain ⟨err, herr', hne⟩ := hleaves.fails hc
        rw [herr, Option.some.injEq] at herr'
        exact absurd herr'.symm hne
    have hfind : ∀ o, o ∈ cs.map Commit.op → ∃ u ∈ σ.threads, ∃ ret, u.call.Means ret o := by
      intro o ho
      obtain ⟨c, hc, rfl⟩ := List.mem_map.1 ho
      obtain ⟨u, hu, ret', hmeans⟩ := hlin.pending c hc
      exact ⟨u, List.mem_of_getElem? hu, ret', hmeans⟩
    refine ⟨fun r hload => ?_, fun s hrun => ?_⟩
    · obtain ⟨x, hargs, -⟩ := Option.map_eq_some_iff.1 hload
      obtain ⟨c, hc, hmeans⟩ := hdone (.inl (by rw [hargs]; rfl))
      rcases hload.means hmeans with ⟨hop, -⟩ | ⟨s, -, -, hnone⟩
      · have hrefused : .refused r ∈ cs.map Commit.op := List.mem_map.2 ⟨c, hc, hop⟩
        obtain ⟨u, hu, ret', hclose⟩ := hfind _ (Registry.refused_closed hlin.legal hrefused)
        exact ⟨u, hu, Call.closedRuntime_means hclose⟩
      · rw [herr] at hnone
        cases hnone
    · obtain ⟨c, hc, hmeans⟩ := hdone (.inr hrun.1)
      rcases hrun.means hmeans with ⟨hop, -⟩ | ⟨-, hne⟩
      · have hgone : .gone s ∈ cs.map Commit.op := List.mem_map.2 ⟨c, hc, hop⟩
        obtain ⟨u, hu, ret', hclose⟩ := hfind _ (Registry.gone_closed hlin.legal hgone)
        exact ⟨u, hu, Call.closedSession_means hclose⟩
      · exact absurd herr hne

end

namespace Sample

/-- Goroutine 4 runs the session that goroutine 3 has closed. -/
def calledLate : List Cue := ended ++ [.start (.run (session true) ctx [scalar 8192]), go 4 4]

def tooLate : Goroutine := (system.played calledLate).threads.get ⟨4, by decide +kernel⟩

def tooLateDone : Returned tooLate (.run (session true) ctx [scalar 8192]) := .of (by decide +kernel)

end Sample

open Sample in
theorem closed_errors_sample : tooLate.rest.value.bind Ret.error = some .closed ∧
    ∃ u ∈ (system.played calledLate).threads, u.call = .closeSession (session true) := by
  have herr : tooLate.rest.value.bind Ret.error = some .closed := by decide +kernel
  refine ⟨herr, ?_⟩
  obtain ⟨ret, hret, herr⟩ := Option.bind_eq_some_iff.1 herr
  obtain ⟨ls, hx⟩ := (System.played_reachable (S := system) calledLate).execution
  have h := (closed_errors hx).2 tooLate (List.get_mem _ _) ret (Prog.value_eq.1 hret) herr
  exact h.2 (session true) (by rw [tooLateDone.call]; exact ⟨rfl, rfl⟩)

end Onnxcraft
