import Onnxcraft.Protocol.Progress
import Onnxcraft.Protocol.Uses

/-!
# The native objects of a run

A run releases what it has acquired, each object once, whatever ORT and the C heap answer. The
values that ORT's `Run` has made stay alive until their contents have been copied.
-/

namespace Onnxcraft

open Effect

section
variable [Platform] {σ : Global} {t : Goroutine}

/-- The part of Go memory's operations that copies results. -/
def MemOp.Copies : MemOp → Prop
  | .make _ | .load _ _ | .store _ _ => True
  | _ => False

/-- The heap blocks at `p` that a trace allocates, and frees. -/
def allocations (p : Handle) (tr : Trace) : Nat := (acquired tr).count (.mem p)

def frees (p : Handle) (tr : Trace) : Nat := tr.countP fun ev => ev.1 = .nat (.free p)

omit [Platform] in
theorem frees_eq (p : Handle) (tr : Trace) : frees p tr = (released tr).count (.mem p) := by
  induction tr with
  | nil => rfl
  | cons ev tr ih =>
    obtain ⟨e, a⟩ := ev
    rw [frees, List.countP_cons, released, total_cons, Multiset.count_add, ← released, ← ih, frees,
      add_comm]
    congr 1
    cases e with
    | nat o =>
      cases o <;> simp [Op.releases, NativeOp.releases, Multiset.count_singleton, eq_comm]
    | _ => simp [Op.releases]

/-- A run owns what it has acquired and not released. -/
theorem run_acquired (hr : system.Reachable σ) (ht : t ∈ σ.threads) (hrun : t.call.ctx.isSome)
    {tr tr' : Trace} (htr : t.trace = tr ++ tr') :
    acquired tr = released tr + (protocol.after tr (Held.start t.call)).live := by
  have hv := Reachable.valid hr ht
  rw [htr] at hv
  have hc : ¬t.call.Closes := by
    cases hcall : t.call <;> rw [hcall] at hrun <;> first | exact id | exact nomatch hrun
  rw [acquired_eq hv.init hc, given_run hv.init hrun, add_zero]

/-- The values of a run are not released while they are copied. -/
theorem copy_unreleased {c : Call} {tr mid tr' : Trace} {n : OcSession} {o : MemOp} {a : o.Resp}
    (hv : protocol.Valid (tr ++ ⟨.leave (.ocRun n), ()⟩ :: (mid ++ ⟨.mem o, a⟩ :: tr'))
      (Held.start c)) (ho : o.Copies) : ∀ ev ∈ mid, ∀ v, ev.1 ≠ .nat (.releaseValue v) := by
  intro ev hev v hrel
  obtain ⟨mid₁, mid₂, rfl⟩ := List.append_of_mem hev
  rw [show tr ++ ⟨.leave (.ocRun n), ()⟩ :: ((mid₁ ++ ev :: mid₂) ++ ⟨.mem o, a⟩ :: tr') =
    tr ++ (⟨.leave (.ocRun n), ()⟩ :: mid₁ ++ (ev :: mid₂ ++ ⟨.mem o, a⟩ :: tr')) by simp,
    Spec.valid_append, Spec.valid_append, Spec.valid_append] at hv
  obtain ⟨h₀, h₁, h₂, h₃⟩ := hv
  have hwf : ∀ {tr : Trace} {g : Held}, protocol.Valid tr g → g.Wf → (protocol.after tr g).Wf :=
    fun h hg => h.history (I := fun _ g => g.Wf) hg fun _ _ _ _ hg hp _ => hg.step hp
  have hwf₀ := hwf h₀ (.start c)
  have hwf₁ := hwf h₁ hwf₀
  -- the phase after the native call, at the release, and at the copy
  have hle₁ : 2 ≤ (protocol.after (⟨.leave (.ocRun n), ()⟩ :: mid₁)
      (protocol.after tr (Held.start c))).phase.rank :=
    phase_le h₁.2 (hwf₀.step (e := .leave (.ocRun n)) (a := ()) h₁.1.1)
  have hrelease : Op.Pre _ ev.1 := h₂.1.1
  rw [hrel] at hrelease
  have hle₂ := phase_le h₂ hwf₁
  have hcopy : (protocol.after (ev :: mid₂) (protocol.after (⟨.leave (.ocRun n), ()⟩ :: mid₁)
      (protocol.after tr (Held.start c)))).phase = .after := by
    have := h₃.1.1
    cases o <;> first | exact this | exact ho.elim
  rw [hcopy] at hle₂
  rcases hrelease.2 with h | h <;> rw [h] at hle₁ hle₂ <;> simp [Phase.rank] at hle₁ hle₂

/-- A run allocates no heap block but an array of more than 16 values. -/
theorem run_heap (hr : system.Reachable σ) (ht : t ∈ σ.threads) (hrun : t.call.ctx.isSome) :
    ∀ ev ∈ t.trace, ∀ o, ev.1 = .nat o → o.InRun := by
  obtain ⟨ctx, hctx⟩ := Option.isSome_iff_exists.1 hrun
  obtain ⟨s, inputs, outputs, into, q, -, h, -⟩ := Call.run_inv hctx (hr.runs t ht)
  intro ev hev o ho
  have hbody : ev.1.Body → o.InRun := fun h => by rw [ho] at h; exact h
  rcases Session.run_cases s ctx inputs outputs into h with (htr | ⟨e, htr⟩) |
    ⟨tr', q', htr, ⟨-, huses⟩ | ⟨tr'', res, rfl, -, -, huses⟩⟩ <;> rw [htr] at hev
  · exact nomatch hev
  · obtain rfl := List.mem_singleton.1 hev
    exact nomatch ho
  · rcases List.mem_cons.1 hev with rfl | hev
    · exact nomatch ho
    rcases List.mem_cons.1 hev with rfl | hev
    · exact nomatch ho
    exact hbody (huses ev hev)
  · rcases List.mem_cons.1 hev with rfl | hev
    · exact nomatch ho
    rcases List.mem_cons.1 hev with rfl | hev
    · exact nomatch ho
    rcases List.mem_append.1 hev with hev | hev
    · exact hbody (huses ev hev)
    · obtain rfl := List.mem_singleton.1 hev
      exact nomatch ho

/-- **The native objects of a run.** -/
theorem run_releases (hr : system.Reachable σ) (ht : t ∈ σ.threads) (hrun : t.call.ctx.isSome) :
    (∀ tr tr', t.trace = tr ++ tr' → released tr ≤ acquired tr) ∧
    (∀ res, t.rest = .ret res → released t.trace = acquired t.trace) ∧
    (∀ tr n mid o a tr',
      t.trace = tr ++ ⟨.leave (.ocRun n), ()⟩ :: (mid ++ ⟨.mem o, a⟩ :: tr') → o.Copies →
      ∀ ev ∈ mid, ∀ v, ev.1 ≠ .nat (.releaseValue v)) ∧
    (∀ res p, t.rest = .ret res → frees p t.trace = allocations p t.trace) ∧
    ∀ ev ∈ t.trace, ∀ o, ev.1 = .nat o → o.InRun := by
  have hend : ∀ res, t.rest = .ret res → released t.trace = acquired t.trace := fun res hret => by
    have hlive : (protocol.after t.trace (Held.start t.call)).live = 0 :=
      (Reachable.ends hr ht hret).idle.live
    rw [run_acquired hr ht hrun (List.append_nil _).symm, hlive, add_zero]
  refine ⟨fun tr tr' htr => ?_, hend, fun tr n mid o a tr' htr ho => ?_, fun res p hret => ?_,
    run_heap hr ht hrun⟩
  · rw [run_acquired hr ht hrun htr]
    exact Multiset.le_add_right _ _
  · exact copy_unreleased (htr ▸ Reachable.valid hr ht) ho
  · rw [frees_eq, hend res hret, allocations]

end

open Sample in
theorem run_releases_sample :
    ∃ res, runner.rest = .ret res ∧ released runner.trace = acquired runner.trace := by
  obtain ⟨hcall, res, hret⟩ := runnerDone
  have hrun : runner.call.ctx.isSome := by
    rw [hcall]
    rfl
  exact ⟨res, hret, (run_releases (System.played_reachable _) runner_mem hrun).2.1 res hret⟩

end Onnxcraft
