import Onnxcraft.Properties.Ownership
import Onnxcraft.Protocol.Made

/-!
# The provider gate

The tokens in the gate of a session that was loaded with providers are those that runs have sent and
not received back, at most one; only the run that owns the token is in native code of the session,
and it gives the token back when everything it has acquired is released.
-/

namespace Onnxcraft

open Effect

section
variable [Platform] {σ : Global} {t : Goroutine}

/-- The call has sent its token into the gate of `s`, and not yet received it back. -/
def PastGate (s : Nat) (t : Goroutine) : Prop := tokensReceived s t.trace < tokensSent s t.trace

instance (s : Nat) : DecidablePred (PastGate s) := fun _ => inferInstanceAs (Decidable (_ < _))

/-- The call executes a native run of the session `s`. -/
def InNativeRun (s : Session) (t : Goroutine) : Prop :=
  t.call.session = some s ∧ ∃ n, inC t.trace = some (.ocRun n) ∨ inC t.trace = some (.ocRunInto n)

theorem pastGate_iff (hr : system.Reachable σ) (ht : t ∈ σ.threads) (s : Nat) :
    PastGate s t ↔ (held t).gate = some s := by
  have h : tokensSent s t.trace = tokensReceived s t.trace + if (held t).gate = some s then 1 else 0 :=
    tokens_eq (Reachable.valid hr ht) s
  unfold PastGate
  by_cases hg : (held t).gate = some s
  · rw [if_pos hg] at h
    simp only [hg, iff_true]
    omega
  · rw [if_neg hg] at h
    simp only [hg, iff_false]
    omega

/-- The gate counts the calls past it. -/
theorem gate_count (hr : system.Reachable σ) (s : Nat) :
    holders Held.gate (σ.threads.map held) s = σ.threads.countP fun t => PastGate s t := by
  rw [countP_eq_total, holders, total, total, List.map_map]
  congr 1
  refine List.map_congr_left fun t ht => ?_
  simp only [Function.comp_apply, decide_eq_true_eq, pastGate_iff hr ht s]

/-- Who executes a native run of a gated session is past its gate. -/
theorem InNativeRun.gate (hr : system.Reachable σ) (ht : t ∈ σ.threads) {s : Session}
    (h : InNativeRun s t) (hgated : s.gated) : (held t).gate = some s.id := by
  obtain ⟨hs, n, hin⟩ := h
  have hwf := (Reachable.inv hr).wf _ (Reachable.held_mem ht)
  have hinC : (held t).inC = inC t.trace := inC_eq (Reachable.valid hr ht)
  have hcall : (held t).call = t.call := Reachable.call hr ht
  have hgate : (held t).gate.isSome := by
    rcases hin with hin | hin <;> rw [← hinC] at hin <;>
      exact (hwf.inside _ hin).2.2.2 s (by rw [hcall, hs]) hgated
  obtain ⟨s', hs'⟩ := Option.isSome_iff_exists.1 hgate
  have hid := hwf.read s' (hwf.gate s' hs')
  rw [hcall, hs] at hid
  rw [hs', ← hid]
  rfl

/-- **The provider gate.** -/
theorem provider_gate (hr : system.Reachable σ) {t₀ : Goroutine} (ht₀ : t₀ ∈ σ.threads) {r : Nat}
    {o : SessionOptions} (hload : t₀.call.loadArgs = some (r, o)) (hprov : o.providers ≠ [])
    {s : Session} (hs : t₀.rest = .ret (.session (.ok s))) :
    (∃ st, σ.world.sessions[s.id]? = some st ∧ st.sess = s ∧
      st.gate = σ.threads.countP (fun t => PastGate s.id t) ∧ st.gate ≤ 1) ∧
    (∀ (i j : Nat) (t u : Goroutine), σ.threads[i]? = some t → σ.threads[j]? = some u →
      InNativeRun s t → InNativeRun s u → i = j) ∧
    ∀ t ∈ σ.threads, t.call.ctx.isSome →
      tokensReceived s.id t.trace ≤ tokensSent s.id t.trace ∧ tokensSent s.id t.trace ≤ 1 ∧
      (∀ ret, t.rest = .ret ret → tokensReceived s.id t.trace = tokensSent s.id t.trace) ∧
      ∀ tr tr' a, t.trace = tr ++ ⟨.sess s.id .gateRecv, a⟩ :: tr' →
        released tr = acquired tr := by
  obtain ⟨hmade, st, hst, hsess⟩ := Reachable.loaded hr ht₀ hload hs
  have hgated : s.gated := by
    obtain ⟨h, m, k, qs, n, l₀, -, -, -, hg⟩ := hmade
    simpa [hprov] using hg
  have hok := (Reachable.inv hr).sessions _ st hst
  refine ⟨⟨st, hst, hsess, by rw [← hok.gate, gate_count hr], hok.one⟩,
    fun i j t u ht hu hin hin' => ?_, fun t ht hrun => ?_⟩
  · refine holder_unique (f := Held.gate) (x := s.id) ?_ (Reachable.held_get ht)
      (Reachable.held_get hu) (hin.gate hr (List.mem_of_getElem? ht) hgated)
      (hin'.gate hr (List.mem_of_getElem? hu) hgated)
    rw [hok.gate]
    exact hok.one
  · have htokens := tokens_eq (Reachable.valid hr ht) s.id
    refine ⟨by omega, tokens_le (Reachable.valid hr ht) s.id, fun ret hret => ?_,
      fun tr tr' a htr => ?_⟩
    · have hnone : (protocol.after t.trace (Held.start t.call)).gate = none :=
        (Reachable.ends hr ht hret).idle.gate
      rw [hnone, if_neg nofun] at htokens
      omega
    · have hv := Reachable.valid hr ht
      rw [htr] at hv
      have hquiet : SessOp.Pre (protocol.after tr (Held.start t.call)) s.id .gateRecv := hv.pre.2.2
      rw [run_acquired hr ht hrun htr, hquiet.2.live, add_zero]

end

open Sample in
theorem provider_gate_sample : tokensReceived 0 runner.trace = tokensSent 0 runner.trace := by
  obtain ⟨hcall, ret, hret⟩ := runnerDone
  have hrun : runner.call.ctx.isSome := by
    rw [hcall]
    rfl
  have h := provider_gate (System.played_reachable (ran true)) loader_mem
    (r := 0) (o := options true) (by rw [loaderDone.call]; rfl) (by decide) loader_returned
  exact (h.2.2 runner runner_mem hrun).2.2.1 ret hret

end Onnxcraft
