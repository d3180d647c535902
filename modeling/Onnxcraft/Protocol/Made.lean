import Onnxcraft.Protocol.LoadLog
import Onnxcraft.Protocol.Steps

/-!
# The sessions that loads have made

A load that has returned a session has the log of one (`Reachable.load_log`), and the session that
it has made keeps its fixed fields and has no native session but the loaded one
(`Reachable.made`).
-/

namespace Onnxcraft

open Effect

/-- The runtime and the options of a load. -/
def Call.loadArgs : Call → Option (Nat × SessionOptions)
  | .load r _ o | .loadBytes r _ o => some (r, o.getD {})
  | _ => none

section
variable [Platform] {σ : Global} {t : Goroutine}

theorem Call.load_log {c : Call} {r : Nat} {o : SessionOptions} (hc : c.loadArgs = some (r, o)) :
    wp loads c.prog (fun ret l => ∃ res, ret = .session res ∧ Runtime.LoadLog r o res l) [] := by
  cases c with
  | load r' path options =>
    obtain ⟨rfl, rfl⟩ := Prod.mk.inj (Option.some.inj hc)
    refine wp_map.2 ?_
    unfold Runtime.loadFile
    split
    · exact ⟨_, rfl, .nil⟩
    · exact wp_mono (fun res l h => ⟨res, rfl, h⟩) (Runtime.load_log r' path [] options)
  | loadBytes r' model options =>
    obtain ⟨rfl, rfl⟩ := Prod.mk.inj (Option.some.inj hc)
    refine wp_map.2 ?_
    unfold Runtime.loadBytes
    split
    · exact ⟨_, rfl, .nil⟩
    · exact wp_mono (fun res l h => ⟨res, rfl, h⟩) (Runtime.load_log r' [] model options)
  | _ => exact nomatch hc

/-- The log of a load that has returned. -/
theorem Reachable.load_log (hr : system.Reachable σ) (ht : t ∈ σ.threads) {r : Nat}
    {o : SessionOptions} (hc : t.call.loadArgs = some (r, o)) {ret : Ret} (hret : t.rest = .ret ret) :
    ∃ res, ret = .session res ∧ Runtime.LoadLog r o res (marked Op.Logged t.trace) := by
  have := marks_runs (hr.runs t ht) (Call.load_log hc)
  rwa [hret] at this

/-- **The session that an event has made.** -/
theorem Reachable.made (hr : system.Reachable σ) (ht : t ∈ σ.threads) {r id : Nat} {gated : Bool}
    {n : OcSession} {ins outs : List TensorInfo}
    (hev : ⟨.newSession r gated n ins outs, id⟩ ∈ t.trace) :
    ∃ st, σ.world.sessions[id]? = some st ∧ st.sess = ⟨id, r, gated, ins, outs⟩ ∧
      ∀ n', st.native = some n' → n' = n := by
  induction hr generalizing t with
  | init => exact nomatch ht
  | @step σ σ' l _ hs ih =>
    cases hs with
    | @act i u e k a w' hu hk ha =>
      have hold : ∀ v ∈ σ.threads, ⟨.newSession r gated n ins outs, id⟩ ∈ v.trace →
          ∃ st, w'.sessions[id]? = some st ∧ st.sess = ⟨id, r, gated, ins, outs⟩ ∧
            ∀ n', st.native = some n' → n' = n := by
        intro v hv hev
        obtain ⟨st, hst, hsess, hnat⟩ := ih hv hev
        obtain ⟨st', hst', hafter⟩ := World.act_session ha hst
        obtain ⟨hsess', hnat'⟩ := hafter.fixed
        refine ⟨st', hst', hsess'.trans hsess, fun n' hn' => ?_⟩
        rcases hnat' with h | h <;> rw [h] at hn'
        · exact hnat n' hn'
        · exact nomatch hn'
      rcases mem_set_cases ht with rfl | ht
      · rw [Thread.next_trace] at hev
        rcases List.mem_append.1 hev with hev | hev
        · exact hold u (List.mem_of_getElem? hu) hev
        · obtain ⟨rfl, h⟩ := Sigma.mk.inj (List.mem_singleton.1 hev)
          obtain rfl := eq_of_heq h
          obtain ⟨rfl, rfl⟩ := World.newSession_rest ha
          exact ⟨_, List.getElem?_concat_length, rfl, fun n' hn' => (Option.some.inj hn').symm⟩
      · exact hold t ht hev
    | @start c w' hstart =>
      obtain ⟨cbs, rfl⟩ := World.start_rest hstart
      rcases List.mem_append.1 ht with ht | ht
      · exact ih ht hev
      · rw [List.mem_singleton.1 ht] at hev
        exact nomatch hev
    | @move v w' hmove =>
      obtain ⟨ctxs, pool, rfl⟩ := World.move_rest hmove
      exact ih ht hev

/-- What a load that has returned the session `s` has made. -/
theorem Reachable.loaded (hr : system.Reachable σ) (ht : t ∈ σ.threads) {r : Nat}
    {o : SessionOptions} (hc : t.call.loadArgs = some (r, o)) {s : Session}
    (hret : t.rest = .ret (.session (.ok s))) :
    Runtime.Made r o s (marked Op.Logged t.trace) ∧
      ∃ st, σ.world.sessions[s.id]? = some st ∧ st.sess = s := by
  obtain ⟨res, hres, hlog⟩ := Reachable.load_log hr ht hc hret
  obtain rfl : .ok s = res := Ret.session.inj hres
  refine ⟨hlog, ?_⟩
  obtain ⟨h, m, k, qs, n, l₀, -, hl, rfl, -⟩ := hlog
  have hev : (⟨.newSession s.runtime s.gated n s.inputs s.outputs, s.id⟩ : Event Op Op.Resp) ∈ t.trace :=
    (mem_marked (A := Op.Logged)).1 (by rw [hl]; simp) |>.1
  obtain ⟨st, hst, hsess, -⟩ := Reachable.made hr ht hev
  exact ⟨st, hst, hsess⟩

end

end Onnxcraft
