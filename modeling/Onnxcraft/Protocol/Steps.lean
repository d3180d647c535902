import Onnxcraft.Protocol.Progress

/-!
# What a step changes

A step of one call, as the other calls see it: the contexts stay, a session or a runtime is changed
by the operations on it alone, and a session's fixed fields never.
-/

namespace Onnxcraft

open Effect

section
variable [Platform] {w w' : World}

namespace World

/-- What an operation does to the session `s`. -/
def SessionAfter (w : World) (s : Nat) (st st' : SessionSt) : (e : Op) → e.Resp → Prop
  | .sess s' o, a => if s' = s then st.act (fun c => (w.err c).isSome) o a = some st' else st' = st
  | .rt _ (.decRefs (some s')), _ => st' = if s' = s then { st with released := true } else st
  | _, _ => st' = st

/-- What an operation does to the runtime `r`. -/
def RuntimeAfter (r : Nat) (st st' : RuntimeSt) : (e : Op) → e.Resp → Prop
  | .rt r' o, a => if r' = r then st.act o a = some st' else st' = st
  | _, _ => st' = st

omit [Platform] in
theorem callback_rest {o : CbOp} {a : o.Resp} (h : w.callback o a = some w') :
    ∃ cbs, w' = { w with callbacks := cbs } := by
  cases o with
  | afterFunc c r options =>
    simp only [callback, Option.ite_none_right_eq_some, Option.some.injEq] at h
    exact ⟨_, h.2.symm⟩
  | stop id =>
    simp only [callback, Option.bind_eq_bind, Option.bind_eq_some_iff] at h
    obtain ⟨cb, -, h⟩ := h
    split at h <;> split at h <;> cases h <;> exact ⟨_, rfl⟩
  | _ =>
    simp only [callback, Option.bind_eq_bind, Option.bind_eq_some_iff,
      Option.ite_none_right_eq_some, Option.some.injEq] at h
    obtain ⟨cb, -, -, rfl⟩ := h
    exact ⟨_, rfl⟩

omit [Platform] in
theorem descriptors_rest {o : PoolOp} {a : o.Resp} (h : w.descriptors o a = some w') :
    ∃ ps n, w' = { w with pool := ps, buffers := n } := by
  cases o with
  | get =>
    simp only [descriptors] at h
    split at h
    · cases h
      exact ⟨_, _, rfl⟩
    · split at h <;> cases h
      exact ⟨_, _, rfl⟩
  | put b =>
    cases h
    exact ⟨_, _, rfl⟩

theorem native_rest {o : NativeOp} {a : o.Resp} (h : w.native o a = some w') :
    ∃ options, w' = { w with options } := by
  simp only [native, Option.ite_none_right_eq_some] at h
  obtain ⟨-, h⟩ := h
  split at h
  · simp only [Option.ite_none_right_eq_some, Option.some.injEq] at h
    exact ⟨_, h.2.symm⟩
  · cases h
    exact ⟨_, rfl⟩
  · cases h
    exact ⟨_, rfl⟩
  · split at h <;> cases h
    exact ⟨_, rfl⟩
  · cases h
    exact ⟨_, rfl⟩

/-- An operation that is not about sessions and runtimes leaves both, and the contexts. -/
theorem act_rest {e : Op} {a : e.Resp} (h : w.act e a = some w') : match e with
    | .sess _ _ | .rt _ _ | .newRuntime _ | .newSession _ _ _ _ _ => True
    | _ => w'.ctxs = w.ctxs ∧ w'.sessions = w.sessions ∧ w'.runtimes = w.runtimes := by
  cases e with
  | cb o =>
    obtain ⟨_, rfl⟩ := callback_rest h
    exact ⟨rfl, rfl, rfl⟩
  | pool o =>
    obtain ⟨_, _, rfl⟩ := descriptors_rest h
    exact ⟨rfl, rfl, rfl⟩
  | nat o =>
    obtain ⟨_, rfl⟩ := native_rest h
    exact ⟨rfl, rfl, rfl⟩
  | ctxErr c =>
    simp only [act, Option.ite_none_right_eq_some, Option.some.injEq] at h
    obtain ⟨-, rfl⟩ := h
    exact ⟨rfl, rfl, rfl⟩
  | mem o =>
    cases o with
    | load p n =>
      simp only [act, Option.ite_none_right_eq_some, Option.some.injEq] at h
      obtain ⟨-, rfl⟩ := h
      exact ⟨rfl, rfl, rfl⟩
    | _ =>
      cases h
      exact ⟨rfl, rfl, rfl⟩
  | filepathAbs | enter | leave =>
    cases h
    exact ⟨rfl, rfl, rfl⟩
  | fault => exact a.elim
  | _ => trivial

omit [Platform] in
theorem newRuntime_rest {n : OcRuntime} {a : Nat} [Platform]
    (h : w.act (.newRuntime n) a = some w') :
    w' = { w with runtimes := w.runtimes ++ [⟨false, some n, 1, false⟩] } := by
  simp only [act, Option.ite_none_right_eq_some, Option.some.injEq] at h
  exact h.2.symm

theorem newSession_rest {r : Nat} {gated : Bool} {n : OcSession} {ins outs : List TensorInfo}
    {a : Nat} (h : w.act (.newSession r gated n ins outs) a = some w') : a = w.sessions.length ∧
    w' = { w with
      sessions := w.sessions ++ [⟨⟨a, r, gated, ins, outs⟩, 0, .idle, 0, some n, false⟩] } := by
  simp only [act, Option.ite_none_right_eq_some, Option.some.injEq] at h
  exact ⟨h.1, h.2.symm⟩

/-- Only the environment finishes contexts. -/
theorem act_ctxs {e : Op} {a : e.Resp} (h : w.act e a = some w') : w'.ctxs = w.ctxs := by
  cases e with
  | sess s o =>
    obtain ⟨st, st', -, -, rfl⟩ := sess_cases h
    rfl
  | rt r o =>
    obtain ⟨st, st', -, -, rfl⟩ := rt_cases h
    exact (noteRelease_rest _ o).2.1
  | newRuntime => rw [newRuntime_rest h]
  | newSession => rw [(newSession_rest h).2]
  | _ => exact (act_rest h).1

theorem act_err {e : Op} {a : e.Resp} (h : w.act e a = some w') (c : Ctx) : w'.err c = w.err c :=
  err_congr (act_ctxs h) c

/-- A session under an operation. -/
theorem act_session {e : Op} {a : e.Resp} (h : w.act e a = some w') {s : Nat} {st : SessionSt}
    (hs : w.sessions[s]? = some st) :
    ∃ st', w'.sessions[s]? = some st' ∧ w.SessionAfter s st st' e a := by
  have hlt := (List.getElem?_eq_some_iff.1 hs).1
  cases e with
  | sess s' o =>
    obtain ⟨st₁, st₁', hs₁, hst, rfl⟩ := sess_cases h
    by_cases hss : s' = s
    · subst hss
      obtain rfl : st₁ = st := by simpa [hs₁] using hs
      exact ⟨st₁', by simp [hlt], by rw [SessionAfter, if_pos rfl]; exact hst⟩
    · exact ⟨st, by simpa [hss] using hs, by rw [SessionAfter, if_neg hss]⟩
  | rt r o =>
    obtain ⟨st₁, st₁', -, -, rfl⟩ := rt_cases h
    rcases o with _ | _ | _ | _ | _ | _ | _ | (_ | s')
    case decRefs.some =>
      simp only [noteRelease, release]
      split
      · next st₂ hst₂ =>
        by_cases hss : s' = s
        · subst hss
          obtain rfl : st₂ = st := by simpa [hst₂] using hs
          exact ⟨{ st₂ with released := true }, by simp [hlt], by simp [SessionAfter]⟩
        · exact ⟨st, by simpa [hss] using hs, by simp [SessionAfter, hss]⟩
      · next hst₂ =>
        refine ⟨st, hs, ?_⟩
        have hss : s' ≠ s := by
          rintro rfl
          rw [hs] at hst₂
          cases hst₂
        simp [SessionAfter, hss]
    all_goals exact ⟨st, hs, rfl⟩
  | newRuntime =>
    rw [newRuntime_rest h]
    exact ⟨st, hs, rfl⟩
  | newSession =>
    rw [(newSession_rest h).2]
    exact ⟨st, by rw [List.getElem?_append_left hlt, hs], rfl⟩
  | _ =>
    rw [(act_rest h).2.1]
    exact ⟨st, hs, rfl⟩

omit [Platform] in
/-- A session's fixed fields stay, and its native session is only taken away. -/
theorem SessionAfter.fixed {e : Op} {a : e.Resp} {s : Nat} {st st' : SessionSt}
    (h : w.SessionAfter s st st' e a) :
    st'.sess = st.sess ∧ (st'.native = st.native ∨ st'.native = none) := by
  cases e with
  | sess s' o =>
    rw [SessionAfter] at h
    split at h
    · have hcases := SessionSt.act_cases h
      cases o with
      | clearNative =>
        rw [hcases]
        exact ⟨rfl, .inr rfl⟩
      | gateSelect c =>
        rcases hcases with ⟨-, -, rfl⟩ | ⟨-, -, rfl⟩ <;> exact ⟨rfl, .inl rfl⟩
      | _ =>
        rw [hcases.2]
        exact ⟨rfl, .inl rfl⟩
    · rw [h]
      exact ⟨rfl, .inl rfl⟩
  | rt r o =>
    cases o with
    | decRefs owner =>
      cases owner with
      | none =>
        obtain rfl : st' = st := h
        exact ⟨rfl, .inl rfl⟩
      | some s' =>
        simp only [SessionAfter] at h
        split at h <;> rw [h] <;> exact ⟨rfl, .inl rfl⟩
    | _ =>
      obtain rfl : st' = st := h
      exact ⟨rfl, .inl rfl⟩
  | _ =>
    obtain rfl : st' = st := h
    exact ⟨rfl, .inl rfl⟩

/-- A runtime under an operation. -/
theorem act_runtime {e : Op} {a : e.Resp} (h : w.act e a = some w') {r : Nat} {st : RuntimeSt}
    (hr : w.runtimes[r]? = some st) :
    ∃ st', w'.runtimes[r]? = some st' ∧ RuntimeAfter r st st' e a := by
  have hlt := (List.getElem?_eq_some_iff.1 hr).1
  cases e with
  | sess s o =>
    obtain ⟨st₁, st₁', -, -, rfl⟩ := sess_cases h
    exact ⟨st, hr, rfl⟩
  | rt r' o =>
    obtain ⟨st₁, st₁', hr₁, hst, rfl⟩ := rt_cases h
    rw [(noteRelease_rest _ o).1]
    by_cases hrr : r' = r
    · subst hrr
      obtain rfl : st₁ = st := by simpa [hr₁] using hr
      exact ⟨st₁', by simp [hlt], by rw [RuntimeAfter, if_pos rfl]; exact hst⟩
    · exact ⟨st, by simpa [hrr] using hr, by rw [RuntimeAfter, if_neg hrr]⟩
  | newRuntime =>
    rw [newRuntime_rest h]
    exact ⟨st, by rw [List.getElem?_append_left hlt, hr], rfl⟩
  | newSession =>
    rw [(newSession_rest h).2]
    exact ⟨st, hr, rfl⟩
  | _ =>
    rw [(act_rest h).2.2]
    exact ⟨st, hr, rfl⟩

omit [Platform] in
/-- The start of a call changes callbacks at most. -/
theorem start_rest {c : Call} (h : c.start w = some w') : ∃ cbs, w' = { w with callbacks := cbs } := by
  cases c with
  | openLibrary path =>
    cases h
    exact ⟨_, rfl⟩
  | callback r options id =>
    simp only [Call.start, Option.bind_eq_bind, Option.bind_eq_some_iff,
      Option.ite_none_right_eq_some, Option.some.injEq] at h
    obtain ⟨cb, -, -, rfl⟩ := h
    exact ⟨_, rfl⟩
  | _ =>
    simp only [Call.start, Option.ite_none_right_eq_some, Option.some.injEq] at h
    obtain ⟨-, rfl⟩ := h
    exact ⟨_, rfl⟩

omit [Platform] in
/-- The environment changes contexts and the pool only. -/
theorem move_rest {v : Move} (h : v.apply w = some w') :
    ∃ ctxs pool, w' = { w with ctxs, pool } := by
  cases v with
  | done ctx e =>
    simp only [Move.apply, Option.ite_none_right_eq_some, Option.some.injEq] at h
    exact ⟨_, _, h.2.symm⟩
  | drop n =>
    cases h
    exact ⟨_, _, rfl⟩

end World

end

end Onnxcraft
