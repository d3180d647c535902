import Onnxcraft.Protocol.Frame

/-!
# Steps on a callback

`inv_cb`: registering a callback, stopping it, waiting for it and its end keep the invariant. A
callback that has not been stopped and has not finished is waited for by exactly one run.
-/

namespace Onnxcraft

open Effect

section
variable [Platform] {w w' : World} {gs : List Held} {g g' : Held} {i : Nat}

omit [Platform] in
theorem keeps_callbacks {cbs : List CbSt}
    (h : ∀ (id : Nat) (cb : CbSt), w.callbacks[id]? = some cb → ∃ cb' : CbSt, cbs[id]? = some cb' ∧
      cb'.ctx = cb.ctx ∧ cb'.r = cb.r ∧ cb'.options = cb.options ∧
      (cb'.state = .registered → cb.state = .registered)) :
    Keeps w { w with callbacks := cbs } g where
  sessions _ st h := ⟨st, h, rfl, id, fun _ => rfl, fun _ => rfl⟩
  length := le_rfl
  runtimes _ st _ h := ⟨st, h, fun _ => rfl, fun _ => rfl⟩
  ctxs _ _ h := h
  callbacks := h
  options _ _ h := .inl h

omit [Platform] in
/-- A callback moves on. -/
theorem keeps_callback {id : Nat} {cb : CbSt} (c : CbSt) (hcb : w.callbacks[id]? = some cb)
    (hsame : c.ctx = cb.ctx ∧ c.r = cb.r ∧ c.options = cb.options ∧
      c.state ≠ .registered) :
    Keeps w { w with callbacks := w.callbacks.set id c } g := by
  obtain ⟨hctx, hr, ho, hst⟩ := hsame
  refine keeps_callbacks fun id₁ cb₁ hcb₁ => ?_
  by_cases hid : id = id₁
  · subst hid
    obtain rfl : cb = cb₁ := by rwa [hcb, Option.some.injEq] at hcb₁
    exact ⟨c, by simp [(List.getElem?_eq_some_iff.1 hcb).1], hctx, hr, ho,
      fun h => absurd h hst⟩
  · exact ⟨cb₁, by simpa [hid] using hcb₁, rfl, rfl, rfl, fun h => h⟩

/-- A step on the callbacks: only they, and who waits for or runs one, change. -/
theorem Inv.called {b : List CbSt} (hi : Inv w gs) (hg : gs[i]? = some g) (hwf : g'.Wf)
    (hk : Knows { w with callbacks := b } g')
    (hkeep : ∀ x, Keeps w { w with callbacks := b } x)
    (hrest : g'.sessionPart = g.sessionPart ∧ g'.runtimePart = g.runtimePart ∧
      g'.buffer = g.buffer ∧ g'.live = g.live)
    (hcb : ∀ (id : Nat) (cb : CbSt), b[id]? = some cb →
      CallbackOk { w with callbacks := b } (gs.set i g') id cb) :
    Inv { w with callbacks := b } (gs.set i g') := by
  obtain ⟨hs, hr, hb, hl⟩ := hrest
  refine ⟨fun x hx => ?_, fun x hx => ?_, fun s st hst => ?_, fun r st hst => ?_, hcb,
    fun o => ?_, hi.pool.frame hg hb ⟨rfl, rfl⟩⟩
  · rcases mem_set_cases hx with rfl | hx
    · exact hwf
    · exact hi.wf x hx
  · rcases mem_set_cases hx with rfl | hx
    · exact hk
    · exact (hi.knows x hx).keep (hkeep x)
  · exact (hi.sessions s st hst).frame hg (.of_eq hs) le_rfl fun _ _ _ hx => hx
  · exact (hi.runtimes r st hst).frame hg (.of_eq hr) rfl
  · exact (optionHolders_frame hg (fun _ => by rw [hl]) o).trans (hi.options o)

/-- Only the callback `id` changes, in the world and for the call. -/
theorem Inv.calledAt {id : Nat} {cb cb' : CbSt} (hi : Inv w gs) (hg : gs[i]? = some g)
    (hcb : w.callbacks[id]? = some cb) (hwf : g'.Wf)
    (hk : Knows { w with callbacks := w.callbacks.set id cb' } g')
    (hsame : cb'.ctx = cb.ctx ∧ cb'.r = cb.r ∧ cb'.options = cb.options ∧
      cb'.state ≠ .registered)
    (hrest : g'.sessionPart = g.sessionPart ∧ g'.runtimePart = g.runtimePart ∧
      g'.buffer = g.buffer ∧ g'.live = g.live)
    (hother : ∀ id₁, id₁ ≠ id → (g'.watch = some id₁ ↔ g.watch = some id₁) ∧
      (g'.fire = some id₁ ↔ g.fire = some id₁))
    (hok : CallbackOk { w with callbacks := w.callbacks.set id cb' } (gs.set i g') id cb') :
    Inv { w with callbacks := w.callbacks.set id cb' } (gs.set i g') := by
  refine hi.called hg hwf hk (fun x => keeps_callback cb' hcb hsame) hrest fun id₁ cb₁ hcb₁ => ?_
  by_cases hid : id = id₁
  · subst hid
    obtain rfl : cb' = cb₁ := by
      simpa [(List.getElem?_eq_some_iff.1 hcb).1] using hcb₁
    exact hok
  · have hcb₁ : w.callbacks[id₁]? = some cb₁ := by simpa [hid] using hcb₁
    obtain ⟨hw, hf⟩ := hother id₁ (Ne.symm hid)
    exact (hi.callbacks id₁ cb₁ hcb₁).frame hg hw hf fun _ h => h

/-- Nobody waits for or runs a callback that has not been registered. -/
theorem Inv.unregistered {id : Nat} (hi : Inv w gs) (hid : w.callbacks[id]? = none) :
    holders Held.watch gs id = 0 ∧ holders Held.fire gs id = 0 := by
  constructor <;> refine holders_eq_zero fun x hx h => ?_
  · obtain ⟨cb, hcb, -⟩ := (hi.knows x hx).watch id h
    rw [hid] at hcb
    exact nomatch hcb
  · obtain ⟨r, o, hcall⟩ := (hi.wf x hx).fire id h
    obtain ⟨cb, hcb, -⟩ := (hi.knows x hx).callback r o id hcall
    rw [hid] at hcb
    exact nomatch hcb

/-- Registering a callback. -/
theorem inv_afterFunc {c : Ctx} {r : OcRuntime} {options : Handle} (hi : Inv w gs)
    (hg : gs[i]? = some g) (hp : (Op.cb (.afterFunc c r options)).Pre g) :
    Inv { w with callbacks := w.callbacks ++ [⟨c, r, options, .registered⟩] }
      (gs.set i (CbOp.upd g (.afterFunc c r options) w.callbacks.length)) := by
  have hmem := List.mem_of_getElem? hg
  have hwf := (hi.wf g hmem).cb (a := w.callbacks.length) hp
  obtain ⟨-, hctx, -, hwatch, -, hseen, hlive⟩ := hp
  have hnew : (w.callbacks ++ [(⟨c, r, options, .registered⟩ : CbSt)])[w.callbacks.length]? =
      some ⟨c, r, options, .registered⟩ := by simp
  have hkeep : ∀ x, Keeps w
      { w with callbacks := w.callbacks ++ [⟨c, r, options, .registered⟩] } x := fun x =>
    keeps_callbacks fun id cb hcb => ⟨cb, by
      rw [List.getElem?_append_left (List.getElem?_eq_some_iff.1 hcb).1, hcb], rfl, rfl, rfl,
      fun h => h⟩
  have hk := (hi.knows g hmem).keep (hkeep g)
  refine hi.called hg hwf { hk with watch := ?_ } hkeep ⟨rfl, rfl, rfl, rfl⟩ fun id cb hcb => ?_
  · rintro id ⟨⟩
    exact ⟨_, hnew, hctx, hseen, hlive, by simp [CbOp.upd]⟩
  · rcases Nat.lt_trichotomy id w.callbacks.length with hid | rfl | hid
    · rw [List.getElem?_append_left hid] at hcb
      refine (hi.callbacks id cb hcb).frame hg ?_ Iff.rfl fun _ h => h
      rw [hwatch]
      exact iff_of_false (by simpa [CbOp.upd] using Nat.ne_of_gt hid) (by simp)
    · obtain rfl : _ = cb := by simpa using hcb
      obtain ⟨h1, h2⟩ := hi.unregistered (List.getElem?_eq_none le_rfl)
      refine ⟨?_, ?_, by simp⟩
      · have htake : holders Held.watch (gs.set i (CbOp.upd g (.afterFunc c r options)
            w.callbacks.length)) w.callbacks.length = holders Held.watch gs w.callbacks.length + 1 :=
          holders_take hg (by simp [hwatch]) rfl
        exact htake.trans (by rw [h1])
      · exact (holders_set_iff (b := CbOp.upd g (.afterFunc c r options) w.callbacks.length) hg
          Iff.rfl).trans h2
    · rw [List.getElem?_eq_none (by simpa using Nat.succ_le_of_lt hid)] at hcb
      cases hcb

/-- `stop` has prevented the callback from starting. -/
theorem inv_stopped {id : Nat} {cb : CbSt} (hi : Inv w gs) (hg : gs[i]? = some g)
    (hp : (Op.cb (.stop id)).Pre g) (hcb : w.callbacks[id]? = some cb)
    (hst : cb.state = .registered) :
    Inv { w with callbacks := w.callbacks.set id { cb with state := .stopped } }
      (gs.set i (CbOp.upd g (.stop id) true)) := by
  have hmem := List.mem_of_getElem? hg
  have hok := hi.callbacks id cb hcb
  have hwf := (hi.wf g hmem).cb (a := true) hp
  have hw : g.watch = some id := hp.2.1
  have hk := (hi.knows g hmem).keep (keeps_callback { cb with state := .stopped } hcb
    ⟨rfl, rfl, rfl, nofun⟩)
  refine hi.calledAt hg hcb hwf { hk with watch := nofun } ⟨rfl, rfl, rfl, nofun⟩
    ⟨rfl, rfl, rfl, rfl⟩ (fun id₁ hid => ⟨?_, Iff.rfl⟩) ⟨?_, ?_, by simp⟩
  · rw [hw]
    exact iff_of_false nofun (by simpa using Ne.symm hid)
  · have h1 := hok.watch
    have h2 : holders Held.watch (gs.set i (CbOp.upd g (.stop id) true)) id + 1 =
        holders Held.watch gs id := holders_drop hg hw nofun
    rw [hst] at h1
    show holders Held.watch _ _ = 0
    omega
  · have h1 := hok.fire
    rw [hst] at h1
    exact (holders_set_iff (b := CbOp.upd g (.stop id) true) hg Iff.rfl).trans h1

/-- `stop` came too late. -/
theorem inv_late {id : Nat} {cb : CbSt} (hi : Inv w gs) (hg : gs[i]? = some g)
    (hp : (Op.cb (.stop id)).Pre g) (hcb : w.callbacks[id]? = some cb)
    (hst : cb.state ≠ .registered) :
    Inv w (gs.set i (CbOp.upd g (.stop id) false)) := by
  have hmem := List.mem_of_getElem? hg
  have hk := hi.knows g hmem
  have hwf := (hi.wf g hmem).cb (a := false) hp
  have hw : g.watch = some id := hp.2.1
  refine hi.called (b := w.callbacks) hg hwf { hk with watch := fun id₁ hid => ?_ }
    (fun x => .refl w x) ⟨rfl, rfl, rfl, rfl⟩ fun id₁ cb₁ hcb₁ =>
      (hi.callbacks id₁ cb₁ hcb₁).frame hg Iff.rfl Iff.rfl fun _ h => h
  have hid : g.watch = some id₁ := hid
  obtain ⟨cb₁, hcb₁, hctx, hseen, hlive, -⟩ := hk.watch id₁ hid
  rw [hw, Option.some.injEq] at hid
  subst hid
  obtain rfl : cb = cb₁ := by rwa [hcb, Option.some.injEq] at hcb₁
  exact ⟨cb, hcb, hctx, hseen, hlive, fun _ => hst⟩

/-- A run has waited for its callback. -/
theorem inv_recvDone {id : Nat} {cb : CbSt} (hi : Inv w gs) (hg : gs[i]? = some g)
    (hp : (Op.cb (.recvDone id)).Pre g) (hcb : w.callbacks[id]? = some cb)
    (hst : cb.state = .finished) :
    Inv w (gs.set i (CbOp.upd g (.recvDone id) ())) := by
  have hmem := List.mem_of_getElem? hg
  have hk := hi.knows g hmem
  have hwf := (hi.wf g hmem).cb (a := ()) hp
  have hw : g.watch = some id := hp.2.1
  refine hi.called (b := w.callbacks) hg hwf { hk with watch := nofun }
    (fun x => .refl w x) ⟨rfl, rfl, rfl, rfl⟩ fun id₁ cb₁ hcb₁ => ?_
  have hok := hi.callbacks id₁ cb₁ hcb₁
  by_cases hid : id = id₁
  · subst hid
    obtain rfl : cb = cb₁ := by rwa [hcb, Option.some.injEq] at hcb₁
    refine ⟨?_, (holders_set_iff (b := CbOp.upd g (.recvDone id) ()) hg Iff.rfl).trans hok.fire,
      hok.done⟩
    have h1 := hok.watch
    have h2 : holders Held.watch (gs.set i (CbOp.upd g (.recvDone id) ())) id + 1 =
        holders Held.watch gs id := holders_drop hg hw nofun
    rw [hst] at h1 ⊢
    show holders Held.watch _ _ ≤ 1
    omega
  · refine hok.frame hg ?_ Iff.rfl fun _ h => h
    rw [hw]
    exact iff_of_false nofun (by simpa using hid)

/-- The callback closes its `done` channel. -/
theorem inv_closeDone {id : Nat} {cb : CbSt} (hi : Inv w gs) (hg : gs[i]? = some g)
    (hp : (Op.cb (.closeDone id)).Pre g) (hcb : w.callbacks[id]? = some cb)
    (hst : cb.state = .running) :
    Inv { w with callbacks := w.callbacks.set id { cb with state := .finished } }
      (gs.set i (CbOp.upd g (.closeDone id) ())) := by
  have hmem := List.mem_of_getElem? hg
  have hok := hi.callbacks id cb hcb
  have hwf := (hi.wf g hmem).cb (a := ()) hp
  have hf : g.fire = some id := hp.2.1
  have hk := (hi.knows g hmem).keep (keeps_callback { cb with state := .finished } hcb
    ⟨rfl, rfl, rfl, nofun⟩)
  refine hi.calledAt hg hcb hwf { hk with } ⟨rfl, rfl, rfl, nofun⟩ ⟨rfl, rfl, rfl, rfl⟩
    (fun id₁ hid => ⟨Iff.rfl, ?_⟩) ⟨?_, ?_, fun _ => hok.done (.inl hst)⟩
  · rw [hf]
    exact iff_of_false nofun (by simpa using Ne.symm hid)
  · have h1 := hok.watch
    rw [hst] at h1
    show holders Held.watch _ _ ≤ 1
    exact (holders_set_iff (b := CbOp.upd g (.closeDone id) ()) hg Iff.rfl).trans_le h1.le
  · have h1 := hok.fire
    have h2 : holders Held.fire (gs.set i (CbOp.upd g (.closeDone id) ())) id + 1 =
        holders Held.fire gs id := holders_drop hg hf nofun
    rw [hst, if_pos rfl] at h1
    show holders Held.fire _ _ = 0
    omega

/-- **A step on a callback.** -/
theorem inv_cb {o : CbOp} {a : o.Resp} (hi : Inv w gs) (hg : gs[i]? = some g)
    (hp : (Op.cb o).Pre g) (ha : w.callback o a = some w') :
    Inv w' (gs.set i (o.upd g a)) := by
  cases o with
  | afterFunc c r options =>
    simp only [World.callback, Option.ite_none_right_eq_some, Option.some.injEq] at ha
    obtain ⟨rfl, rfl⟩ := ha
    exact inv_afterFunc hi hg hp
  | stop id =>
    simp only [World.callback, Option.bind_eq_bind, Option.bind_eq_some_iff] at ha
    obtain ⟨cb, hcb, ha⟩ := ha
    split at ha
    · next hst =>
      obtain ⟨rfl, rfl⟩ : a = true ∧ _ = w' := by simpa using ha
      exact inv_stopped hi hg hp hcb hst
    · next hst =>
      obtain ⟨rfl, rfl⟩ : a = false ∧ w = w' := by simpa using ha
      exact inv_late hi hg hp hcb hst
  | recvDone id =>
    simp only [World.callback, Option.bind_eq_bind, Option.bind_eq_some_iff,
      Option.ite_none_right_eq_some, Option.some.injEq] at ha
    obtain ⟨cb, hcb, hst, rfl⟩ := ha
    exact inv_recvDone hi hg hp hcb hst
  | closeDone id =>
    simp only [World.callback, Option.bind_eq_bind, Option.bind_eq_some_iff,
      Option.ite_none_right_eq_some, Option.some.injEq] at ha
    obtain ⟨cb, hcb, hst, rfl⟩ := ha
    exact inv_closeDone hi hg hp hcb hst

end

end Onnxcraft
