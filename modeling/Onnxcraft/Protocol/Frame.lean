import Onnxcraft.Protocol.Invariant

/-!
# Frames

What a step does not touch is kept: the counts of the other sessions, runtimes and callbacks, and
what a call knows of the world.
-/

namespace Onnxcraft

open Effect

section
variable [Platform] {w w' : World} {gs : List Held} {g g' : Held} {i : Nat}

/-! ## Frames -/

namespace Held

/-- What sessions, runtimes and callbacks count. -/
def sessionPart (g : Held) := (g.call, g.read, g.pend, g.excl, g.gate, g.freed, g.gone)

def runtimePart (g : Held) := (g.call, g.mu, g.raised, g.owes, g.zero, g.shut)

def callbackPart (g : Held) := (g.watch, g.fire)

end Held

/-- What a step counts for `s` does not change. -/
structure SameSession (s : Nat) (g g' : Held) : Prop where
  read : g'.read = some s ↔ g.read = some s
  pend : g'.pend = some s ↔ g.pend = some s
  excl : g'.excl = some s ↔ g.excl = some s
  gate : g'.gate = some s ↔ g.gate = some s
  freedOf : g'.freedOf = some s ↔ g.freedOf = some s
  freeing : g'.freeing = some s ↔ g.freeing = some s

omit [Platform] in
theorem SameSession.of_eq {s : Nat} (h : g'.sessionPart = g.sessionPart) : SameSession s g g' := by
  simp only [Held.sessionPart, Prod.mk.injEq] at h
  obtain ⟨hc, hr, hp, he, hg, hf, hn⟩ := h
  constructor <;> simp only [Held.freeing, Held.freedOf, hc, hr, hp, he, hg, hf, hn]

theorem SessionOk.frame {s : Nat} {st : SessionSt} (h : SessionOk w gs s st) (hg : gs[i]? = some g)
    (hv : SameSession s g g') (hlen : w.runtimes.length ≤ w'.runtimes.length)
    (hr : ∀ n x, st.native = some n → w.nativeOf st.sess.runtime = some x →
      w'.nativeOf st.sess.runtime = some x) : SessionOk w' (gs.set i g') s st where
  id := h.id
  runtime := h.runtime.trans_le hlen
  readers := (holders_set_iff hg hv.read).trans h.readers
  pending := (holders_set_iff hg hv.pend).trans h.pending
  held := (holders_set_iff hg hv.excl).trans h.held
  alone := h.alone
  gate := (holders_set_iff hg hv.gate).trans h.gate
  one := h.one
  native n hn := by
    obtain ⟨h1, h2, h3⟩ := h.native n hn
    exact ⟨h1, h2, hr n _ hn h3⟩
  freed := by
    rw [holders_set_iff hg hv.freedOf, holders_set_iff hg hv.freeing]
    exact h.freed
  once := (holders_set_iff hg hv.freedOf).trans_le h.once

/-- What a step counts for `r` does not change. -/
structure SameRuntime (r : Nat) (g g' : Held) : Prop where
  mu : g'.mu = some r ↔ g.mu = some r
  raised : g'.raised = some r ↔ g.raised = some r
  owes : g'.owes = some r ↔ g.owes = some r
  zero : g'.zero = some r ↔ g.zero = some r
  shutOf : g'.shutOf = some r ↔ g.shutOf = some r
  lastOf : g'.lastOf = some r ↔ g.lastOf = some r

omit [Platform] in
theorem SameRuntime.of_eq {r : Nat} (h : g'.runtimePart = g.runtimePart) : SameRuntime r g g' := by
  simp only [Held.runtimePart, Prod.mk.injEq] at h
  obtain ⟨hc, hm, hr, ho, hz, hs⟩ := h
  constructor <;> simp only [Held.shutOf, Held.lastOf, hc, hm, hr, ho, hz, hs]

omit [Platform] in
theorem RuntimeOk.frame {r : Nat} {st : RuntimeSt} (h : RuntimeOk w gs r st)
    (hg : gs[i]? = some g) (hv : SameRuntime r g g')
    (hs : holders SessionSt.counts w'.sessions r = holders SessionSt.counts w.sessions r) :
    RuntimeOk w' (gs.set i g') r st where
  locked := (holders_set_iff hg hv.mu).trans h.locked
  refs := by
    rw [hs, holders_set_iff hg hv.raised, holders_set_iff hg hv.owes]
    exact h.refs
  native := by
    rw [holders_set_iff hg hv.zero]
    exact h.native
  zero := by
    rw [holders_set_iff hg hv.zero]
    exact h.zero
  shut := by
    rw [holders_set_iff hg hv.shutOf, holders_set_iff hg hv.lastOf]
    exact h.shut

omit [Platform] in
theorem CallbackOk.frame {id : Nat} {cb : CbSt} (h : CallbackOk w gs id cb)
    (hg : gs[i]? = some g) (hw : g'.watch = some id ↔ g.watch = some id)
    (hf : g'.fire = some id ↔ g.fire = some id)
    (hctx : ∀ c, (w.err c).isSome → (w'.err c).isSome) : CallbackOk w' (gs.set i g') id cb where
  watch := by
    rw [holders_set_iff hg hw]
    exact h.watch
  fire := by
    rw [holders_set_iff hg hf]
    exact h.fire
  done hs := hctx _ (h.done hs)

omit [Platform] in
theorem PoolOk.frame (h : PoolOk w gs) (hg : gs[i]? = some g) (hb : g'.buffer = g.buffer)
    (hw : w'.pool = w.pool ∧ w'.buffers = w.buffers) : PoolOk w' (gs.set i g') where
  clean := by
    rw [hw.1]
    exact h.clean
  one x := by
    rw [hw.1, holders_set_iff hg (by rw [hb])]
    exact h.one x
  made x := by
    rw [hw.1, hw.2, holders_set_iff hg (by rw [hb])]
    exact h.made x

omit [Platform] in
theorem optionHolders_frame (hg : gs[i]? = some g) (h : ∀ o, g'.live.count (.runOptions o) =
    g.live.count (.runOptions o)) (o : Handle) :
    optionHolders (gs.set i g') o = optionHolders gs o :=
  total_set_eq hg (h o)

/-- What `g` relies on in `w` is kept in `w'`. -/
structure Keeps (w w' : World) (g : Held) : Prop where
  sessions : ∀ s st, w.sessions[s]? = some st → ∃ st', w'.sessions[s]? = some st' ∧
    st'.sess = st.sess ∧ (st.native = none → st'.native = none) ∧
    (g.read = some s ∨ g.excl = some s → st'.native = st.native) ∧
    (g.cleared = some s → st'.released = st.released)
  length : w.runtimes.length ≤ w'.runtimes.length
  runtimes : ∀ r st, g.mu = some r → w.runtimes[r]? = some st → ∃ st',
    w'.runtimes[r]? = some st' ∧ (g.closed.isSome → st'.closed = st.closed) ∧
    (g.rt.isSome → st'.native = st.native)
  ctxs : ∀ c e, w.err c = some e → w'.err c = some e
  callbacks : ∀ (id : Nat) (cb : CbSt), w.callbacks[id]? = some cb →
    ∃ cb' : CbSt, w'.callbacks[id]? = some cb' ∧ cb'.ctx = cb.ctx ∧ cb'.r = cb.r ∧ cb'.options = cb.options ∧
    (cb'.state = .registered → cb.state = .registered)
  options : ∀ o, .runOptions o ∈ g.live → w'.options o = some true →
    w.options o = some true ∨ ∃ c, g.call.ctx = some c ∧ (w.err c).isSome

omit [Platform] in
theorem Keeps.refl (w : World) (g : Held) : Keeps w w g where
  sessions _ st h := ⟨st, h, rfl, id, fun _ => rfl, fun _ => rfl⟩
  length := le_rfl
  runtimes _ st _ h := ⟨st, h, fun _ => rfl, fun _ => rfl⟩
  ctxs _ _ h := h
  callbacks _ cb h := ⟨cb, h, rfl, rfl, rfl, id⟩
  options _ _ h := .inl h

omit [Platform] in
theorem Keeps.isSome (h : Keeps w w' g) {c : Ctx} (hc : (w.err c).isSome) :
    (w'.err c).isSome := by
  obtain ⟨e, he⟩ := Option.isSome_iff_exists.1 hc
  rw [h.ctxs c e he]
  rfl

omit [Platform] in
theorem Knows.keep (hk : Knows w g) (h : Keeps w w' g) : Knows w' g where
  session s hs := by
    obtain ⟨st, hst, hsess⟩ := hk.session s hs
    obtain ⟨st', hst', hsess', -⟩ := h.sessions _ st hst
    exact ⟨st', hst', hsess'.trans hsess⟩
  runtime r hr := (hk.runtime r hr).trans_le h.length
  seen n hn := by
    obtain ⟨s, st, hlock, hst, hnat⟩ := hk.seen n hn
    obtain ⟨st', hst', -, -, hnat', -⟩ := h.sessions s st hst
    exact ⟨s, st', hlock, hst', (hnat' hlock).trans hnat⟩
  gone hg s hs := by
    obtain ⟨st, hst, hnat⟩ := hk.gone hg s hs
    obtain ⟨st', hst', -, hnat', -⟩ := h.sessions _ st hst
    exact ⟨st', hst', hnat' hnat⟩
  cleared s hs := by
    obtain ⟨st, hst, hnat, hrel⟩ := hk.cleared s hs
    obtain ⟨st', hst', -, hnat', -, hrel'⟩ := h.sessions _ st hst
    exact ⟨st', hst', hnat' hnat, (hrel' hs).trans hrel⟩
  closed b hb := by
    obtain ⟨r, st, hmu, hst, hc⟩ := hk.closed b hb
    obtain ⟨st', hst', hc', -⟩ := h.runtimes r st hmu hst
    exact ⟨r, st', hmu, hst', (hc' (by rw [hb]; rfl)).trans hc⟩
  rt x hx := by
    obtain ⟨r, hmu, hnat⟩ := hk.rt x hx
    obtain ⟨st, hst, hn⟩ := Option.bind_eq_some_iff.1 hnat
    obtain ⟨st', hst', -, hn'⟩ := h.runtimes r st hmu hst
    exact ⟨r, hmu, by simp [World.nativeOf, hst', hn' (by rw [hx]; rfl), hn]⟩
  done e c he hc := h.ctxs c e (hk.done e c he hc)
  canceled c hcan hc := h.isSome (hk.canceled c hcan hc)
  callback r o id hc := by
    obtain ⟨cb, hcb, hr, ho⟩ := hk.callback r o id hc
    obtain ⟨cb', hcb', -, hr', ho', -⟩ := h.callbacks id cb hcb
    exact ⟨cb', hcb', hr'.trans hr, ho'.trans ho⟩
  watch id hw := by
    obtain ⟨cb, hcb, hctx, hseen, hlive, hjoin⟩ := hk.watch id hw
    obtain ⟨cb', hcb', hctx', hr', ho', hst⟩ := h.callbacks id cb hcb
    exact ⟨cb', hcb', by rw [hctx', hctx], by rw [hr', hseen], by rwa [ho'],
      fun hj hs => hjoin hj (hst hs)⟩
  flag o hl hf := by
    rcases h.options o hl hf with hf | ⟨c, hc, herr⟩
    · obtain ⟨c, hc, herr⟩ := hk.flag o hl hf
      exact ⟨c, hc, h.isSome herr⟩
    · exact ⟨c, hc, h.isSome herr⟩

omit [Platform] in
/-- What a call counts for is its own session and runtime. -/
theorem SameSession.of_other {s : Nat} (hg : g.Wf) (hg' : g'.Wf) (hc : g'.call = g.call)
    (hs : g.call.session.map (·.id) ≠ some s) : SameSession s g g' := by
  have hs' : g'.call.session.map (·.id) ≠ some s := by rwa [hc]
  have hfreed : ∀ g : Held, g.call.session.map (·.id) ≠ some s → g.freedOf ≠ some s := by
    intro g hs hf
    unfold Held.freedOf at hf
    split at hf
    · exact hs hf
    · exact nomatch hf
  have hfreeing : ∀ g : Held, g.freedOf ≠ some s → g.freeing ≠ some s := by
    intro g hs hf
    unfold Held.freeing at hf
    split at hf
    · exact nomatch hf
    · exact hs hf
  have hiff : ∀ {p q : Prop}, ¬p → ¬q → (p ↔ q) := fun hp hq => iff_of_false hp hq
  exact ⟨hiff (hs' <| hg'.read s ·) (hs <| hg.read s ·), hiff (hs' <| hg'.pend s ·) (hs <| hg.pend s ·),
    hiff (hs' <| hg'.excl s ·) (hs <| hg.excl s ·),
    hiff (hs' <| hg'.read s <| hg'.gate s ·) (hs <| hg.read s <| hg.gate s ·),
    hiff (hfreed _ hs') (hfreed _ hs), hiff (hfreeing _ (hfreed _ hs')) (hfreeing _ (hfreed _ hs))⟩

omit [Platform] in
theorem SameRuntime.of_other {r : Nat} (hg : g.Wf) (hg' : g'.Wf) (hc : g'.call = g.call)
    (hr : g.call.runtime ≠ some r) : SameRuntime r g g' := by
  have hr' : g'.call.runtime ≠ some r := by rwa [hc]
  have hshut : ∀ g : Held, g.call.runtime ≠ some r → g.shutOf ≠ some r := by
    intro g hr hf
    unfold Held.shutOf at hf
    split at hf
    · exact hr hf
    · exact nomatch hf
  have hlast : ∀ g : Held, g.Wf → g.call.runtime ≠ some r → g.lastOf ≠ some r := by
    intro g hg hr hf
    unfold Held.lastOf at hf
    split at hf
    · exact nomatch hf
    · exact hr (hg.mu r (hg.zero r hf))
  have hiff : ∀ {p q : Prop}, ¬p → ¬q → (p ↔ q) := fun hp hq => iff_of_false hp hq
  exact ⟨hiff (hr' <| hg'.mu r ·) (hr <| hg.mu r ·),
    hiff (hr' <| hg'.mu r <| hg'.raised r ·) (hr <| hg.mu r <| hg.raised r ·),
    hiff (hr' <| hg'.mu r <| hg'.owes r ·) (hr <| hg.mu r <| hg.owes r ·),
    hiff (hr' <| hg'.mu r <| hg'.zero r ·) (hr <| hg.mu r <| hg.zero r ·),
    hiff (hshut _ hr') (hshut _ hr), hiff (hlast _ hg' hr') (hlast _ hg hr)⟩

end

end Onnxcraft
