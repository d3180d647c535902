import Onnxcraft.Protocol.Session

/-!
# The invariant of the interleavings

`Inv` relates the world to what the calls hold: a lock is taken iff a call holds it, a reference
count is the number of its owners, the run options that exist are those that some call must
release. `inv_act`: every step of every call keeps it and gives the call the answer that its
protocol relies on.
-/

namespace Onnxcraft

open Effect

/-! ## What the operations require and do -/

/-- One step on a `Session`. -/
theorem SessionSt.act_cases {done : Ctx → Bool} {o : SessOp} {a : o.Resp} {st st' : SessionSt} :
    st.act done o a = some st' → match o, a with
      | .rLock, _ => st.writer = .idle ∧ st' = { st with readers := st.readers + 1 }
      | .rUnlock, _ => 0 < st.readers ∧ st' = { st with readers := st.readers - 1 }
      | .lock, _ => st.writer = .idle ∧ st' = { st with writer := .pending }
      | .lockWait, _ =>
        (st.writer = .pending ∧ st.readers = 0) ∧ st' = { st with writer := .held }
      | .unlock, _ => st.writer = .held ∧ st' = { st with writer := .idle }
      | .getNative, n => n = st.native ∧ st' = st
      | .clearNative, _ => st' = { st with native := none }
      | .gateSelect c, sent =>
        (sent = true ∧ st.gate = 0 ∧ st' = { st with gate := 1 }) ∨
          (sent = false ∧ done c ∧ st' = st)
      | .gateRecv, _ => 0 < st.gate ∧ st' = { st with gate := st.gate - 1 } := by
  intro h
  cases o <;> simp only [SessionSt.act, Option.ite_none_right_eq_some, Option.some.injEq] at h ⊢
  case clearNative => exact h.symm
  case gateSelect c =>
    cases a <;> simp only [if_true, Bool.false_eq_true, if_false, Option.ite_none_right_eq_some,
      Option.some.injEq] at h
    · exact .inr ⟨rfl, h.1, h.2.symm⟩
    · exact .inl ⟨rfl, h.1, h.2.symm⟩
  all_goals exact ⟨h.1, h.2.symm⟩

/-- One step on a `Runtime`. -/
theorem RuntimeSt.act_cases {o : RtOp} {a : o.Resp} {st st' : RuntimeSt} :
    st.act o a = some st' → match o, a with
      | .lock, _ => st.locked = false ∧ st' = { st with locked := true }
      | .unlock, _ => st.locked = true ∧ st' = { st with locked := false }
      | .getClosed, b => b = st.closed ∧ st' = st
      | .setClosed, _ => st' = { st with closed := true }
      | .getNative, n => n = st.native ∧ st' = st
      | .clearNative, _ => st' = { st with native := none }
      | .incRefs, _ => st' = { st with refs := st.refs + 1 }
      | .decRefs _, n => n = st.refs - 1 ∧ st' = { st with refs := n } := by
  intro h
  cases o <;> simp only [RuntimeSt.act, Option.ite_none_right_eq_some, Option.ite_none_left_eq_some,
    Option.some.injEq] at h ⊢
  case setClosed | clearNative | incRefs => exact h.symm
  case lock => exact ⟨by simpa using h.1, h.2.symm⟩
  all_goals exact ⟨h.1, h.2.symm⟩

namespace World

variable {w w' : World}

theorem sess_cases {s : Nat} {o : SessOp} {a : o.Resp} (h : w.sess s o a = some w') :
    ∃ st st', w.sessions[s]? = some st ∧ st.act (fun c => (w.err c).isSome) o a = some st' ∧
      w' = { w with sessions := w.sessions.set s st' } := by
  simp only [sess, Option.bind_eq_bind, Option.bind_eq_some_iff] at h
  obtain ⟨st, hst, st', hst', hw⟩ := h
  exact ⟨st, st', hst, hst', (Option.some.inj hw).symm⟩

theorem rt_cases {r : Nat} {o : RtOp} {a : o.Resp} (h : w.rt r o a = some w') :
    ∃ st st', w.runtimes[r]? = some st ∧ st.act o a = some st' ∧
      w' = { w with runtimes := w.runtimes.set r st' }.noteRelease o := by
  simp only [rt, Option.bind_eq_bind, Option.bind_eq_some_iff] at h
  obtain ⟨st, hst, st', hst', hw⟩ := h
  exact ⟨st, st', hst, hst', (Option.some.inj hw).symm⟩

end World

/-! ## What a call holds, on its own -/

namespace Held

/-- What keeps alive what the call is doing in the C function. -/
def Inside (g : Held) : CFunc → Prop
  | .ocOpen => True
  | .ocClose r => g.zero.isSome ∧ ∃ x, r = some x ∧ g.rt = some x
  | .ocSessionFree s => ∃ n, s = some n ∧ g.runtime = some n.runtime ∧
      (g.excl.isSome → g.seen = some n)
  | .ocRun n | .ocRunInto n => g.seen = some n ∧ g.read.isSome ∧ g.phase = .native ∧
      ∀ s, g.call.session = some s → s.gated → g.gate.isSome
  | .ocOutputsFree n => g.seen = some n ∧ g.read.isSome ∧ g.phase = .freeing
  | .ocTerminate r options => ∃ id, g.call = .callback r options id ∧ g.fire = some id
  | .ocOptionsNew r | .ocConfig r | .ocProvider r | .ocOptionsFree r | .ocLoad r
  | .ocRunOptions r | .ocRunOptionsFree r | .ocErrorCode r | .ocErrorMessage r | .ocErrorFree r =>
    g.runtime = some r

/-- What is held together. -/
structure Wf (g : Held) : Prop where
  read : ∀ s, g.read = some s → g.call.session.map (·.id) = some s
  pend : ∀ s, g.pend = some s → g.call.session.map (·.id) = some s
  excl : ∀ s, g.excl = some s → g.call.session.map (·.id) = some s
  gate : ∀ s, g.gate = some s → g.read = some s
  cleared : ∀ s, g.cleared = some s → g.excl = some s
  freed : g.freed → g.gone = false → g.excl.isSome
  mu : ∀ r, g.mu = some r → g.call.runtime = some r
  raised : ∀ r, g.raised = some r → g.mu = some r
  owes : ∀ r, g.owes = some r → g.mu = some r
  zero : ∀ r, g.zero = some r → g.mu = some r
  closes : g.call.Closes ∨ g.pend = none ∧ g.excl = none ∧ g.owes = none ∧ g.zero = none
  watch : g.watch.isSome → g.read.isSome
  fire : ∀ id, g.fire = some id → ∃ r o, g.call = .callback r o id
  inside : ∀ f, g.inC = some f → g.Inside f

theorem Wf.start (c : Call) : (Held.start c).Wf where
  read := nofun
  pend := nofun
  excl := nofun
  gate := nofun
  cleared := nofun
  freed := nofun
  mu := nofun
  raised := nofun
  owes := nofun
  zero := nofun
  closes := .inr ⟨rfl, rfl, rfl, rfl⟩
  watch := nofun
  fire := by
    rintro id h
    cases c <;> cases h
    exact ⟨_, _, rfl⟩
  inside := by
    intro f h
    cases h

section
variable {g : Held}

theorem Wf.sess [Platform] (h : g.Wf) {s : Nat} {o : SessOp} {a : o.Resp} (hp : (Op.sess s o).Pre g) :
    (o.upd g s a).Wf := by
  obtain ⟨hin, hs, hp⟩ := hp
  have hinside : ∀ g' : Held, g'.inC = g.inC → ∀ f, g'.inC = some f → g'.Inside f := by
    intro g' hg f hf
    rw [hg, hin] at hf
    exact nomatch hf
  cases o with
  | rLock =>
    exact { h with
      read := by rintro _ ⟨⟩; exact hs
      gate := fun s' hg => by simpa [show g.read = none from hp.1] using h.gate s' hg
      watch := fun _ => rfl
      inside := hinside _ rfl }
  | rUnlock =>
    obtain ⟨-, hgate, hwatch, -⟩ := hp
    exact { h with
      read := nofun
      gate := fun s' hg => by simpa [hgate] using show g.gate = some s' from hg
      watch := fun hw => by simp [SessOp.upd, hwatch] at hw
      inside := hinside _ rfl }
  | lock =>
    exact { h with
      pend := by rintro _ ⟨⟩; exact hs
      closes := .inl hp.2.2.1
      inside := hinside _ rfl }
  | lockWait =>
    exact { h with
      pend := nofun
      excl := by rintro _ ⟨⟩; exact hs
      cleared := fun s' hc => by
        have := h.excl s' (h.cleared s' hc)
        rwa [hs] at this
      freed := fun _ _ => rfl
      closes := h.closes.imp_right fun hc => by simpa [hc.1] using show g.pend = some s from hp.1
      inside := hinside _ rfl }
  | unlock =>
    obtain ⟨-, -, hcleared, hfreed, -⟩ := hp
    exact { h with
      excl := nofun
      closes := h.closes.imp_right fun hc => ⟨hc.1, rfl, hc.2.2⟩
      cleared := fun s' hc => by simpa [hcleared] using show g.cleared = some s' from hc
      freed := fun hf hg => by simpa [hfreed hf] using show g.gone = false from hg
      inside := hinside _ rfl }
  | getNative =>
    exact { h with
      freed := fun hf hg => by
        simp only [SessOp.upd, Bool.or_eq_false_iff] at hg
        exact h.freed hf hg.2
      inside := hinside _ rfl }
  | clearNative =>
    obtain ⟨hexcl, -⟩ := hp
    exact { h with
      cleared := by rintro _ ⟨⟩; exact hexcl
      freed := nofun
      inside := hinside _ rfl }
  | gateSelect c =>
    obtain ⟨-, hread, -⟩ := hp
    cases a
    · exact { h with inside := hinside _ rfl }
    · exact { h with
        gate := by rintro _ ⟨⟩; exact hread
        inside := hinside _ rfl }
  | gateRecv =>
    exact { h with
      gate := nofun
      inside := hinside _ rfl }

theorem Wf.rt [Platform] (h : g.Wf) {r : Nat} {o : RtOp} {a : o.Resp} (hp : (Op.rt r o).Pre g) :
    (o.upd g r a).Wf := by
  obtain ⟨hin, hp⟩ := hp
  have hinside : ∀ g' : Held, g'.inC = g.inC → ∀ f, g'.inC = some f → g'.Inside f := by
    intro g' hg f hf
    rw [hg, hin] at hf
    cases hf
  cases o with
  | lock =>
    obtain ⟨hmu, hr, -⟩ := hp
    have hnone : ∀ {x : Option Nat} {r' : Nat}, (∀ r, x = some r → g.mu = some r) →
        x = some r' → some r = some r' := fun hx hr' => by
      rw [hmu] at hx
      cases hx _ hr'
    exact { h with
      mu := by rintro _ ⟨⟩; exact hr
      raised := fun _ => hnone h.raised
      owes := fun _ => hnone h.owes
      zero := fun _ => hnone h.zero
      inside := hinside _ rfl }
  | unlock =>
    obtain ⟨-, hraised, howes, hzero, -⟩ := hp
    exact { h with
      mu := fun _ h => by cases h
      raised := fun r' hr => by simpa [hraised] using show g.raised = some r' from hr
      owes := fun r' hr => by simpa [howes] using show g.owes = some r' from hr
      zero := fun r' hr => by simpa [hzero] using show g.zero = some r' from hr
      inside := hinside _ rfl }
  | getClosed => exact { h with inside := hinside _ rfl }
  | setClosed =>
    obtain ⟨hmu, -, -, -, hcloses⟩ := hp
    exact { h with
      owes := by rintro _ ⟨⟩; exact hmu
      closes := .inl hcloses
      inside := hinside _ rfl }
  | getNative =>
    simp only [RtOp.upd]
    split
    · exact { h with inside := hinside _ rfl }
    · exact h
  | clearNative =>
    exact { h with
      zero := fun _ h => by cases h
      closes := h.closes.imp_right fun hc => ⟨hc.1, hc.2.1, hc.2.2.1, rfl⟩
      inside := hinside _ rfl }
  | incRefs =>
    obtain ⟨hmu, -⟩ := hp
    exact { h with
      raised := by rintro _ ⟨⟩; exact hmu
      inside := hinside _ rfl }
  | decRefs owner =>
    obtain ⟨hmu, -, howner⟩ := hp
    have hcloses : g.call.Closes := by
      rcases h.closes with hc | ⟨-, hexcl, howes, -⟩
      · exact hc
      · cases owner with
        | none => simpa [howes] using show g.owes = some r from howner
        | some s => simpa [hexcl] using h.cleared s howner
    have hgave : (g.gave owner).Wf := by
      cases owner with
      | none =>
        exact { h with
          owes := fun _ h => by cases h
          closes := .inl hcloses
          inside := hinside _ rfl }
      | some s =>
        exact { h with
          cleared := fun _ h => by cases h
          inside := hinside _ rfl }
    have hmu' : (g.gave owner).mu = some r := by cases owner <;> exact hmu
    have hin' : (g.gave owner).inC = g.inC := by cases owner <;> rfl
    have hcall : (g.gave owner).call = g.call := by cases owner <;> rfl
    simp only [RtOp.upd]
    split
    · exact { hgave with
        zero := by rintro _ ⟨⟩; exact hmu'
        closes := .inl (show (g.gave owner).call.Closes from hcall ▸ hcloses)
        inside := hinside _ hin' }
    · exact hgave

theorem Wf.cb [Platform] (h : g.Wf) {o : CbOp} {a : o.Resp} (hp : (Op.cb o).Pre g) : (o.upd g a).Wf := by
  obtain ⟨hin, hp⟩ := hp
  have hinside : ∀ g' : Held, g'.inC = g.inC → ∀ f, g'.inC = some f → g'.Inside f := by
    intro g' hg f hf
    rw [hg, hin] at hf
    exact nomatch hf
  cases o with
  | afterFunc c r options =>
    obtain ⟨-, -, -, hread, -⟩ := hp
    exact { h with
      watch := fun _ => hread
      inside := hinside _ rfl }
  | stop id =>
    simp only [CbOp.upd]
    split
    · exact { h with
        watch := nofun
        inside := hinside _ rfl }
    · exact { h with inside := hinside _ rfl }
  | recvDone id =>
    exact { h with
      watch := nofun
      inside := hinside _ rfl }
  | closeDone id =>
    exact { h with
      fire := nofun
      inside := hinside _ rfl }

theorem Wf.enter (h : g.Wf) {f : CFunc} (hp : g.MayEnter f) :
    ((Op.enter f).upd g ()).Wf := by
  refine { h with
    freed := fun hf hg => ?_
    inside := ?_ }
  · cases f <;> first
      | exact h.freed hf hg
      | skip
    rcases Bool.or_eq_true_iff.1 hf with hf | hf
    · exact hf
    · exact h.freed hf hg
  · rintro _ ⟨⟩
    cases f <;> first
      | exact hp
      | exact ⟨hp.1, hp.2.2⟩
      | exact ⟨hp.1, hp.2.1, rfl, hp.2.2.2⟩
      | exact ⟨hp.1, hp.2.1, rfl⟩
      | exact hp.1
      | skip
    obtain ⟨n, hs, hr, hn⟩ := hp
    exact ⟨n, hs, hr, fun he => (hn.2 he).1⟩

theorem Wf.leave (h : g.Wf) {f : CFunc} : ((Op.leave f).upd g ()).Wf :=
  { h with
    inside := by
      intro f' hf
      cases hf }

/-- A native call changes what must be released, and what is known about the context. -/
theorem nat_upd (g : Held) (o : NativeOp) (a : o.Resp) : ∃ c b,
    o.upd g a =
      { g with live := o.acquires a + (g.live - o.releases), canceled := c, aborted := b } := by
  cases o with
  | run =>
    simp only [NativeOp.upd]
    split <;> exact ⟨_, _, rfl⟩
  | _ => exact ⟨_, _, rfl⟩

theorem Wf.nat (h : g.Wf) (o : NativeOp) (a : o.Resp) : (o.upd g a).Wf := by
  obtain ⟨c, b, hupd⟩ := nat_upd g o a
  have hinside : ∀ f, g.inC = some f → (o.upd g a).Inside f := by
    intro f hf
    have := h.inside f hf
    rw [hupd]
    cases f <;> exact this
  rw [hupd] at hinside ⊢
  exact { h with inside := hinside }

/-- What is held together stays so. -/
theorem Wf.step [Platform] (h : g.Wf) {e : Op} {a : e.Resp} (hp : e.Pre g) : (e.upd g a).Wf := by
  have hlive : ∀ L raised, (∀ r, raised = some r → g.mu = some r) →
      ({ g with live := L, raised } : Held).Wf := fun L raised hraised =>
    { h with
      raised := hraised
      inside := fun f hf => by
        have := h.inside f hf
        cases f <;> exact this }
  cases e with
  | sess s o => exact h.sess hp
  | rt r o => exact h.rt hp
  | newRuntime native => exact hlive _ _ h.raised
  | newSession => exact hlive _ _ nofun
  | ctxErr c =>
    exact { h with
      inside := fun f hf => by
        have := h.inside f hf
        cases f <;> exact this }
  | filepathAbs => exact h
  | pool o =>
    have hbuffer : ∀ b, ({ g with buffer := b } : Held).Wf := fun b =>
      { h with
        inside := fun f hf => by
          have := h.inside f hf
          cases f <;> exact this }
    cases o <;> exact hbuffer _
  | cb o => exact h.cb hp
  | mem o => cases o <;> exact h
  | enter f => exact h.enter hp.2
  | leave f => exact h.leave
  | nat o => exact h.nat o a
  | fault f => exact a.elim

end

/-- The runtime whose `oc_close` the call has executed, or is about to. -/
def shutOf (g : Held) : Option Nat := if g.shut then g.call.runtime else none

def lastOf (g : Held) : Option Nat := if g.shut then none else g.zero

/-- The session whose `oc_session_free` the call has executed; `native` is still set. -/
def freedOf (g : Held) : Option Nat := if g.freed then g.call.session.map (·.id) else none

def freeing (g : Held) : Option Nat := if g.gone then none else g.freedOf

end Held

/-! ## What the calls hold together -/

section
variable [Platform]

namespace World

/-- The native runtime of `r`. -/
def nativeOf (w : World) (r : Nat) : Option OcRuntime := (w.runtimes[r]?).bind (·.native)

end World

/-- The runtime that counts a reference for the session. -/
def SessionSt.counts (st : SessionSt) : Option Nat :=
  if st.released then none else some st.sess.runtime

/-- What a call knows of the world. -/
structure Knows (w : World) (g : Held) : Prop where
  session : ∀ s, g.call.session = some s → ∃ st, w.sessions[s.id]? = some st ∧ st.sess = s
  runtime : ∀ r, g.call.runtime = some r → r < w.runtimes.length
  seen : ∀ n, g.seen = some n → ∃ s st, (g.read = some s ∨ g.excl = some s) ∧
    w.sessions[s]? = some st ∧ st.native = some n
  gone : g.gone → ∀ s, g.call.session = some s → ∃ st, w.sessions[s.id]? = some st ∧
    st.native = none
  cleared : ∀ s, g.cleared = some s → ∃ st, w.sessions[s]? = some st ∧ st.native = none ∧
    st.released = false
  closed : ∀ b, g.closed = some b → ∃ r st, g.mu = some r ∧ w.runtimes[r]? = some st ∧
    st.closed = b
  rt : ∀ x, g.rt = some x → ∃ r, g.mu = some r ∧ w.nativeOf r = some x
  done : ∀ e c, g.done = some e → g.call.ctx = some c → w.err c = some e
  canceled : ∀ c, g.canceled → g.call.ctx = some c → (w.err c).isSome
  callback : ∀ r o id, g.call = .callback r o id →
    ∃ cb, w.callbacks[id]? = some cb ∧ cb.r = r ∧ cb.options = o
  watch : ∀ id, g.watch = some id → ∃ cb, w.callbacks[id]? = some cb ∧
    g.call.ctx = some cb.ctx ∧ g.seen.map (·.runtime) = some cb.r ∧
    .runOptions cb.options ∈ g.live ∧ (g.joining → cb.state ≠ .registered)
  flag : ∀ o, .runOptions o ∈ g.live → w.options o = some true →
    ∃ c, g.call.ctx = some c ∧ (w.err c).isSome

/-- A session and the calls that hold its locks and its token, or have freed it. -/
structure SessionOk (w : World) (gs : List Held) (s : Nat) (st : SessionSt) : Prop where
  id : st.sess.id = s
  runtime : st.sess.runtime < w.runtimes.length
  readers : holders Held.read gs s = st.readers
  pending : holders Held.pend gs s = if st.writer = .pending then 1 else 0
  held : holders Held.excl gs s = if st.writer = .held then 1 else 0
  alone : st.writer = .held → st.readers = 0
  gate : holders Held.gate gs s = st.gate
  one : st.gate ≤ 1
  native : ∀ n, st.native = some n → st.released = false ∧
    n.Matches st.sess.inputs st.sess.outputs ∧ w.nativeOf st.sess.runtime = some n.runtime
  freed : holders Held.freedOf gs s =
    (if st.native = none then 1 else 0) + holders Held.freeing gs s
  once : holders Held.freedOf gs s ≤ 1

/-- A runtime, the calls that hold its mutex or references of it, and its sessions. -/
structure RuntimeOk (w : World) (gs : List Held) (r : Nat) (st : RuntimeSt) : Prop where
  locked : holders Held.mu gs r = if st.locked then 1 else 0
  refs : st.refs = (if st.closed then 0 else 1) + holders SessionSt.counts w.sessions r +
    holders Held.raised gs r + holders Held.owes gs r
  native : st.native.isSome ↔ 0 < st.refs ∨ 0 < holders Held.zero gs r
  zero : 0 < holders Held.zero gs r → st.refs = 0
  shut : holders Held.shutOf gs r + holders Held.lastOf gs r = if st.refs = 0 then 1 else 0

/-- A callback, the run that waits for it, and the goroutine that runs it. -/
structure CallbackOk (w : World) (gs : List Held) (id : Nat) (cb : CbSt) : Prop where
  watch : match cb.state with
    | .registered | .running => holders Held.watch gs id = 1
    | .finished => holders Held.watch gs id ≤ 1
    | .stopped => holders Held.watch gs id = 0
  fire : holders Held.fire gs id = if cb.state = .running then 1 else 0
  done : cb.state = .running ∨ cb.state = .finished → (w.err cb.ctx).isSome

/-- The calls that must release the run options `o`. -/
def optionHolders (gs : List Held) (o : Handle) : Nat :=
  total (fun g => g.live.count (.runOptions o)) gs

/-- The buffers in the pool are clean; a buffer is in the pool once, or in use by one call. -/
structure PoolOk (w : World) (gs : List Held) : Prop where
  clean : ∀ b ∈ w.pool, b.Clean
  one : ∀ i, (w.pool.map (·.id)).count i + holders Held.buffer gs i ≤ 1
  made : ∀ i, w.buffers ≤ i → (w.pool.map (·.id)).count i + holders Held.buffer gs i = 0

/-- **The invariant.** -/
structure Inv (w : World) (gs : List Held) : Prop where
  wf : ∀ g ∈ gs, g.Wf
  knows : ∀ g ∈ gs, Knows w g
  sessions : ∀ s st, w.sessions[s]? = some st → SessionOk w gs s st
  runtimes : ∀ r st, w.runtimes[r]? = some st → RuntimeOk w gs r st
  callbacks : ∀ id cb, w.callbacks[id]? = some cb → CallbackOk w gs id cb
  options : ∀ o, optionHolders gs o = if (w.options o).isSome then 1 else 0
  pool : PoolOk w gs

end

end Onnxcraft
