import Mathlib.Data.Fintype.EquivFin
import Onnxcraft.Protocol.Trace

/-!
# What a call can do next

`World.Waits`: the six operations that may have to wait, and when they do. Every other operation
that the protocol allows has an answer (`Inv.proceeds`): `World.answer` gives one, with an ORT
that succeeds at everything and whose every model has one input and one output, both scalars.
-/

namespace Onnxcraft

open Effect

/-- ORT and the C heap when nothing fails; new objects are at `fresh`. -/
def NativeOp.succeed (fresh : Handle) : (o : NativeOp) → o.Resp
  | .malloc _ | .calloc _ _ | .strdup _ | .dlopen _ | .getApiBase | .getApi _ => some fresh
  | .cString _ => fresh
  | .dlerror | .getVersionString _ => []
  | .getErrorMessage st => st.message
  | .dlsym _ => true
  | .createEnv | .createCpuMemoryInfo | .getAllocatorWithDefaultOptions
  | .createSessionOptions | .createCUDAProviderOptions | .createTensorRTProviderOptions
  | .createSession _ _ _ | .createSessionFromArray _ _ _
  | .sessionGetInputTypeInfo _ _ | .sessionGetOutputTypeInfo _ _ | .castTypeInfoToTensorInfo _
  | .createRunOptions | .createTensorWithDataAsOrtValue _ _ _ _ _ _
  | .getTensorMemoryInfo _ => .ok fresh
  | .disableTelemetryEvents _ | .setIntraOpNumThreads _ _ | .setInterOpNumThreads _ _
  | .setSessionExecutionMode _ _ | .setSessionGraphOptimizationLevel _ _
  | .addSessionConfigEntry _ _ _ | .updateCUDAProviderOptions _ _ _
  | .appendExecutionProviderCUDAV2 _ _ | .updateTensorRTProviderOptions _ _ _
  | .appendExecutionProviderTensorRTV2 _ _ | .appendExecutionProviderOpenVINOV2 _ _ _
  | .appendExecutionProvider _ _ _ _ | .runOptionsSetTerminate _ => .ok ()
  | .createStatus code message => ⟨fresh, code, message⟩
  | .getErrorCode st => st.code
  | .sessionGetInputCount _ | .sessionGetOutputCount _ => .ok 1
  | .getDimensionsCount _ => .ok 0
  | .getTensorSizeInBytes _ => .ok 4
  | .getTensorMutableData _ => .ok fresh
  | .sessionGetInputName _ _ => .ok ⟨fresh, ascii "x"⟩
  | .sessionGetOutputName _ _ => .ok ⟨fresh, ascii "y"⟩
  | .getOnnxTypeFromTypeInfo _ => .ok .tensor
  | .getTensorElementType _ => .ok .float
  | .getDimensions _ rank => .ok (List.replicate rank 1)
  | .run _ _ _ _ _ outputs =>
    ⟨none, outputs.map fun o => if o.isSome then none else some fresh, false, []⟩
  | .memoryInfoGetDeviceType _ => .cpu
  | .getTensorElementTypeAndShapeDataReference _ => .ok (.float, [])
  | .free _ | .dlclose _ | .releaseMemoryInfo _ | .releaseEnv _ | .releaseStatus _
  | .releaseSessionOptions _ | .releaseCUDAProviderOptions _ | .releaseTensorRTProviderOptions _
  | .releaseSession _ | .allocatorFree _ | .releaseTypeInfo _ | .releaseRunOptions _
  | .releaseValue _ => ()

section
variable [Platform]

theorem NativeOp.succeed_allows (fresh : Handle) (o : NativeOp) : o.Allows (o.succeed fresh) := by
  have hbits : 2 ^ 32 ≤ 2 ^ Platform.bits := by
    rcases Platform.bits_eq with h | h <;> simp [h]
  cases o with
  | createStatus => exact ⟨rfl, rfl⟩
  | getErrorCode | getErrorMessage => exact rfl
  | sessionGetInputCount | sessionGetOutputCount | getDimensionsCount | getTensorSizeInBytes =>
    exact Nat.lt_of_lt_of_le (by decide) hbits
  | getDimensions => exact List.length_replicate
  | getTensorElementTypeAndShapeDataReference => exact Nat.two_pow_pos _
  | run _ _ _ _ _ outputs =>
    refine ⟨List.length_map _, fun p hp => ?_⟩
    obtain ⟨j, hj⟩ := List.mem_iff_getElem?.1 hp
    obtain ⟨h₁, h₂⟩ := List.getElem?_zip_eq_some.1 hj
    have h₂ : (outputs.map fun o => if o.isSome then none else some fresh)[j]? = some p.2 := h₂
    rw [List.getElem?_map, h₁, Option.map_some, Option.some.injEq] at h₂
    rw [← h₂]
    cases p.1 <;> simp
  | _ => trivial

namespace World

/-- The operation has to wait. -/
def Waits (w : World) : Op → Prop
  | .sess s .rLock | .sess s .lock => ∃ st, w.sessions[s]? = some st ∧ st.writer ≠ .idle
  | .sess s .lockWait => ∃ st, w.sessions[s]? = some st ∧ 0 < st.readers
  | .sess s (.gateSelect c) => ∃ st, w.sessions[s]? = some st ∧ 0 < st.gate ∧ w.err c = none
  | .rt r .lock => ∃ st, w.runtimes[r]? = some st ∧ st.locked
  | .cb (.recvDone id) => ∃ cb, w.callbacks[id]? = some cb ∧ cb.state = .running
  | _ => False

/-- An answer to an operation that need not wait. -/
def answer (w : World) (fresh : Handle) : (e : Op) → Option e.Resp
  | .sess s .getNative => some ((w.sessions[s]?).bind (·.native))
  | .sess s (.gateSelect _) => some ((w.sessions[s]?).all fun st => st.gate = 0)
  | .sess _ .rLock | .sess _ .rUnlock | .sess _ .lock | .sess _ .lockWait | .sess _ .unlock
  | .sess _ .clearNative | .sess _ .gateRecv => some ()
  | .rt r .getClosed => (w.runtimes[r]?).map (·.closed)
  | .rt r .getNative => some (w.runtimes[r]?.bind (·.native))
  | .rt r (.decRefs _) => (w.runtimes[r]?).map (·.refs - 1)
  | .rt _ .lock | .rt _ .unlock | .rt _ .setClosed | .rt _ .clearNative | .rt _ .incRefs => some ()
  | .newRuntime _ => some w.runtimes.length
  | .newSession _ _ _ _ _ => some w.sessions.length
  | .ctxErr c => some (w.err c)
  | .filepathAbs path => some (.ok path)
  | .pool .get => some (w.pool.head?.getD ⟨w.buffers, []⟩)
  | .pool (.put _) => some ()
  | .cb (.afterFunc _ _ _) => some w.callbacks.length
  | .cb (.stop id) => (w.callbacks[id]?).map (·.state = .registered)
  | .cb (.recvDone _) | .cb (.closeDone _) => some ()
  | .mem (.make _) => some fresh
  | .mem (.load _ n) => some (List.replicate n 0)
  | .mem (.store _ _) | .mem (.pinShape _) | .mem (.pin _) | .mem .unpin => some ()
  | .enter _ | .leave _ => some ()
  | .nat o => some (o.succeed fresh)
  | .fault _ => none

end World

/-! ## Who holds what a call waits for -/

variable {w : World} {gs : List Held} {g : Held} {i : Nat}

theorem Inv.session_get (hi : Inv w gs) (hg : g ∈ gs) {s : Nat}
    (hs : g.call.session.map (·.id) = some s) :
    ∃ st, w.sessions[s]? = some st ∧ SessionOk w gs s st := by
  obtain ⟨s₀, hs₀, rfl⟩ := Option.map_eq_some_iff.1 hs
  obtain ⟨st, hst, -⟩ := (hi.knows g hg).session s₀ hs₀
  exact ⟨st, hst, hi.sessions _ st hst⟩

theorem Inv.runtime_get (hi : Inv w gs) (hg : g ∈ gs) {r : Nat} (hr : g.call.runtime = some r) :
    ∃ st, w.runtimes[r]? = some st ∧ RuntimeOk w gs r st :=
  have hlt := (hi.knows g hg).runtime r hr
  ⟨w.runtimes[r], List.getElem?_eq_getElem hlt, hi.runtimes r _ (List.getElem?_eq_getElem hlt)⟩

theorem Inv.sess_proceeds (hi : Inv w gs) (hg : gs[i]? = some g) {s : Nat} {o : SessOp}
    (hp : (Op.sess s o).Pre g) (hw : ¬w.Waits (.sess s o)) (fresh : Handle) :
    ∃ a w', w.answer fresh (.sess s o) = some a ∧ w.act (.sess s o) a = some w' := by
  obtain ⟨-, hs, hp⟩ := hp
  have hmem := List.mem_of_getElem? hg
  have hwf := hi.wf g hmem
  obtain ⟨st, hst, hok⟩ := hi.session_get hmem hs
  have hact : ∀ a st', st.act (fun c => (w.err c).isSome) o a = some st' →
      w.act (.sess s o) a = some { w with sessions := w.sessions.set s st' } := by
    intro a st' ha
    simp only [World.act, World.sess, hst, Option.bind_eq_bind, Option.bind_some, ha]
    rfl
  cases o with
  | rLock =>
    have hidle : st.writer = .idle := not_not.1 fun h => hw ⟨st, hst, h⟩
    exact ⟨_, _, rfl, hact () _ (if_pos hidle)⟩
  | rUnlock =>
    have hpos : 0 < st.readers := hok.readers ▸ holders_pos hg hp.1
    exact ⟨_, _, rfl, hact () _ (if_pos hpos)⟩
  | lock =>
    have hidle : st.writer = .idle := not_not.1 fun h => hw ⟨st, hst, h⟩
    exact ⟨_, _, rfl, hact () _ (if_pos hidle)⟩
  | lockWait =>
    have hzero : st.readers = 0 := Nat.eq_zero_of_not_pos fun h => hw ⟨st, hst, h⟩
    have hpending : st.writer = .pending := by
      have hpos := holders_pos hg hp.1
      rw [hok.pending] at hpos
      split at hpos
      · assumption
      · exact absurd hpos (lt_irrefl 0)
    exact ⟨_, _, rfl, hact () _ (if_pos ⟨hpending, hzero⟩)⟩
  | unlock =>
    have hheld : st.writer = .held := by
      have hpos := holders_pos hg hp.1
      rw [hok.held] at hpos
      split at hpos
      · assumption
      · exact absurd hpos (lt_irrefl 0)
    exact ⟨_, _, rfl, hact () _ (if_pos hheld)⟩
  | getNative =>
    refine ⟨_, _, rfl, hact _ _ (if_pos ?_)⟩
    rw [hst, Option.bind_some]
  | clearNative => exact ⟨_, _, rfl, hact () _ rfl⟩
  | gateSelect c =>
    have hanswer : w.answer fresh (.sess s (.gateSelect c)) = some (decide (st.gate = 0)) := by
      show some ((w.sessions[s]?).all _) = _
      rw [hst]
      rfl
    by_cases hgate : st.gate = 0
    · refine ⟨true, _, ?_, hact true { st with gate := 1 } (if_pos hgate)⟩
      rw [hanswer, decide_eq_true hgate]
    · have hdone : (w.err c).isSome := by
        by_contra hn
        exact hw ⟨st, hst, Nat.pos_of_ne_zero hgate, Option.not_isSome_iff_eq_none.1 hn⟩
      refine ⟨false, _, ?_, hact false st (if_pos hdone)⟩
      rw [hanswer, decide_eq_false hgate]
  | gateRecv =>
    have hpos : 0 < st.gate := hok.gate ▸ holders_pos hg hp.1
    exact ⟨_, _, rfl, hact () _ (if_pos hpos)⟩

/-- The runtime of an operation exists. -/
theorem Inv.rt_get (hi : Inv w gs) (hg : g ∈ gs) {r : Nat} {o : RtOp} (hp : (Op.rt r o).Pre g) :
    ∃ st, w.runtimes[r]? = some st ∧ RuntimeOk w gs r st := by
  obtain ⟨-, hp⟩ := hp
  have hmu : g.mu = some r → ∃ st, w.runtimes[r]? = some st ∧ RuntimeOk w gs r st := fun h =>
    hi.runtime_get hg ((hi.wf g hg).mu r h)
  cases o with
  | lock => exact hi.runtime_get hg hp.2.1
  | getClosed => exact hmu hp
  | getNative =>
    rcases hp with hp | ⟨-, hp⟩
    · exact hmu hp
    · obtain ⟨s, hs, rfl⟩ := Option.map_eq_some_iff.1 hp
      obtain ⟨st, hst, rfl⟩ := (hi.knows g hg).session s hs
      have hlt := (hi.sessions _ st hst).runtime
      exact ⟨_, List.getElem?_eq_getElem hlt, hi.runtimes _ _ (List.getElem?_eq_getElem hlt)⟩
  | _ => exact hmu hp.1

theorem Inv.rt_proceeds (hi : Inv w gs) (hg : gs[i]? = some g) {r : Nat} {o : RtOp}
    (hp : (Op.rt r o).Pre g) (hw : ¬w.Waits (.rt r o)) (fresh : Handle) :
    ∃ a w', w.answer fresh (.rt r o) = some a ∧ w.act (.rt r o) a = some w' := by
  obtain ⟨st, hst, hok⟩ := hi.rt_get (List.mem_of_getElem? hg) hp
  have hact : ∀ a st', st.act o a = some st' →
      w.act (.rt r o) a = some ({ w with runtimes := w.runtimes.set r st' }.noteRelease o) := by
    intro a st' ha
    simp only [World.act, World.rt, hst, Option.bind_eq_bind, Option.bind_some, ha]
    rfl
  cases o with
  | lock =>
    have hfree : st.locked = false := by
      by_contra h
      exact hw ⟨st, hst, by simpa using h⟩
    exact ⟨_, _, rfl, hact () { st with locked := true } (by simp [RuntimeSt.act, hfree])⟩
  | unlock =>
    have hlocked : st.locked = true := by
      have hpos := holders_pos hg hp.2.1
      rw [hok.locked] at hpos
      split at hpos
      · assumption
      · exact absurd hpos (lt_irrefl 0)
    exact ⟨_, _, rfl, hact () _ (if_pos hlocked)⟩
  | getClosed =>
    refine ⟨st.closed, _, ?_, hact st.closed _ (if_pos rfl)⟩
    show (w.runtimes[r]?).map _ = _
    rw [hst]
    rfl
  | getNative =>
    refine ⟨st.native, _, ?_, hact st.native _ (if_pos rfl)⟩
    show some ((w.runtimes[r]?).bind _) = _
    rw [hst]
    rfl
  | decRefs owner =>
    refine ⟨st.refs - 1, _, ?_, hact (st.refs - 1) _ (if_pos rfl)⟩
    show (w.runtimes[r]?).map _ = _
    rw [hst]
    rfl
  | _ => exact ⟨_, _, rfl, hact () _ rfl⟩

theorem Inv.cb_proceeds (hi : Inv w gs) (hg : gs[i]? = some g) {o : CbOp}
    (hp : (Op.cb o).Pre g) (hw : ¬w.Waits (.cb o)) (fresh : Handle) :
    ∃ a w', w.answer fresh (.cb o) = some a ∧ w.act (.cb o) a = some w' := by
  obtain ⟨-, hp⟩ := hp
  have hk := hi.knows g (List.mem_of_getElem? hg)
  cases o with
  | afterFunc c r options => exact ⟨_, _, rfl, if_pos rfl⟩
  | stop id =>
    obtain ⟨cb, hcb, -⟩ := hk.watch id hp.1
    have hanswer : w.answer fresh (.cb (.stop id)) = some (decide (cb.state = .registered)) := by
      show (w.callbacks[id]?).map _ = _
      rw [hcb]
      rfl
    by_cases hstate : cb.state = .registered
    · refine ⟨true, { w with callbacks := w.callbacks.set id { cb with state := .stopped } },
        by rw [hanswer, decide_eq_true hstate], ?_⟩
      simp [World.act, World.callback, hcb, hstate]
    · refine ⟨false, w, by rw [hanswer, decide_eq_false hstate], ?_⟩
      simp [World.act, World.callback, hcb, hstate]
  | recvDone id =>
    obtain ⟨cb, hcb, -, -, -, hjoin⟩ := hk.watch id hp.1
    have hpos := holders_pos hg hp.1
    have hwatch := (hi.callbacks id cb hcb).watch
    have hfinished : cb.state = .finished := by
      cases hstate : cb.state with
      | registered => exact absurd hstate (hjoin hp.2.1)
      | running => exact absurd ⟨cb, hcb, hstate⟩ hw
      | finished => rfl
      | stopped =>
        rw [hstate] at hwatch
        have hwatch : holders Held.watch gs id = 0 := hwatch
        omega
    exact ⟨(), w, rfl, by simp [World.act, World.callback, hcb, hfinished]⟩
  | closeDone id =>
    obtain ⟨r, options, hcall⟩ := (hi.wf g (List.mem_of_getElem? hg)).fire id hp.1
    obtain ⟨cb, hcb, -⟩ := hk.callback r options id hcall
    have hrunning : cb.state = .running := by
      have hpos := holders_pos hg hp.1
      rw [(hi.callbacks id cb hcb).fire] at hpos
      split at hpos
      · assumption
      · exact absurd hpos (lt_irrefl 0)
    exact ⟨(), _, rfl, by simp [World.act, World.callback, hcb, hrunning]; rfl⟩

omit [Platform] in
theorem World.nat_proceeds [Platform] (w : World) (o : NativeOp) {fresh : Handle}
    (hfresh : w.options fresh = none) :
    ∃ a w', w.answer fresh (.nat o) = some a ∧ w.act (.nat o) a = some w' := by
  have hallows := o.succeed_allows fresh
  have hact : w.act (.nat o) (o.succeed fresh) = _ := if_pos hallows
  refine ⟨o.succeed fresh, ?_⟩
  rw [hact]
  cases o with
  | createRunOptions => exact ⟨_, rfl, if_pos hfresh⟩
  | run => exact ⟨w, rfl, if_neg fun h => nomatch h.1⟩
  | _ => exact ⟨_, rfl, rfl⟩

/-- **Progress.** An operation that the protocol allows has an answer unless it has to wait. -/
theorem Inv.proceeds (hi : Inv w gs) (hg : gs[i]? = some g) {e : Op} (hp : e.Pre g)
    (hw : ¬w.Waits e) {fresh : Handle} (hfresh : w.options fresh = none) :
    ∃ a w', w.answer fresh e = some a ∧ w.act e a = some w' := by
  cases e with
  | sess s o => exact hi.sess_proceeds hg hp hw fresh
  | rt r o => exact hi.rt_proceeds hg hp hw fresh
  | newRuntime native => exact ⟨_, _, rfl, if_pos rfl⟩
  | newSession => exact ⟨_, _, rfl, if_pos rfl⟩
  | ctxErr c => exact ⟨_, _, rfl, if_pos rfl⟩
  | filepathAbs path => exact ⟨.ok path, _, rfl, rfl⟩
  | pool o =>
    cases o with
    | put b => exact ⟨_, _, rfl, rfl⟩
    | get =>
      have hanswer : w.answer fresh (.pool .get) = some (w.pool.head?.getD ⟨w.buffers, []⟩) := rfl
      cases hpool : w.pool with
      | nil => exact ⟨⟨w.buffers, []⟩, _, by rw [hanswer, hpool]; rfl,
          by simp [World.act, World.descriptors, hpool]; rfl⟩
      | cons b pool => exact ⟨b, _, by rw [hanswer, hpool]; rfl,
          by simp [World.act, World.descriptors, hpool]; rfl⟩
  | cb o => exact hi.cb_proceeds hg hp hw fresh
  | mem o =>
    cases o with
    | load p n => exact ⟨_, _, rfl, if_pos List.length_replicate⟩
    | make words => exact ⟨fresh, _, rfl, rfl⟩
    | _ => exact ⟨(), _, rfl, rfl⟩
  | enter f => exact ⟨(), _, rfl, rfl⟩
  | leave f => exact ⟨(), _, rfl, rfl⟩
  | nat o => exact w.nat_proceeds o hfresh
  | fault f => exact hp.elim

/-- An operation that has to wait has no answer. -/
theorem World.Waits.act_eq_none {e : Op} (h : w.Waits e) (a : e.Resp) : w.act e a = none := by
  cases e with
  | sess s o =>
    cases o with
    | rLock | lock =>
      obtain ⟨st, hst, hbusy⟩ := h
      simp [World.act, World.sess, hst, SessionSt.act, hbusy]
    | lockWait =>
      obtain ⟨st, hst, hpos⟩ := h
      simp [World.act, World.sess, hst, SessionSt.act, Nat.ne_of_gt hpos]
    | gateSelect c =>
      obtain ⟨st, hst, hpos, hdone⟩ := h
      cases a <;> simp [World.act, World.sess, hst, SessionSt.act, Nat.ne_of_gt hpos, hdone]
    | _ => exact h.elim
  | rt r o =>
    cases o with
    | lock =>
      obtain ⟨st, hst, hlocked⟩ := h
      simp [World.act, World.rt, hst, RuntimeSt.act, hlocked]
    | _ => exact h.elim
  | cb o =>
    cases o with
    | recvDone id =>
      obtain ⟨cb, hcb, hstate⟩ := h
      simp [World.act, World.callback, hcb, hstate]
    | _ => exact h.elim
  | _ => exact h.elim

omit [Platform] in
theorem optionHolders_eq (gs : List Held) (o : Handle) :
    optionHolders gs o = (total Held.live gs).count (.runOptions o) := by
  induction gs with
  | nil => rfl
  | cons g gs ih => rw [optionHolders, total_cons, total_cons, Multiset.count_add, ← ih, optionHolders]

/-- There is always an address without run options. -/
theorem Inv.exists_fresh (hi : Inv w gs) : ∃ fresh, w.options fresh = none := by
  obtain ⟨fresh, hfresh⟩ := Infinite.exists_notMem_finset
    ((total Held.live gs).toFinset.image fun x => match x with | .runOptions h => h | _ => 0)
  refine ⟨fresh, Option.not_isSome_iff_eq_none.1 fun hsome => ?_⟩
  have hone := hi.options fresh
  rw [if_pos hsome, optionHolders_eq] at hone
  have hmem : .runOptions fresh ∈ total Held.live gs := Multiset.count_pos.1 (by omega)
  exact hfresh (Finset.mem_image.2 ⟨_, Multiset.mem_toFinset.2 hmem, rfl⟩)

/-- A call can take its next step iff that need not wait. -/
theorem enabled_iff {σ : Global} (hr : system.Reachable σ) {t : Goroutine}
    (ht : σ.threads[i]? = some t) {e : Op} {k : e.Resp → Act Ret} (hk : t.rest = .op e k) :
    system.Enabled σ i ↔ ¬σ.world.Waits e := by
  rw [System.enabled_iff]
  constructor
  · rintro ⟨t', e', k', a, w', ht', hk', ha⟩ hw
    obtain rfl : t = t' := by rw [ht, Option.some.injEq] at ht'; exact ht'
    obtain ⟨rfl, -⟩ := Prog.op.inj (hk.symm.trans hk')
    rw [show system.act e a σ.world = none from hw.act_eq_none a] at ha
    exact nomatch ha
  · intro hw
    have hi := Reachable.inv hr
    have hpre := Reachable.wp hr (List.mem_of_getElem? ht)
    rw [hk] at hpre
    obtain ⟨fresh, hfresh⟩ := hi.exists_fresh
    obtain ⟨a, w', -, ha⟩ := hi.proceeds (Reachable.held_get ht) hpre.1 hw hfresh
    exact ⟨t, e, k, a, w', ht, hk, ha⟩

end

/-- The session that a load has returned. -/
def Ret.loaded : Ret → Option Session
  | .session (.ok s) => some s
  | _ => Option.none

theorem Ret.loaded_eq {x : Ret} {s : Session} : x.loaded = some s ↔ x = .session (.ok s) := by
  cases x with
  | session res => cases res <;> simp [Ret.loaded]
  | _ => simp [Ret.loaded]

/-! ## A sample

Goroutine 0 opens a library, goroutine 1 loads a model, with or without a gate, and goroutine 2 runs
it. -/

namespace Sample

scoped instance platform : Platform := ⟨64, .inr rfl, 4096, by decide⟩

/-- The answers of goroutine `i`; the address of a new object tells who made it, and when. -/
def reply (σ : Global) (i : Nat) (e : Op) : Option e.Resp :=
  σ.world.answer (i + 1 + 100 * ((σ.threads[i]?).map (·.trace.length)).getD 0) e

abbrev Cue := Effect.Cue World Call Move Op Op.Resp Ret

/-- Goroutine `i` goes on for `n` steps. -/
def go (i n : Nat) : Cue := .steps i n reply

def options (gated : Bool) : SessionOptions :=
  { providers := if gated then [⟨ascii "P", []⟩] else [] }

def info (name : String) : TensorInfo := ⟨ascii name, ⟨1⟩, []⟩

/-- The session that goroutine 1 loads. -/
def session (gated : Bool) : Session := ⟨0, 0, gated, [info "x"], [info "y"]⟩

/-- A scalar at the address `p`. -/
def scalar (p : Nat) : Tensor := ⟨p, [], 1, ⟨1⟩⟩

def ctx : Ctx := ⟨7, true⟩

/-- The library is open and the model loaded. -/
def loaded (gated : Bool) : List Cue :=
  [.start (.openLibrary (ascii "l")), go 0 16, .start (.loadBytes 0 [1] (some (options gated))),
    go 1 (if gated then 50 else 43)]

/-- The model has been run once. -/
def ran (gated : Bool) : List Cue :=
  loaded gated ++ [.start (.run (session gated) ctx [scalar 8192]), go 2 (if gated then 39 else 36)]

/-- A goroutine whose call has returned. -/
structure Returned (t : Goroutine) (c : Call) where
  call : t.call = c
  ret : Ret
  rest : t.rest = .ret ret

-- one evaluation of the script decides both
def Returned.of {t : Goroutine} {c : Call} (h : t.call = c ∧ t.rest.value.isSome) : Returned t c :=
  ⟨h.1, t.rest.value.get h.2, Prog.value_eq.1 (Option.some_get h.2).symm⟩

/-- The load of the gated session. -/
def loader : Goroutine := (system.played (ran true)).threads.get ⟨1, by decide +kernel⟩

theorem loader_mem : loader ∈ (system.played (ran true)).threads := List.get_mem _ _

def loaderDone : Returned loader (.loadBytes 0 [1] (some (options true))) := .of (by decide +kernel)

theorem loader_returned : loader.rest = .ret (.session (.ok (session true))) := by
  have hs : loader.rest.value.bind Ret.loaded = some (session true) := by decide +kernel
  obtain ⟨x, hx, hloaded⟩ := Option.bind_eq_some_iff.1 hs
  rw [Prog.value_eq.1 hx, Ret.loaded_eq.1 hloaded]

/-- The run of the gated session. -/
def runner : Goroutine := (system.played (ran true)).threads.get ⟨2, by decide +kernel⟩

theorem runner_mem : runner ∈ (system.played (ran true)).threads := List.get_mem _ _

def runnerDone : Returned runner (.run (session true) ctx [scalar 8192]) := .of (by decide +kernel)

end Sample

end Onnxcraft
