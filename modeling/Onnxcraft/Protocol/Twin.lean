import Onnxcraft.Effect.Lockstep
import Onnxcraft.Protocol.RunLog

/-!
# Two runs of one request

A run does not depend on which descriptor buffer it gets, nor on which callback `context.AfterFunc`
has made for it: two runs of one request that are answered alike elsewhere keep step, whatever has
happened before them (`run_twin`).
-/

namespace Onnxcraft

open Effect

/-- What only the run itself makes use of: its buffer and its callback. -/
def Op.Private : Op → Prop
  | .pool _ | .cb _ => True
  | _ => False

/-- What a run does in native execution and after it. -/
def Op.Works : Op → Prop
  | .sess _ .getNative | .ctxErr _ | .mem _ | .fault _ => True
  | .enter _ | .leave _ | .nat _ => True
  | _ => False

theorem Op.Works.shared {e : Op} (h : e.Works) : ¬e.Private := by
  cases e with
  | pool o => exact h.elim
  | cb o => exact h.elim
  | _ => exact not_false

theorem Op.Native.works {e : Op} (h : e.Native) : e.Works := by
  cases e <;> trivial

theorem Op.Tidy.works {e : Op} (h : e.Tidy) : e.Works := by
  cases e <;> trivial

theorem Op.Pins.works {e : Op} (h : e.Pins) : e.Works := by
  cases e <;> trivial

/-- The operations of two runs that correspond, and how their answers do. -/
inductive Corresponds : Pairing Op Op.Resp
  | shared {e : Op} : ¬e.Private → Corresponds e e Eq
  | get : Corresponds (.pool .get) (.pool .get) fun b b' => b.Clean ∧ b'.Clean
  | put {b b' : Buffer} : b.Clean → b'.Clean →
      Corresponds (.pool (.put b)) (.pool (.put b')) fun _ _ => True
  | afterFunc (c : Ctx) (r : OcRuntime) (o : Handle) :
      Corresponds (.cb (.afterFunc c r o)) (.cb (.afterFunc c r o)) fun _ _ => True
  | stop (id id' : Nat) : Corresponds (.cb (.stop id)) (.cb (.stop id')) Eq
  | recvDone (id id' : Nat) : Corresponds (.cb (.recvDone id)) (.cb (.recvDone id')) fun _ _ => True

/-! ## Comparing answers -/

instance : (o : SessOp) → DecidableEq o.Resp
  | .rLock | .rUnlock | .lock | .lockWait | .unlock | .clearNative | .gateRecv =>
    inferInstanceAs (DecidableEq Unit)
  | .getNative => inferInstanceAs (DecidableEq (Option OcSession))
  | .gateSelect _ => inferInstanceAs (DecidableEq Bool)

instance : (o : RtOp) → DecidableEq o.Resp
  | .lock | .unlock | .setClosed | .clearNative | .incRefs => inferInstanceAs (DecidableEq Unit)
  | .getClosed => inferInstanceAs (DecidableEq Bool)
  | .getNative => inferInstanceAs (DecidableEq (Option OcRuntime))
  | .decRefs _ => inferInstanceAs (DecidableEq Int)

instance : (o : PoolOp) → DecidableEq o.Resp
  | .get => inferInstanceAs (DecidableEq Buffer)
  | .put _ => inferInstanceAs (DecidableEq Unit)

instance : (o : CbOp) → DecidableEq o.Resp
  | .afterFunc _ _ _ => inferInstanceAs (DecidableEq Nat)
  | .stop _ => inferInstanceAs (DecidableEq Bool)
  | .recvDone _ | .closeDone _ => inferInstanceAs (DecidableEq Unit)

instance : (o : MemOp) → DecidableEq o.Resp
  | .make _ => inferInstanceAs (DecidableEq Nat)
  | .load _ _ => inferInstanceAs (DecidableEq (List UInt8))
  | .store _ _ | .pinShape _ | .pin _ | .unpin => inferInstanceAs (DecidableEq Unit)

instance : (o : NativeOp) → DecidableEq o.Resp
  | .malloc _ | .calloc _ _ | .strdup _ | .dlopen _ | .getApiBase | .getApi _ =>
    inferInstanceAs (DecidableEq (Option Handle))
  | .cString _ => inferInstanceAs (DecidableEq Handle)
  | .dlerror | .getVersionString _ | .getErrorMessage _ => inferInstanceAs (DecidableEq GoString)
  | .dlsym _ => inferInstanceAs (DecidableEq Bool)
  | .createEnv | .createCpuMemoryInfo | .getAllocatorWithDefaultOptions
  | .createSessionOptions | .createCUDAProviderOptions | .createTensorRTProviderOptions
  | .createSession _ _ _ | .createSessionFromArray _ _ _
  | .sessionGetInputTypeInfo _ _ | .sessionGetOutputTypeInfo _ _ | .castTypeInfoToTensorInfo _
  | .createRunOptions | .createTensorWithDataAsOrtValue _ _ _ _ _ _
  | .getTensorMemoryInfo _ => inferInstanceAs (DecidableEq (Fallible Handle))
  | .disableTelemetryEvents _ | .setIntraOpNumThreads _ _ | .setInterOpNumThreads _ _
  | .setSessionExecutionMode _ _ | .setSessionGraphOptimizationLevel _ _
  | .addSessionConfigEntry _ _ _ | .updateCUDAProviderOptions _ _ _
  | .appendExecutionProviderCUDAV2 _ _ | .updateTensorRTProviderOptions _ _ _
  | .appendExecutionProviderTensorRTV2 _ _ | .appendExecutionProviderOpenVINOV2 _ _ _
  | .appendExecutionProvider _ _ _ _ | .runOptionsSetTerminate _ =>
    inferInstanceAs (DecidableEq (Fallible Unit))
  | .createStatus _ _ => inferInstanceAs (DecidableEq OrtStatus)
  | .getErrorCode _ => inferInstanceAs (DecidableEq Int)
  | .sessionGetInputCount _ | .sessionGetOutputCount _ | .getDimensionsCount _
  | .getTensorSizeInBytes _ | .getTensorMutableData _ => inferInstanceAs (DecidableEq (Fallible Nat))
  | .sessionGetInputName _ _ | .sessionGetOutputName _ _ =>
    inferInstanceAs (DecidableEq (Fallible CStr))
  | .getOnnxTypeFromTypeInfo _ => inferInstanceAs (DecidableEq (Fallible OnnxType))
  | .getTensorElementType _ => inferInstanceAs (DecidableEq (Fallible ElementType))
  | .getDimensions _ _ => inferInstanceAs (DecidableEq (Fallible (List Int)))
  | .run _ _ _ _ _ _ => inferInstanceAs (DecidableEq RunReply)
  | .memoryInfoGetDeviceType _ => inferInstanceAs (DecidableEq DeviceType)
  | .getTensorElementTypeAndShapeDataReference _ =>
    inferInstanceAs (DecidableEq (Fallible (ElementType × List Int)))
  | .free _ | .dlclose _ | .releaseMemoryInfo _ | .releaseEnv _ | .releaseStatus _
  | .releaseSessionOptions _ | .releaseCUDAProviderOptions _ | .releaseTensorRTProviderOptions _
  | .releaseSession _ | .allocatorFree _ | .releaseTypeInfo _ | .releaseRunOptions _
  | .releaseValue _ => inferInstanceAs (DecidableEq Unit)

instance : (e : Op) → DecidableEq e.Resp
  | .sess _ o => inferInstanceAs (DecidableEq o.Resp)
  | .rt _ o => inferInstanceAs (DecidableEq o.Resp)
  | .pool o => inferInstanceAs (DecidableEq o.Resp)
  | .cb o => inferInstanceAs (DecidableEq o.Resp)
  | .mem o => inferInstanceAs (DecidableEq o.Resp)
  | .nat o => inferInstanceAs (DecidableEq o.Resp)
  | .newRuntime _ | .newSession _ _ _ _ _ => inferInstanceAs (DecidableEq Nat)
  | .ctxErr _ => inferInstanceAs (DecidableEq (Option CtxError))
  | .filepathAbs _ => inferInstanceAs (DecidableEq (Except GoError GoString))
  | .enter _ | .leave _ => inferInstanceAs (DecidableEq Unit)
  | .fault _ => inferInstanceAs (DecidableEq Empty)

instance : DecidablePred Op.Private
  | .pool _ | .cb _ => isTrue trivial
  | .sess _ _ | .rt _ _ | .newRuntime _ | .newSession _ _ _ _ _ | .ctxErr _ | .filepathAbs _ | .mem _
  | .enter _ | .leave _ | .nat _ | .fault _ => isFalse id

/-- What `stop` has answered. -/
def stopAnswer : Event Op Op.Resp → Option Bool
  | ⟨.cb (.stop _), b⟩ => some b
  | _ => none

theorem stopAnswer_eq {ev : Event Op Op.Resp} {b : Bool} (h : stopAnswer ev = some b) :
    ∃ id, ev = ⟨.cb (.stop id), b⟩ := by
  obtain ⟨e, a⟩ := ev
  cases e with
  | cb o =>
    cases o with
    | stop id => exact ⟨id, by rw [← Option.some.inj h]⟩
    | _ => cases h
  | _ => cases h

/-- The two events are not answers to one operation, or answer it alike. Nothing is said about the
buffer from the pool and the callback of `context.AfterFunc`. -/
def Likewise (ev ev' : Event Op Op.Resp) : Prop :=
  (∀ h : ev.1 = ev'.1, ¬ev.1.Private → h ▸ ev.2 = ev'.2) ∧
    ∀ b ∈ stopAnswer ev, ∀ b' ∈ stopAnswer ev', b = b'

instance (ev ev' : Event Op Op.Resp) : Decidable (Likewise ev ev') :=
  inferInstanceAs (Decidable (_ ∧ _))

/-- Two traces are answered alike, place by place. -/
def Alike (tr tr' : Trace) : Prop := ∀ p ∈ tr.zip tr', Likewise p.1 p.2

instance (tr tr' : Trace) : Decidable (Alike tr tr') :=
  inferInstanceAs (Decidable (∀ p ∈ tr.zip tr', Likewise p.1 p.2))

/-! ## Keeping step -/

/-- A clean buffer that has been cleared is clean. -/
theorem Buffer.Clean.cleared {b : Buffer} (h : b.Clean) (n : Nat) :
    Buffer.Clean ⟨b.id, List.replicate n OcTensor.zero ++
      (if b.slots.length < n then List.replicate n OcTensor.zero else b.slots).drop n⟩ := by
  intro t ht
  rcases List.mem_append.1 ht with ht | ht
  · exact List.eq_of_mem_replicate ht
  split at ht
  · exact List.eq_of_mem_replicate (List.mem_of_mem_drop ht)
  · exact h t (List.mem_of_mem_drop ht)

section
variable {α : Type}

/-- A program that keeps its buffer and its callback out of sight. -/
theorem twin_self {p : Act α} (hp : Uses Op.Works p) : Lockstep Corresponds Eq p p :=
  .self (hp.mono fun _ h => .shared h.shared)

theorem twin_cleanup {p : Act Unit} (hp : Uses (fun e => ¬e.Private) p) :
    Lockstep Corresponds (fun _ _ => True) p p :=
  (Lockstep.self (hp.mono fun _ h => Corresponds.shared h)).mono fun _ _ _ => trivial

theorem twin_perform {e : Op} (he : ¬e.Private) :
    Lockstep Corresponds Eq (Prog.perform e : Act e.Resp) (Prog.perform e) :=
  .perform (.shared he)

section
variable [Platform]

theorem Bridge.run_works (s : OcSession) (options : Option Handle) (inputs : List OcTensor)
    (preallocated outputs : Option (List OcTensor)) :
    Uses Op.Works (Bridge.run s options inputs preallocated outputs) := by
  refine ((runValues_uses _).mono fun _ h => h.works).bind fun values => ?_
  have hbody : ∀ n, UsesCode Op.Native (runBody s options inputs preallocated n) := fun n => by
    refine .bind (.forEach (runCreate_uses s inputs preallocated) _) fun _ =>
      .bind (runCall_uses s options) fun _ => ?_
    split
    · exact .forEach (runOutput_uses s) _
    · exact .pure ()
  split
  · exact (Uses.perform trivial).bind fun _ => trivial
  · refine ((hbody _ _).mono fun _ h => h.works).bind fun res => ?_
    obtain ⟨vars, res⟩ := res
    refine ((Uses.fold (fun i _ => runRelease_uses vars.values i) _ ()).mono fun _ h => h.works).bind
      fun _ => (freePtr_uses _ fun _ => trivial).bind fun _ => ?_
    split
    · trivial
    · exact ((ocOutputsFree_uses s _).mono fun _ h => h.works).bind fun _ => trivial
    · trivial

namespace Session

theorem collectOutput_works (output : OcTensor) : UsesCode Op.Works (collectOutput output) := by
  unfold collectOutput
  refine .bind (.lift (goSlice_uses _ _ fun _ => trivial)) fun shape => ?_
  dsimp only
  split
  · exact .fail _
  refine .bind .get fun result => ?_
  split
  · exact .fail _
  refine .bind ?_ fun _ => .bind (.lift (.perform trivial)) fun _ =>
    .bind (.lift (.perform trivial)) fun _ => .bind (.lift (.perform trivial)) fun _ => .modify _
  split
  · exact .lift (fault_uses _ trivial)
  · exact .pure ()

theorem collect_works (ctx : Ctx) (r : Option OcRuntime) (into : Bool) (status : Option OrtStatus)
    (outs : List OcTensor) : Uses Op.Works (collect ctx r into status outs) := by
  refine ((nativeError_uses r _).mono fun _ h => h.works).bind fun err =>
    (Uses.perform trivial).bind fun e => ?_
  split
  · refine (Uses.perform trivial).bind fun e => ?_
    split <;> trivial
  split
  · trivial
  split
  · trivial
  exact (UsesCode.forEach collectOutput_works outs []).bind fun _ => trivial

variable (s : Session) (ctx : Ctx) (inputs outputs : List Tensor) (into : Bool)

theorem runNative_works (r : Option OcRuntime) (options : Option Handle)
    (descriptors : List OcTensor) : Uses Op.Works (s.runNative ctx r options into descriptors) := by
  unfold runNative
  split
  · exact fault_uses _ trivial
  refine (Uses.perform trivial).bind fun n => (deref_uses _ fun _ => trivial).bind fun native => ?_
  split
  · exact (cgo_uses trivial trivial ((Bridge.run_works ..).bind fun _ => .pure _)).bind fun status =>
      collect_works ..
  · refine (cgo_uses trivial trivial ((Bridge.run_works ..).bind fun _ =>
      (deref_uses _ fun _ => trivial).bind fun _ => .pure _)).bind fun res => ?_
    obtain ⟨status, out⟩ := res
    exact (Uses.perform trivial).bind fun n => (deref_uses _ fun _ => trivial).bind fun native =>
      .deferring (cgo_uses trivial trivial
        (((Bridge.ocOutputsFree_uses ..).mono fun _ h => h.works).bind fun _ => .pure _))
        (collect_works ..)

omit [Platform] in
/-- `finish`, of two callbacks. -/
theorem finish_twin (r : OcRuntime) (options : Handle) (id id' : Nat) :
    Lockstep Corresponds (fun _ _ => True) (finish r options id) (finish r options id') := by
  refine (Lockstep.perform (Corresponds.stop id id')).bind fun stopped stopped' h => ?_
  obtain rfl : stopped = stopped' := h
  refine Lockstep.bind (Q := fun _ _ => True) ?_ fun _ _ _ =>
    twin_cleanup (cgo_uses not_false not_false (.perform not_false))
  split
  · exact .pure trivial
  · exact .perform (Corresponds.recvDone id id')

theorem runPinned_twin (descriptors : List OcTensor) :
    Lockstep Corresponds Eq (s.runPinned ctx inputs outputs into descriptors)
      (s.runPinned ctx inputs outputs into descriptors) := by
  unfold runPinned
  refine (twin_self ((UsesCode.forEach fillDescriptor_uses _ _).mono fun _ h => h.works)).bind
    fun res res' h => ?_
  obtain rfl : res = res' := h
  obtain ⟨st, res⟩ := res
  cases res with
  | error err => exact .pure rfl
  | ok a =>
  refine (twin_perform (by exact not_false)).bind fun r r' h => ?_
  obtain rfl : r = r' := h
  split
  · -- `finish` is part of the answer of `watchContext`
    simp only [watchContext, Prog.bind_assoc]
    refine (twin_self (deref_uses _ fun _ => trivial)).bind fun native native' h => ?_
    obtain rfl : native = native' := h
    refine (twin_self (cgo_uses trivial trivial (.perform (by trivial)))).bind fun x x' h => ?_
    obtain rfl : x = x' := h
    refine (twin_self ((nativeError_uses r x).mono fun _ h => h.works)).bind fun res res' h => ?_
    obtain rfl : res = res' := h
    cases res with
    | error err => exact .pure rfl
    | ok options =>
      exact .op (.afterFunc ctx native options) fun id id' _ =>
        .deferring (finish_twin native options id id') (twin_self (runNative_works ..))
  · exact twin_self (runNative_works ..)

/-- The buffers of two runs. -/
theorem runBuffered_twin :
    Lockstep Corresponds Eq (s.runBuffered ctx inputs outputs into)
      (s.runBuffered ctx inputs outputs into) := by
  unfold runBuffered
  refine (Lockstep.perform Corresponds.get).bind fun b b' h => ?_
  dsimp only
  rw [h.1.slots, h.2.slots]
  refine .deferring (.perform (Corresponds.put (h.1.cleared _) (h.2.cleared _))) ?_
  exact .deferring (twin_cleanup (.perform (by exact not_false))) (runPinned_twin ..)

theorem runLocked_twin :
    Lockstep Corresponds Eq (s.runLocked ctx inputs outputs into)
      (s.runLocked ctx inputs outputs into) := by
  have hgated : Lockstep Corresponds Eq (s.runGated ctx inputs outputs into)
      (s.runGated ctx inputs outputs into) := by
    unfold runGated
    repeat' split
    all_goals first
      | exact runBuffered_twin ..
      | exact .pure rfl
  unfold runLocked
  refine (twin_perform (by exact not_false)).bind fun n n' h => ?_
  obtain rfl : n = n' := h
  cases n with
  | none => exact .pure rfl
  | some n =>
  dsimp only
  split
  · refine (twin_perform (by exact not_false)).bind fun sent sent' h => ?_
    obtain rfl : sent = sent' := h
    split
    · refine .deferring (twin_cleanup (.perform (by exact not_false))) ?_
      refine (twin_perform (by exact not_false)).bind fun e e' h => ?_
      obtain rfl : e = e' := h
      cases e with
      | some e => exact .pure rfl
      | none => exact hgated
    · refine (twin_perform (by exact not_false)).bind fun e e' h => ?_
      obtain rfl : e = e' := h
      cases e <;> exact .pure rfl
  · exact hgated

end Session

/-- **Two runs of one request** keep step. -/
theorem run_twin (q : Request) : Lockstep Corresponds Eq q.prog q.prog := by
  unfold Request.prog Session.run
  refine (twin_perform (by exact not_false)).bind fun e e' h => ?_
  obtain rfl : e = e' := h
  cases e with
  | some e => exact .pure rfl
  | none =>
    refine (twin_perform (by exact not_false)).bind fun _ _ _ => ?_
    exact .deferring (twin_cleanup (.perform (by exact not_false))) (Session.runLocked_twin ..)

end

end

end Onnxcraft
