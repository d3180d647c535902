import Onnxcraft.Effect.Wp
import Onnxcraft.Model.Types

/-!
# The operations of the binding

Every step of the code that another goroutine, the C heap or ONNX Runtime can see is an operation
with a typed answer. `SessOp` and `RtOp` act on the mutable fields of one `Session` and one
`Runtime`, `PoolOp` on the descriptor pool, `CbOp` on the callback and the `done` channel of
`watchContext`, `MemOp` on Go memory, `NativeOp` are the calls of the ORT C API and of the C heap.
`enter` and `leave` bracket every cgo call. A fault (an index out of range, a nil pointer
dereferenced) is an operation without an answer.

A fallible call of the C API answers `Except OrtStatus _`: an error carries the non-NULL status,
and the out-parameter is written on success only. `Run` alone may fail after it has filled
output slots.
-/

namespace Onnxcraft

open Effect

inductive SessOp where
  | rLock
  | rUnlock
  /-- The first half of `Lock`: excludes other writers and new readers. -/
  | lock
  /-- The second half of `Lock`: waits for the readers. -/
  | lockWait
  | unlock
  | getNative
  | clearNative
  /-- `select { case s.gate <- struct{}{}: … case <-ctx.Done(): … }`: whether it sent. -/
  | gateSelect (c : Ctx)
  | gateRecv
  deriving DecidableEq, Repr

@[reducible] def SessOp.Resp : SessOp → Type
  | .getNative => Option OcSession
  | .gateSelect _ => Bool
  | _ => Unit

inductive RtOp where
  | lock
  | unlock
  | getClosed
  | setClosed
  | getNative
  | clearNative
  | incRefs
  /-- `r.refs--`, answering what is left; `owner` names the session whose reference it is, `none`
  the runtime's own (history only, no code reads it). -/
  | decRefs (owner : Option Nat)
  deriving DecidableEq, Repr

@[reducible] def RtOp.Resp : RtOp → Type
  | .getClosed => Bool
  | .getNative => Option OcRuntime
  | .decRefs _ => Int
  | _ => Unit

inductive PoolOp where
  | get
  | put (b : Buffer)
  deriving DecidableEq, Repr

@[reducible] def PoolOp.Resp : PoolOp → Type
  | .get => Buffer
  | .put _ => Unit

/-- The callback registered by `context.AfterFunc` and its `done` channel. -/
inductive CbOp where
  | afterFunc (c : Ctx) (r : OcRuntime) (options : Handle)
  | stop (id : Nat)
  | recvDone (id : Nat)
  | closeDone (id : Nat)
  deriving DecidableEq, Repr

@[reducible] def CbOp.Resp : CbOp → Type
  | .afterFunc _ _ _ => Nat
  | .stop _ => Bool
  | _ => Unit

inductive MemOp where
  /-- `make([]uint64, words)`: the address of the storage. -/
  | make (words : Nat)
  | load (p n : Nat)
  | store (p : Nat) (bs : List UInt8)
  | pinShape (shape : List Int)
  | pin (p : Nat)
  | unpin
  deriving DecidableEq, Repr

@[reducible] def MemOp.Resp : MemOp → Type
  | .make _ => Nat
  | .load _ _ => List UInt8
  | _ => Unit

/-- The outcome of ORT's `Run`: the status, the values put into the output slots that were NULL,
and, for the record, whether the terminate flag made it abort and what it wrote into the storage of
preallocated outputs. -/
structure RunReply where
  status : Option OrtStatus
  filled : List (Option Handle)
  aborted : Bool
  writes : List (Nat × List UInt8)
  deriving DecidableEq, Repr

inductive NativeOp where
  -- the C heap
  | malloc (size : Nat)
  | calloc (count size : Nat)
  | free (p : Handle)
  | strdup (text : GoString)
  | cString (text : GoString)
  -- the shared library
  | dlopen (path : GoString)
  | dlerror
  | dlsym (library : Handle)
  | dlclose (library : Handle)
  | getApiBase
  | getApi (base : Handle)
  | getVersionString (base : Handle)
  | createEnv
  | disableTelemetryEvents (env : Option Handle)
  | createCpuMemoryInfo
  | getAllocatorWithDefaultOptions
  | releaseMemoryInfo (memory : Handle)
  | releaseEnv (env : Handle)
  -- statuses
  | createStatus (code : Int) (message : GoString)
  | getErrorCode (status : OrtStatus)
  | getErrorMessage (status : OrtStatus)
  | releaseStatus (status : OrtStatus)
  -- session options
  | createSessionOptions
  | setIntraOpNumThreads (o : Handle) (n : Int)
  | setInterOpNumThreads (o : Handle) (n : Int)
  | setSessionExecutionMode (o : Handle) (mode : ExecutionMode)
  | setSessionGraphOptimizationLevel (o : Handle) (level : GraphOptimizationLevel)
  | addSessionConfigEntry (o : Handle) (key value : CStr)
  | releaseSessionOptions (o : Handle)
  -- execution providers
  | createCUDAProviderOptions
  | updateCUDAProviderOptions (p : Handle) (keys values : List CStr)
  | appendExecutionProviderCUDAV2 (o p : Handle)
  | releaseCUDAProviderOptions (p : Handle)
  | createTensorRTProviderOptions
  | updateTensorRTProviderOptions (p : Handle) (keys values : List CStr)
  | appendExecutionProviderTensorRTV2 (o p : Handle)
  | releaseTensorRTProviderOptions (p : Handle)
  | appendExecutionProviderOpenVINOV2 (o : Handle) (keys values : List CStr)
  | appendExecutionProvider (o : Handle) (name : CStr) (keys values : List CStr)
  -- sessions
  | createSession (env : Option Handle) (path : CStr) (options : Handle)
  | createSessionFromArray (env : Option Handle) (data : List UInt8) (options : Handle)
  | releaseSession (h : Handle)
  | sessionGetInputCount (h : Handle)
  | sessionGetOutputCount (h : Handle)
  | sessionGetInputName (h : Handle) (i : Nat)
  | sessionGetOutputName (h : Handle) (i : Nat)
  | allocatorFree (name : CStr)
  | sessionGetInputTypeInfo (h : Handle) (i : Nat)
  | sessionGetOutputTypeInfo (h : Handle) (i : Nat)
  | getOnnxTypeFromTypeInfo (info : Handle)
  | castTypeInfoToTensorInfo (info : Handle)
  | getTensorElementType (tensor : Handle)
  | getDimensionsCount (tensor : Handle)
  | getDimensions (tensor : Handle) (rank : Nat)
  | releaseTypeInfo (info : Handle)
  -- runs
  | createRunOptions
  | runOptionsSetTerminate (o : Handle)
  | releaseRunOptions (o : Handle)
  | createTensorWithDataAsOrtValue (memory : Option Handle) (data bytes : Nat) (shape : List Int)
      (rank type : Nat)
  | run (session options : Option Handle) (inputNames : List (Option CStr))
      (inputs : List (Option Handle)) (outputNames : List (Option CStr))
      (outputs : List (Option Handle))
  | getTensorMemoryInfo (v : Option Handle)
  | memoryInfoGetDeviceType (memory : Handle)
  | getTensorElementTypeAndShapeDataReference (v : Option Handle)
  | getTensorSizeInBytes (v : Option Handle)
  | getTensorMutableData (v : Option Handle)
  | releaseValue (v : Handle)
  deriving DecidableEq, Repr

/-- A call that answers a status, or on success an `α`. -/
abbrev Fallible (α : Type) := Except OrtStatus α

@[reducible] def NativeOp.Resp : NativeOp → Type
  | .malloc _ | .calloc _ _ | .strdup _ | .dlopen _ | .getApiBase | .getApi _ => Option Handle
  | .cString _ => Handle
  | .dlerror | .getVersionString _ | .getErrorMessage _ => GoString
  | .dlsym _ => Bool
  | .createEnv | .createCpuMemoryInfo | .getAllocatorWithDefaultOptions
  | .createSessionOptions | .createCUDAProviderOptions | .createTensorRTProviderOptions
  | .createSession _ _ _ | .createSessionFromArray _ _ _
  | .sessionGetInputTypeInfo _ _ | .sessionGetOutputTypeInfo _ _ | .castTypeInfoToTensorInfo _
  | .createRunOptions | .createTensorWithDataAsOrtValue _ _ _ _ _ _
  | .getTensorMemoryInfo _ => Fallible Handle
  | .disableTelemetryEvents _ | .setIntraOpNumThreads _ _ | .setInterOpNumThreads _ _
  | .setSessionExecutionMode _ _ | .setSessionGraphOptimizationLevel _ _
  | .addSessionConfigEntry _ _ _ | .updateCUDAProviderOptions _ _ _
  | .appendExecutionProviderCUDAV2 _ _ | .updateTensorRTProviderOptions _ _ _
  | .appendExecutionProviderTensorRTV2 _ _ | .appendExecutionProviderOpenVINOV2 _ _ _
  | .appendExecutionProvider _ _ _ _ | .runOptionsSetTerminate _ => Fallible Unit
  | .createStatus _ _ => OrtStatus
  | .getErrorCode _ => Int
  | .sessionGetInputCount _ | .sessionGetOutputCount _ | .getDimensionsCount _
  | .getTensorSizeInBytes _ | .getTensorMutableData _ => Fallible Nat
  | .sessionGetInputName _ _ | .sessionGetOutputName _ _ => Fallible CStr
  | .getOnnxTypeFromTypeInfo _ => Fallible OnnxType
  | .getTensorElementType _ => Fallible ElementType
  | .getDimensions _ _ => Fallible (List Int)
  | .run _ _ _ _ _ _ => RunReply
  | .memoryInfoGetDeviceType _ => DeviceType
  | .getTensorElementTypeAndShapeDataReference _ => Fallible (ElementType × List Int)
  | .free _ | .dlclose _ | .releaseMemoryInfo _ | .releaseEnv _ | .releaseStatus _
  | .releaseSessionOptions _ | .releaseCUDAProviderOptions _ | .releaseTensorRTProviderOptions _
  | .releaseSession _ | .allocatorFree _ | .releaseTypeInfo _ | .releaseRunOptions _
  | .releaseValue _ => Unit

/-- The C functions of `bridge.h`, with the pointers they are given. -/
inductive CFunc where
  | ocOpen
  | ocClose (r : Option OcRuntime)
  | ocOptionsNew (r : OcRuntime)
  | ocConfig (r : OcRuntime)
  | ocProvider (r : OcRuntime)
  | ocOptionsFree (r : OcRuntime)
  | ocLoad (r : OcRuntime)
  | ocSessionFree (s : Option OcSession)
  | ocRun (s : OcSession)
  | ocRunInto (s : OcSession)
  | ocOutputsFree (s : OcSession)
  | ocRunOptions (r : OcRuntime)
  | ocTerminate (r : OcRuntime) (options : Handle)
  | ocRunOptionsFree (r : OcRuntime)
  | ocErrorCode (r : OcRuntime)
  | ocErrorMessage (r : OcRuntime)
  | ocErrorFree (r : OcRuntime)
  deriving DecidableEq, Repr

/-- The runtime a C function works on. -/
def CFunc.runtime : CFunc → Option OcRuntime
  | .ocOpen => none
  | .ocClose r => r
  | .ocOptionsNew r | .ocConfig r | .ocProvider r | .ocOptionsFree r | .ocLoad r
  | .ocRunOptions r | .ocTerminate r _ | .ocRunOptionsFree r
  | .ocErrorCode r | .ocErrorMessage r | .ocErrorFree r => some r
  | .ocSessionFree s => s.map (·.runtime)
  | .ocRun s | .ocRunInto s | .ocOutputsFree s => some s.runtime

inductive Fault where
  | outOfRange
  | nilDereference
  deriving DecidableEq, Repr

inductive Op where
  | sess (s : Nat) (o : SessOp)
  | rt (r : Nat) (o : RtOp)
  | newRuntime (native : OcRuntime)
  | newSession (runtime : Nat) (gated : Bool) (native : OcSession) (inputs outputs : List TensorInfo)
  | ctxErr (c : Ctx)
  | filepathAbs (path : GoString)
  | pool (o : PoolOp)
  | cb (o : CbOp)
  | mem (o : MemOp)
  | enter (f : CFunc)
  | leave (f : CFunc)
  | nat (o : NativeOp)
  | fault (f : Fault)
  deriving DecidableEq, Repr

@[reducible] def Op.Resp : Op → Type
  | .sess _ o => o.Resp
  | .rt _ o => o.Resp
  | .newRuntime _ => Nat
  | .newSession _ _ _ _ _ => Nat
  | .ctxErr _ => Option CtxError
  | .filepathAbs _ => Except GoError GoString
  | .pool o => o.Resp
  | .cb o => o.Resp
  | .mem o => o.Resp
  | .enter _ => Unit
  | .leave _ => Unit
  | .nat o => o.Resp
  | .fault _ => Empty

/-- Operations with their answers, in order. -/
abbrev Trace := List (Event Op Op.Resp)

/-- Code of the binding. -/
abbrev Act (α : Type) := Prog Op Op.Resp α

/-- C code with local variables and a `fail` label. -/
abbrev CCode (σ α : Type) := Code Op Op.Resp σ OrtStatus α

/-- Go code with local variables that may return early with an error. -/
abbrev GoCode (σ α : Type) := Code Op Op.Resp σ GoError α

section
variable {α : Type}

def sess (s : Nat) (o : SessOp) : Act o.Resp := Prog.perform (Op.sess s o)
def rt (r : Nat) (o : RtOp) : Act o.Resp := Prog.perform (Op.rt r o)
def ctxErr (c : Ctx) : Act (Option CtxError) := Prog.perform (Op.ctxErr c)
def pool (o : PoolOp) : Act o.Resp := Prog.perform (Op.pool o)
def cb (o : CbOp) : Act o.Resp := Prog.perform (Op.cb o)
def mem (o : MemOp) : Act o.Resp := Prog.perform (Op.mem o)
def nat (o : NativeOp) : Act o.Resp := Prog.perform (Op.nat o)

/-- A run-time panic or undefined behaviour: nothing follows. -/
def fault (f : Fault) : Act α := .op (.fault f) Empty.elim

/-- The pointer behind a non-NULL pointer. -/
def deref : Option α → Act α
  | some a => return a
  | none => fault .nilDereference

/-- `l[i]`. -/
def rd (l : List α) (i : Nat) : Act α :=
  match l[i]? with
  | some a => return a
  | none => fault .outOfRange

/-- `l[i] = a`. -/
def wr (l : List α) (i : Nat) (a : α) : Act (List α) :=
  if i < l.length then return l.set i a else fault .outOfRange

/-- The `n` elements from `l + i` that a callee reads. -/
def slice (l : List α) (i n : Nat) : Act (List α) :=
  if i + n ≤ l.length then return (l.drop i).take n else fault .outOfRange

/-- `unsafe.Slice` and `l[:n]`: a negative or too large length panics. -/
def goSlice (l : List α) (n : Int) : Act (List α) :=
  if n < 0 then fault .outOfRange else slice l 0 n.toNat

/-- `C.CString(text)`. -/
def cString (text : GoString) : Act CStr := do return ⟨← nat (.cString text), text⟩

/-- A cgo call. -/
def cgo (f : CFunc) (body : Act α) : Act α := do
  Prog.perform (Op.enter f)
  let a ← body
  Prog.perform (Op.leave f)
  return a

/-- `if (p) f(p);`. -/
def whenSome (p : Option α) (f : α → Act Unit) : Act Unit :=
  match p with
  | some p => f p
  | none => return ()

/-- `free(p)`: nothing for NULL. -/
def freePtr (p : Option Handle) : Act Unit := whenSome p fun p => nat (.free p)

end

end Onnxcraft
