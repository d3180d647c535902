import Onnxcraft.Model.Ops

/-!
# bridge.c

The C functions of the bridge, off Windows. The code before a `fail:` label is a `CCode` over the
local variables the label's code reads; `CHECK(call)` is `.check`. The parameter `r` of functions
that use it only to reach the API table is left out.
-/

namespace Onnxcraft.Bridge

open Effect

section
variable [Platform]

/-! ## Runtimes -/

/-- `oc_close`. -/
def ocClose : Option OcRuntime → Act Unit
  | none => return ()
  | some r => do
    whenSome r.memory fun m => nat (.releaseMemoryInfo m)
    whenSome r.env fun e => nat (.releaseEnv e)
    whenSome r.library fun l => nat (.dlclose l)
    nat (.free r.addr)

/-- `*error = strdup(text)`. -/
def strdup (text : GoString) : Act (Option CStr) := do
  return (← nat (.strdup text)).map fun p => ⟨p, text⟩

/-- The initialisation chain of `oc_open`, over `*r`. -/
def ocOpenInit : CCode OcRuntime Unit := do
  let env ← .check (nat .createEnv)
  .modify fun r => { r with env := some env }
  .check (nat (.disableTelemetryEvents (some env)))
  let memory ← .check (nat .createCpuMemoryInfo)
  .modify fun r => { r with memory := some memory }
  let allocator ← .check (nat .getAllocatorWithDefaultOptions)
  .modify fun r => { r with allocator := some allocator }

/-- `*error = strdup(text)` and the label `fail` of `oc_open`. -/
def ocOpenFail (r : OcRuntime) (text : GoString) : Act (Except (Int × Option CStr) OcRuntime) := do
  let error ← strdup text
  ocClose (some r)
  return .error (-1, error)

/-- `oc_open`: the returned code with `*error`, or `*out` for code 0. -/
def ocOpen (path : CStr) : Act (Except (Int × Option CStr) OcRuntime) := do
  match ← nat (.calloc 1 (6 * pointerBytes)) with
  | none => return .error (-1, ← strdup (ascii "allocate runtime: out of memory"))
  | some addr =>
    let r : OcRuntime := ⟨addr, none, none, none, none, none, []⟩
    match ← nat (.dlopen path.text) with
    | none => do ocOpenFail r (← nat .dlerror)
    | some library =>
      let r := { r with library := some library }
      if !(← nat (.dlsym library)) then
        ocOpenFail r (ascii "shared library does not export OrtGetApiBase")
      else
        match ← nat .getApiBase with
        | none => ocOpenFail r (ascii "ONNX Runtime must support C API version 29 (1.29 or newer)")
        | some base =>
          match ← nat (.getApi base) with
          | none =>
            ocOpenFail r (ascii "ONNX Runtime must support C API version 29 (1.29 or newer)")
          | some api =>
            let version ← nat (.getVersionString base)
            match ← ocOpenInit { r with api := some api, version } with
            | (r, .ok _) => return .ok r
            | (r, .error status) => do
              let code ← nat (.getErrorCode status)
              let error ← strdup (← nat (.getErrorMessage status))
              nat (.releaseStatus status)
              ocClose (some r)
              return .error (code, error)

/-! ## Session options -/

def levels : List GraphOptimizationLevel := [.enableAll, .disableAll, .enableBasic, .enableExtended]

/-- `oc_options_new` before `fail:`, over `o`. -/
def ocOptionsNewBody (config : OcOptions) : CCode (Option Handle) Handle := do
  let o ← .check (nat .createSessionOptions)
  .modify fun _ => some o
  .check (nat (.setIntraOpNumThreads o config.intraThreads))
  .check (nat (.setInterOpNumThreads o config.interThreads))
  .check (nat (.setSessionExecutionMode o (if config.parallel then .parallel else .sequential)))
  let level ← .lift (rd levels config.optimization)
  .check (nat (.setSessionGraphOptimizationLevel o level))
  return o

/-- `oc_options_new`. -/
def ocOptionsNew (config : OcOptions) : Act (Fallible Handle) := do
  match ← ocOptionsNewBody config none with
  | (_, .ok o) => return .ok o
  | (o, .error status) => do
    whenSome o fun o => nat (.releaseSessionOptions o)
    return .error status

/-- `oc_config`. -/
def ocConfig (o : Handle) (key value : CStr) : Act (Fallible Unit) :=
  nat (.addSessionConfigEntry o key value)

/-- The branches of `oc_provider` with an options object: create, update, append, release. -/
def ocProviderV2 (create : Act (Fallible Handle)) (update append : Handle → Act (Fallible Unit))
    (release : Handle → Act Unit) : Act (Fallible Unit) := do
  let (p, status) ← (do
    let p ← .check create
    .modify fun _ => some p
    .check (update p)
    .check (append p) : CCode (Option Handle) Unit) none
  whenSome p release
  return status

/-- `oc_provider`. -/
def ocProvider (o : Handle) (name : CStr) (keys values : List CStr) : Act (Fallible Unit) :=
  if name.text = ascii "CUDA" then
    ocProviderV2 (nat .createCUDAProviderOptions)
      (fun p => nat (.updateCUDAProviderOptions p keys values))
      (fun p => nat (.appendExecutionProviderCUDAV2 o p))
      (fun p => nat (.releaseCUDAProviderOptions p))
  else if name.text = ascii "TensorRT" then
    ocProviderV2 (nat .createTensorRTProviderOptions)
      (fun p => nat (.updateTensorRTProviderOptions p keys values))
      (fun p => nat (.appendExecutionProviderTensorRTV2 o p))
      (fun p => nat (.releaseTensorRTProviderOptions p))
  else if name.text = ascii "OpenVINO" then
    nat (.appendExecutionProviderOpenVINOV2 o keys values)
  else
    nat (.appendExecutionProvider o name keys values)

/-- `oc_options_free`. -/
def ocOptionsFree (o : Handle) : Act Unit := nat (.releaseSessionOptions o)

/-! ## Sessions -/

/-- One iteration of the loop of `oc_session_free`. -/
def ocSessionFreePort (ports : List OcPort) (i : Nat) : Act Unit := do
  let p ← rd ports i
  whenSome p.name fun name => nat (.allocatorFree name)
  freePtr (p.shape.map (·.addr))

/-- `oc_session_free`. -/
def ocSessionFree : Option OcSession → Act Unit
  | none => return ()
  | some s => do
    whenSome s.handle fun h => nat (.releaseSession h)
    whenSome s.ports fun ports =>
      .fold (fun i _ => ocSessionFreePort ports.slots i)
        (List.range (sizeMod (s.inputs + s.outputs))) ()
    freePtr (s.ports.map (·.addr))
    freePtr (s.names.map (·.addr))
    nat (.free s.addr)

/-- The local variables of `oc_load` that `fail:` reads: `*s` and `info`. -/
structure LoadVars where
  s : OcSession
  info : Option Handle

/-- `s->ports[i] = p`. -/
def LoadVars.setPort (v : LoadVars) (i : Nat) (p : OcPort) : LoadVars :=
  { v with s := { v.s with ports := v.s.ports.map fun a => { a with slots := a.slots.set i p } } }

/-- `s->names[i] = name`. -/
def LoadVars.setName (v : LoadVars) (i : Nat) (name : CStr) : LoadVars :=
  { v with
    s := { v.s with names := v.s.names.map fun a => { a with slots := a.slots.set i (some name) } } }

/-- The name of port `i`, from the inputs or from the outputs. -/
def portName (h : Handle) (inputs i : Nat) : Act (Fallible CStr) :=
  if i < inputs then nat (.sessionGetInputName h i) else nat (.sessionGetOutputName h (i - inputs))

/-- The type info of port `i`. -/
def portTypeInfo (h : Handle) (inputs i : Nat) : Act (Fallible Handle) :=
  if i < inputs then nat (.sessionGetInputTypeInfo h i)
  else nat (.sessionGetOutputTypeInfo h (i - inputs))

/-- The dimensions of port `p`, when it has any. -/
def ocLoadShape (i : Nat) (p : OcPort) (tensor : Handle) : CCode LoadVars Unit := do
  let addr ← .lift (if p.rank > sizeMax / 8 then return none else nat (.malloc (p.rank * 8)))
  match addr with
  | none =>
    .fail (← .lift (nat (.createStatus OrtErrorCode.fail.code
      (ascii "allocate tensor dimensions: out of memory"))))
  | some addr => do
    .modify (·.setPort i { p with shape := some ⟨addr, []⟩ })
    let dims ← .check (nat (.getDimensions tensor p.rank))
    .modify (·.setPort i { p with shape := some ⟨addr, dims⟩ })

/-- One iteration of the loop of `oc_load`. -/
def ocLoadPort (h : Handle) (inputs i : Nat) : CCode LoadVars Unit := do
  let v ← .get
  let ports ← .lift (deref v.s.ports)
  let names ← .lift (deref v.s.names)
  let p ← .lift (rd ports.slots i)
  let name ← .check (portName h inputs i)
  let p := { p with name := some name }
  .modify (·.setPort i p)
  let info ← .check (portTypeInfo h inputs i)
  .modify fun v => { v with info := some info }
  let _ ← .lift (wr names.slots i (some name))
  .modify (·.setName i name)
  let kind ← .check (nat (.getOnnxTypeFromTypeInfo info))
  if kind ≠ .tensor then
    .fail (← .lift (nat (.createStatus OrtErrorCode.notImplemented.code
      (ascii "model inputs and outputs must be dense tensors"))))
  else do
    let tensor ← .check (nat (.castTypeInfoToTensorInfo info))
    let type ← .check (nat (.getTensorElementType tensor))
    let p := { p with type := type.code }
    .modify (·.setPort i p)
    let rank ← .check (nat (.getDimensionsCount tensor))
    let p := { p with rank }
    .modify (·.setPort i p)
    (if rank ≠ 0 then ocLoadShape i p tensor else pure ())
    .lift (nat (.releaseTypeInfo info))
    .modify fun v => { v with info := none }

/-- `sizeof(oc_port)`. -/
def portBytes : Nat := 4 * pointerBytes

/-- The allocation of the metadata in `oc_load`. -/
def ocLoadMetadata (n : Nat) : CCode LoadVars Unit := do
  let ports ← .lift (nat (.calloc n portBytes))
  .modify fun v => { v with
    s := { v.s with ports := ports.map fun p => ⟨p, List.replicate n OcPort.zero⟩ } }
  let names ← .lift (nat (.calloc n pointerBytes))
  .modify fun v => { v with
    s := { v.s with names := names.map fun p => ⟨p, List.replicate n none⟩ } }
  if ports.isNone || names.isNone then
    .fail (← .lift (nat (.createStatus OrtErrorCode.fail.code
      (ascii "allocate model metadata: out of memory"))))
  else pure ()

/-- `oc_load` before `fail:`. -/
def ocLoadBody (r : OcRuntime) (path : Option CStr) (data : List UInt8) (options : Handle) :
    CCode LoadVars Unit := do
  let h ← .check (match path with
    | some path => nat (.createSession r.env path options)
    | none => nat (.createSessionFromArray r.env data options))
  .modify fun v => { v with s := { v.s with handle := some h } }
  let inputs ← .check (nat (.sessionGetInputCount h))
  .modify fun v => { v with s := { v.s with inputs } }
  let outputs ← .check (nat (.sessionGetOutputCount h))
  .modify fun v => { v with s := { v.s with outputs } }
  let n := sizeMod (inputs + outputs)
  if n < inputs ∨ outputs = 0 ∨ n > sizeMax / portBytes then
    .fail (← .lift (nat (.createStatus OrtErrorCode.fail.code
      (ascii "invalid model input/output count"))))
  else do
    ocLoadMetadata n
    .forEach (ocLoadPort h inputs) (List.range n)

/-- `*s` as `calloc` leaves it, with its runtime. -/
def newSession (addr : Handle) (r : OcRuntime) : OcSession := ⟨addr, r, none, 0, 0, none, none⟩

/-- `oc_load`. -/
def ocLoad (r : OcRuntime) (path : Option CStr) (data : List UInt8) (options : Handle) :
    Act (Fallible OcSession) := do
  match ← nat (.calloc 1 (6 * pointerBytes)) with
  | none =>
    return .error (← nat (.createStatus OrtErrorCode.fail.code
      (ascii "allocate session: out of memory")))
  | some addr =>
    match ← ocLoadBody r path data options ⟨newSession addr r, none⟩ with
    | (v, .ok _) => return .ok v.s
    | (v, .error status) => do
      whenSome v.info fun info => nat (.releaseTypeInfo info)
      ocSessionFree (some v.s)
      return .error status

/-! ## Runs -/

/-- One iteration of `oc_outputs_free`. -/
def ocOutputsFreeSlot (i : Nat) (outputs : List OcTensor) : Act (List OcTensor) := do
  let t ← rd outputs i
  whenSome t.value fun v => nat (.releaseValue v)
  return outputs.set i OcTensor.zero

/-- `oc_outputs_free`: what it leaves in the descriptors. -/
def ocOutputsFree (s : OcSession) (outputs : List OcTensor) : Act (List OcTensor) :=
  .fold ocOutputsFreeSlot (List.range s.outputs) outputs

/-- The local variables of `run` that `fail:` reads: `values`, and the output descriptors
(`none` for a NULL pointer). -/
structure RunVars where
  values : List (Option Handle)
  outputs : Option (List OcTensor)

/-- The values array: `local` (no base) or a zeroed heap array. -/
def runValues (n : Nat) : Act (Option (Option Handle × List (Option Handle))) :=
  if n ≤ 16 then return some (none, List.replicate 16 none)
  else do return (← nat (.calloc n pointerBytes)).map fun p => (some p, List.replicate n none)

/-- One iteration of the first loop of `run`. -/
def runCreate (s : OcSession) (inputs : List OcTensor) (preallocated : Option (List OcTensor))
    (i : Nat) : CCode RunVars Unit :=
  -- `break`: every later iteration would end here as well
  if s.inputs ≤ i ∧ preallocated.isNone then pure ()
  else do
    let t ← .lift (if i < s.inputs then rd inputs i
      else do rd (← deref preallocated) (i - s.inputs))
    let v ← .check (nat (.createTensorWithDataAsOrtValue s.runtime.memory
      (if t.bytes ≠ 0 then t.data else Platform.emptyAddr) t.bytes t.shape t.rank t.type))
    let vars ← .get
    let values ← .lift (wr vars.values i (some v))
    .modify fun vars => { vars with values }

/-- ORT's `Run` writes the slots that were NULL. -/
def fill (slots filled : List (Option Handle)) : List (Option Handle) :=
  slots.zipWith Option.or filled

/-- The call of `Run`. -/
def runCall (s : OcSession) (options : Option Handle) : CCode RunVars Unit := do
  let vars ← .get
  let names ← .lift (deref s.names)
  let inputNames ← .lift (slice names.slots 0 s.inputs)
  let inputs ← .lift (slice vars.values 0 s.inputs)
  let outputNames ← .lift (slice names.slots s.inputs s.outputs)
  let outputs ← .lift (slice vars.values s.inputs s.outputs)
  let reply ← .lift (nat (.run s.handle options inputNames inputs outputNames outputs))
  .modify fun vars => { vars with
    values := vars.values.take s.inputs ++ fill outputs reply.filled ++
      vars.values.drop (s.inputs + s.outputs) }
  match reply.status with
  | none => pure ()
  | some status => .fail status

/-- `outputs[i] = t`. -/
def RunVars.setOutput (v : RunVars) (i : Nat) (t : OcTensor) : RunVars :=
  { v with outputs := v.outputs.map (·.set i t) }

/-- One iteration of the last loop of `run`. -/
def runOutput (s : OcSession) (i : Nat) : CCode RunVars Unit := do
  let vars ← .get
  let outputs ← .lift (deref vars.outputs)
  let t ← .lift (rd outputs i)
  let value ← .lift (rd vars.values (s.inputs + i))
  let t := { t with value }
  .modify fun vars => { vars.setOutput i t with values := vars.values.set (s.inputs + i) none }
  let memory ← .check (nat (.getTensorMemoryInfo value))
  let device ← .lift (nat (.memoryInfoGetDeviceType memory))
  if device ≠ .cpu then
    .fail (← .lift (nat (.createStatus OrtErrorCode.notImplemented.code
      (ascii "output tensor is not in CPU memory"))))
  else do
    let (type, shape) ← .check (nat (.getTensorElementTypeAndShapeDataReference value))
    let t := { t with type := type.code, shape, rank := shape.length }
    .modify (·.setOutput i t)
    let bytes ← .check (nat (.getTensorSizeInBytes value))
    let t := { t with bytes }
    .modify (·.setOutput i t)
    let data ← .check (nat (.getTensorMutableData value))
    .modify (·.setOutput i { t with data })

/-- `run` before `fail:`. -/
def runBody (s : OcSession) (options : Option Handle) (inputs : List OcTensor)
    (preallocated : Option (List OcTensor)) (n : Nat) : CCode RunVars Unit := do
  .forEach (runCreate s inputs preallocated) (List.range n)
  runCall s options
  (if preallocated.isNone then .forEach (runOutput s) (List.range s.outputs) else pure ())

/-- One iteration of the loop at `fail:`. -/
def runRelease (values : List (Option Handle)) (i : Nat) : Act Unit := do
  whenSome (← rd values i) fun v => nat (.releaseValue v)

/-- `run`: the status, and what it leaves in the output descriptors. -/
def run (s : OcSession) (options : Option Handle) (inputs : List OcTensor)
    (preallocated outputs : Option (List OcTensor)) :
    Act (Option OrtStatus × Option (List OcTensor)) := do
  let n := sizeMod (s.inputs + s.outputs)
  match ← runValues n with
  | none =>
    return (some (← nat (.createStatus OrtErrorCode.fail.code
      (ascii "allocate run values: out of memory"))), outputs)
  | some (base, values) =>
    let (vars, res) ← runBody s options inputs preallocated n ⟨values, outputs⟩
    .fold (fun i _ => runRelease vars.values i) (List.range n) ()
    freePtr base
    match res, vars.outputs with
    | .ok _, outputs => return (none, outputs)
    | .error status, some outputs => return (some status, some (← ocOutputsFree s outputs))
    | .error status, none => return (some status, none)

/-- `oc_run`. -/
def ocRun (s : OcSession) (options : Option Handle) (inputs outputs : List OcTensor) :
    Act (Option OrtStatus × List OcTensor) := do
  let (status, outputs) ← run s options inputs none (some outputs)
  return (status, ← deref outputs)

/-- `oc_run_into`. -/
def ocRunInto (s : OcSession) (options : Option Handle) (inputs outputs : List OcTensor) :
    Act (Option OrtStatus) := do
  return (← run s options inputs (some outputs) none).1

/-- `oc_run_options`. -/
def ocRunOptions : Act (Fallible Handle) := nat .createRunOptions

/-- `oc_terminate`. -/
def ocTerminate (options : Handle) : Act Unit := do
  match ← nat (.runOptionsSetTerminate options) with
  | .error status => nat (.releaseStatus status)
  | .ok _ => return ()

/-- `oc_run_options_free`. -/
def ocRunOptionsFree (options : Handle) : Act Unit := nat (.releaseRunOptions options)

end

end Onnxcraft.Bridge
