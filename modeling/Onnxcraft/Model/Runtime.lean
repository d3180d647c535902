import Onnxcraft.Model.Bridge

/-!
# runtime.go

A deferred call is `deferring`, nested in the order of the `defer` statements; a function is cut
where it defers.
-/

namespace Onnxcraft

open Effect

section
variable [Platform] {α : Type}

/-- `strings.ContainsRune(s, 0)`. -/
def containsNul (s : GoString) : Bool := s.contains 0

/-- `C.GoString(p)`. -/
def goString (p : Option CStr) : GoString := p.elim [] (·.text)

/-- `nativeError`: a NULL status is a nil error. -/
def nativeError (r : Option OcRuntime) : Fallible α → Act (Except NativeError α)
  | .ok a => return .ok a
  | .error status => do
    let r ← deref r
    let code ← cgo (.ocErrorCode r) (nat (.getErrorCode status))
    let message ← cgo (.ocErrorMessage r) (nat (.getErrorMessage status))
    cgo (.ocErrorFree r) (nat (.releaseStatus status))
    return .error ⟨code, message⟩

/-- `Open` of a path without NUL. -/
def openPath (path : GoString) : Act (Except GoError Nat) := do
  let cpath ← cString path
  .deferring (nat (.free cpath.addr)) do
    match ← cgo .ocOpen (Bridge.ocOpen cpath) with
    | .error (code, message) =>
      .deferring (freePtr (message.map (·.addr))) do
        if code > 0 then return .error (.native ⟨code, goString message⟩)
        else return .error (.text "onnxcraft: open %q: %s" [.str path, .str (goString message)])
    | .ok ptr => return .ok (← Prog.perform (Op.newRuntime ptr))

/-- `Open`. -/
def openLibrary (libraryPath : GoString) : Act (Except GoError Nat) :=
  if libraryPath = [] ∨ containsNul libraryPath then
    return .error (.text "onnxcraft: library path must be nonempty and contain no NUL" [])
  else do
    match ← Prog.perform (Op.filepathAbs libraryPath) with
    | .error err => return .error err
    | .ok path => openPath path

namespace Runtime

/-- `Runtime.release`, of the reference that `owner` owns (`none`: the runtime's own). -/
def release (r : Nat) (owner : Option Nat) : Act Unit := do
  let refs ← rt r (.decRefs owner)
  if refs = 0 then
    let native ← rt r .getNative
    cgo (.ocClose native) (Bridge.ocClose native)
    rt r .clearNative
  else return ()

/-- `Runtime.Close` under `r.mu`. -/
def closeLocked (r : Nat) : Act Unit := do
  if !(← rt r .getClosed) then
    rt r .setClosed
    if (← rt r .getNative).isSome then release r none else return ()
  else return ()

/-- `Runtime.Close`. -/
def close (r : Nat) : Act Unit := do
  rt r .lock
  .deferring (rt r .unlock) (closeLocked r)

/-- `nativeError(r.native, C.f(r.native, …))`. -/
def native (r : Nat) (f : OcRuntime → CFunc) (body : OcRuntime → Act (Fallible α)) :
    Act (Except NativeError α) := do
  let errorRuntime ← rt r .getNative
  let native ← deref (← rt r .getNative)
  let x ← cgo (f native) (body native)
  nativeError errorRuntime x

/-- One iteration over `o.Config`. -/
def loadConfig (r : Nat) (raw : Handle) (entry : GoString × GoString) : GoCode Unit Unit :=
  let key := entry.1
  let value := entry.2
  if key = ascii "session.use_ort_model_bytes" ∨
      key = ascii "session.use_ort_model_bytes_for_initializers" then
    .fail (.text "onnxcraft: session config %q is incompatible with Go-owned model bytes" [.str key])
  else if key = [] ∨ containsNul key ∨ containsNul value then
    .fail (.text "onnxcraft: invalid session config key or value" [])
  else do
    let k ← .lift (cString key)
    let v ← .lift (cString value)
    let err ← .lift (native r .ocConfig fun _ => Bridge.ocConfig raw k v)
    .lift (nat (.free k.addr))
    .lift (nat (.free v.addr))
    match err with
    | .ok _ => pure ()
    | .error e => .fail (.wrap "onnxcraft: session config %q: %w" [.str key] (.native e))

/-- One iteration over `provider.Options`, over `keys` and `values`. -/
def addProviderOption (entry : GoString × GoString) : GoCode (List CStr × List CStr) Unit :=
  let key := entry.1
  let value := entry.2
  if (key = ascii "enable_cuda_graph" ∨ key = ascii "trt_cuda_graph_enable") ∧
      value ≠ ascii "0" then
    .fail (.text
      "onnxcraft: CUDA graph capture requires persistent device buffers and is not supported" [])
  else if key = [] ∨ containsNul key ∨ containsNul value then
    .fail (.text "onnxcraft: invalid execution provider option" [])
  else do
    let k ← .lift (cString key)
    .modify fun (keys, values) => (keys ++ [k], values)
    let v ← .lift (cString value)
    .modify fun (keys, values) => (keys, values ++ [v])

/-- `addProvider` between its second `defer` and its end. -/
def addProviderBody (r : Nat) (o : Handle) (provider : Provider) (name : CStr) :
    GoCode (List CStr × List CStr) Unit := do
  .forEach addProviderOption provider.options
  let (keys, values) ← .get
  match ← .lift (native r .ocProvider fun _ => Bridge.ocProvider o name keys values) with
  | .ok _ => pure ()
  | .error e => .fail (.wrap "onnxcraft: provider %q: %w" [.str provider.name] (.native e))

/-- One iteration of the deferred loop of `addProvider`. -/
def freeOption (keys values : List CStr) (i : Nat) : Act Unit := do
  let k ← rd keys i
  nat (.free k.addr)
  let v ← rd values i
  nat (.free v.addr)

/-- `addProvider`. -/
def addProvider (r : Nat) (o : Handle) (provider : Provider) : Act (Except GoError Unit) :=
  if provider.name = [] ∨ containsNul provider.name then
    return .error (.text "onnxcraft: invalid execution provider name" [])
  else do
    let name ← cString provider.name
    .deferring (nat (.free name.addr)) do
      let ((keys, values), res) ← addProviderBody r o provider name ([], [])
      .fold (fun i _ => freeOption keys values i) (List.range keys.length) ()
      return res

/-- One iteration over the ports, over `info`. -/
def loadPort (ptr : OcSession) (p : OcPort) : GoCode (List TensorInfo) Unit :=
  let dtype := DataType.ofCode p.type
  if dtype.size = 0 then do
    let name := goString p.name
    .lift (cgo (.ocSessionFree (some ptr)) (Bridge.ocSessionFree (some ptr)))
    .fail (.text "onnxcraft: %q has unsupported tensor type %d" [.str name, .int p.type])
  else do
    let shape ← .lift (goSlice (p.shape.elim [] (·.slots)) (toInt p.rank))
    .modify fun info => info ++ [⟨goString p.name, dtype, shape⟩]

/-- `load` once `oc_load` has returned a session. -/
def loadSession (r : Nat) (o : SessionOptions) (ptr : OcSession) : GoCode (List TensorInfo) Session :=
  do
    let slots := ptr.ports.elim [] (·.slots)
    let ports ← .lift (goSlice slots (toInt (sizeMod (ptr.inputs + ptr.outputs))))
    .forEach (loadPort ptr) ports
    let info ← .get
    .lift (rt r .incRefs)
    let inputs ← .lift (goSlice info (toInt ptr.inputs))
    let outputs := info.drop (toInt ptr.inputs).toNat
    let gated := o.providers ≠ []
    let id ← .lift (Prog.perform (Op.newSession r gated ptr inputs outputs))
    return ⟨id, r, gated, inputs, outputs⟩

/-- `load` once the options are complete: from `oc_load` on. -/
def loadModel (r : Nat) (cpath : Option CStr) (model : List UInt8) (o : SessionOptions)
    (raw : Handle) : Act (Except GoError Session) := do
  match ← native r .ocLoad fun native => Bridge.ocLoad native cpath model raw with
  | .error e => return .error (.wrap "onnxcraft: load model: %w" [] (.native e))
  | .ok ptr => (loadSession r o ptr).run []

/-- `load` after `defer C.oc_options_free`. -/
def loadOptions (r : Nat) (path : GoString) (model : List UInt8) (o : SessionOptions)
    (raw : Handle) : Act (Except GoError Session) := do
  match ← (Code.forEach (loadConfig r raw) o.config).run () with
  | .error err => return .error err
  | .ok _ =>
    match ← (Code.forEach (fun p => .check (addProvider r raw p)) o.providers :
        GoCode Unit Unit).run () with
    | .error err => return .error err
    | .ok _ =>
      if path = [] then loadModel r none model o raw
      else do
        let cpath ← cString path
        .deferring (nat (.free cpath.addr)) (loadModel r (some cpath) model o raw)

/-- `math.MaxInt32`. -/
def maxInt32 : Int := 2 ^ 31 - 1

/-- `OptimizeExtended`. -/
def optimizeExtended : UInt8 := 3

/-- `load` on an open runtime. -/
def loadOpen (r : Nat) (path : GoString) (model : List UInt8) (options : Option SessionOptions) :
    Act (Except GoError Session) := do
  let o := options.getD {}
  if o.intraOpThreads < 0 ∨ o.intraOpThreads > maxInt32 ∨ o.interOpThreads < 0 ∨
      o.interOpThreads > maxInt32 ∨ o.optimization > optimizeExtended then
    return .error (.text "onnxcraft: invalid thread count or graph optimization" [])
  else
    let config : OcOptions :=
      ⟨o.intraOpThreads, o.interOpThreads, o.parallel, o.optimization.toNat⟩
    match ← native r .ocOptionsNew fun _ => Bridge.ocOptionsNew config with
    | .error e => return .error (.native e)
    | .ok raw =>
      let native ← deref (← rt r .getNative)
      .deferring (cgo (.ocOptionsFree native) (Bridge.ocOptionsFree raw))
        (loadOptions r path model o raw)

/-- `load` under `r.mu`. -/
def loadLocked (r : Nat) (path : GoString) (model : List UInt8)
    (options : Option SessionOptions) : Act (Except GoError Session) := do
  if ← rt r .getClosed then return .error .closed
  else
    match ← rt r .getNative with
    | none => return .error .closed
    | some _ => loadOpen r path model options

/-- `Runtime.load`. -/
def load (r : Nat) (path : GoString) (model : List UInt8) (options : Option SessionOptions) :
    Act (Except GoError Session) := do
  rt r .lock
  .deferring (rt r .unlock) (loadLocked r path model options)

/-- `Runtime.Load`. -/
def loadFile (r : Nat) (path : GoString) (options : Option SessionOptions) :
    Act (Except GoError Session) :=
  if path = [] ∨ containsNul path then
    return .error (.text "onnxcraft: model path must be nonempty and contain no NUL" [])
  else load r path [] options

/-- `Runtime.LoadBytes`. -/
def loadBytes (r : Nat) (model : List UInt8) (options : Option SessionOptions) :
    Act (Except GoError Session) :=
  if model = [] then return .error (.text "onnxcraft: model is empty" [])
  else load r [] model options

end Runtime

end

end Onnxcraft
