import Onnxcraft.Model.Runtime
import Onnxcraft.Model.Tensor

/-!
# session.go

`Session.run` is cut where it defers: `runLocked` after `defer s.mu.RUnlock()`, `runGated` past
the gate, `runBuffered` once the descriptors are to be cleared and put back, `runPinned` after
`defer pins.Unpin()`, `runNative` after `defer finish()`, `collect` after the deferred
`oc_outputs_free`.
-/

namespace Onnxcraft

open Effect

section
variable [Platform]

/-! ## Cancellation -/

/-- The `finish` of `watchContext`: joins a started callback, then frees the options. -/
def finish (r : OcRuntime) (options : Handle) (id : Nat) : Act Unit := do
  let stopped ← cb (.stop id)
  (if stopped then return () else cb (.recvDone id))
  cgo (.ocRunOptionsFree r) (Bridge.ocRunOptionsFree options)

/-- `watchContext`: the options, and `finish`. -/
def watchContext (ctx : Ctx) (r : Option OcRuntime) :
    Act (Except NativeError (Handle × Act Unit)) := do
  let native ← deref r
  match ← nativeError r (← cgo (.ocRunOptions native) Bridge.ocRunOptions) with
  | .error err => return .error err
  | .ok options =>
    let id ← cb (.afterFunc ctx native options)
    return .ok (options, finish native options id)

/-- The function registered by `watchContext`, run in its own goroutine. -/
def callback (r : OcRuntime) (options : Handle) (id : Nat) : Act Unit := do
  cgo (.ocTerminate r options) (Bridge.ocTerminate options)
  cb (.closeDone id)

namespace Session

/-- `Session.Close`. -/
def close (s : Session) : Act Unit := do
  sess s.id .lock
  sess s.id .lockWait
  .deferring (sess s.id .unlock) do
    if (← sess s.id .getNative).isSome then
      let native ← sess s.id .getNative
      cgo (.ocSessionFree native) (Bridge.ocSessionFree native)
      sess s.id .clearNative
      rt s.runtime .lock
      Runtime.release s.runtime (some s.id)
      rt s.runtime .unlock
    else return ()

/-! ## The checks before native execution -/

/-- `[data, data + length * size)` as the code computes it. -/
def interval (t : Tensor) : Nat × Nat :=
  (t.data, sizeMod (t.data + toSize (wrapInt (t.length * t.dtype.size))))

/-- The overlap test of two tensors. -/
def overlaps (out other : Tensor) : Bool :=
  let (start, stop) := interval out
  let (p, q) := interval other
  start < stop && p < q && start < q && p < stop

/-- The overlap loops from output `i` on, after the outputs `done`: the first output found to
overlap. -/
def firstOverlap (inputs : List Tensor) (done : List Tensor) : List Tensor → Option Nat
  | [] => none
  | out :: rest =>
    if (inputs ++ done).any (overlaps out) then some done.length
    else firstOverlap inputs (done ++ [out]) rest

/-- The descriptor of a tensor. -/
def descriptor (t : Tensor) : OcTensor where
  data := t.data
  shape := t.shape
  bytes := toSize (wrapInt (t.length * t.dtype.size))
  rank := t.shape.length
  type := t.dtype.val.toNat
  value := none

/-- One iteration of the loop that fills the descriptors, over `descriptors` and `index`. -/
def fillDescriptor (t : Tensor) : GoCode (List OcTensor × Nat) Unit := do
  let (descriptors, index) ← .get
  if t.dtype.size = 0 then
    .fail (.text "onnxcraft: invalid tensor at index %d" [.int index])
  else do
    (if t.shape = [] then pure () else .lift (mem (.pinShape t.shape)))
    (if t.data = 0 then pure () else .lift (mem (.pin t.data)))
    let descriptors ← .lift (wr descriptors index (descriptor t))
    .modify fun _ => (descriptors, index + 1)

/-! ## Results -/

/-- One iteration of the loop that copies the outputs, over `result`. -/
def collectOutput (output : OcTensor) : GoCode (List Tensor) Unit := do
  let shape ← .lift (goSlice output.shape (toInt output.rank))
  let dtype := DataType.ofCode output.type
  match tensorSize shape dtype.size with
  | .error err => .fail err
  | .ok length => do
    let nbytes := wrapInt (length * dtype.size)
    let result ← .get
    if toSize nbytes ≠ output.bytes ∨ (nbytes ≠ 0 ∧ output.data = 0) then
      .fail (.text "onnxcraft: output %d has inconsistent storage" [.int result.length])
    else do
      let words := wrapInt (nbytes.tdiv 8 + min (nbytes.tmod 8) 1)
      (if words < 0 then .lift (fault .outOfRange) else pure ())
      let ptr ← .lift (mem (.make words.toNat))
      let bytes ← .lift (mem (.load output.data nbytes.toNat))
      .lift (mem (.store ptr bytes))
      .modify fun result => result ++ [⟨ptr, shape, length, dtype⟩]

/-- `run` after the native call: the error, or the results. -/
def collect (ctx : Ctx) (r : Option OcRuntime) (into : Bool) (status : Option OrtStatus)
    (outs : List OcTensor) : Act (Except GoError (List Tensor)) := do
  let err ← nativeError r (match status with | none => .ok () | some status => .error status)
  match ← ctxErr ctx with
  | some _ => do
    match ← ctxErr ctx with
    | some e => return .error (.ctx e)
    | none => return .ok []
  | none =>
    match err with
    | .error e => return .error (.wrap "onnxcraft: run model: %w" [] (.native e))
    | .ok _ =>
      if into then return .ok []
      else do
        let (result, res) ← Code.forEach collectOutput outs []
        return res.map fun _ => result

/-- `run` after the options: the native call. -/
def runNative (s : Session) (ctx : Ctx) (r : Option OcRuntime) (options : Option Handle)
    (into : Bool) (descriptors : List OcTensor) : Act (Except GoError (List Tensor)) :=
  -- `&descriptors[len(s.inputs)]`
  if descriptors.length ≤ s.inputs.length then fault .outOfRange
  else do
    let out := descriptors.drop s.inputs.length
    let native ← deref (← sess s.id .getNative)
    if into then
      let status ← cgo (.ocRunInto native) (Bridge.ocRunInto native options descriptors out)
      collect ctx r into status []
    else
      let (status, out) ← cgo (.ocRun native) (Bridge.ocRun native options descriptors out)
      let native ← deref (← sess s.id .getNative)
      .deferring (cgo (.ocOutputsFree native) do let _ ← Bridge.ocOutputsFree native out)
        (collect ctx r into status out)

/-- `run` after `defer pins.Unpin()`. -/
def runPinned (s : Session) (ctx : Ctx) (inputs outputs : List Tensor) (into : Bool)
    (descriptors : List OcTensor) : Act (Except GoError (List Tensor)) := do
  match ← Code.forEach fillDescriptor (inputs ++ outputs) (descriptors, 0) with
  | (_, .error err) => return .error err
  | ((descriptors, _), .ok _) =>
    let r ← rt s.runtime .getNative
    if ctx.cancelable then
      match ← watchContext ctx r with
      | .error err => return .error (.native err)
      | .ok (options, finish) =>
        .deferring finish (s.runNative ctx r (some options) into descriptors)
    else s.runNative ctx r none into descriptors

/-- `run` past the checks: from the descriptor pool on. -/
def runBuffered (s : Session) (ctx : Ctx) (inputs outputs : List Tensor) (into : Bool) :
    Act (Except GoError (List Tensor)) := do
  let n := s.inputs.length + s.outputs.length
  let buffer ← pool .get
  let slots := if buffer.slots.length < n then List.replicate n OcTensor.zero else buffer.slots
  -- `clear(descriptors)` zeroes the first `n` slots
  let cleared : Buffer := ⟨buffer.id, List.replicate n OcTensor.zero ++ slots.drop n⟩
  .deferring (pool (.put cleared)) do
    .deferring (mem .unpin) (s.runPinned ctx inputs outputs into (slots.take n))

/-- `run` past the gate. -/
def runGated (s : Session) (ctx : Ctx) (inputs outputs : List Tensor) (into : Bool) :
    Act (Except GoError (List Tensor)) :=
  if inputs.length ≠ s.inputs.length then
    return .error (.text "onnxcraft: expected %d inputs, got %d"
      [.int s.inputs.length, .int inputs.length])
  else if into ∧ outputs.length ≠ s.outputs.length then
    return .error (.text "onnxcraft: expected %d outputs, got %d"
      [.int s.outputs.length, .int outputs.length])
  else
    match firstOverlap inputs [] outputs with
    | some i => return .error (.text "onnxcraft: output %d overlaps another tensor" [.int i])
    | none => s.runBuffered ctx inputs outputs into

/-- `run` under the read lock. -/
def runLocked (s : Session) (ctx : Ctx) (inputs outputs : List Tensor) (into : Bool) :
    Act (Except GoError (List Tensor)) := do
  match ← sess s.id .getNative with
  | none => return .error .closed
  | some _ =>
    if s.gated then
      if ← sess s.id (.gateSelect ctx) then
        .deferring (sess s.id .gateRecv) do
          match ← ctxErr ctx with
          | some err => return .error (.ctx err)
          | none => s.runGated ctx inputs outputs into
      else
        match ← ctxErr ctx with
        | some err => return .error (.ctx err)
        | none => return .ok []
    else s.runGated ctx inputs outputs into

/-- `Session.run`. -/
def run (s : Session) (ctx : Ctx) (inputs outputs : List Tensor) (into : Bool) :
    Act (Except GoError (List Tensor)) := do
  match ← ctxErr ctx with
  | some err => return .error (.ctx err)
  | none => do
    sess s.id .rLock
    .deferring (sess s.id .rUnlock) (s.runLocked ctx inputs outputs into)

/-- `Session.Run`. -/
def runInputs (s : Session) (ctx : Ctx) (inputs : List Tensor) :
    Act (Except GoError (List Tensor)) :=
  s.run ctx inputs [] false

/-- `Session.RunInto`. -/
def runInto (s : Session) (ctx : Ctx) (outputs inputs : List Tensor) : Act (Except GoError Unit) :=
  do return (← s.run ctx inputs outputs true).map fun _ => ()

end Session

end

end Onnxcraft
