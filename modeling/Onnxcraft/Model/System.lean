import Onnxcraft.Effect.Interleave
import Onnxcraft.Model.Session
import Mathlib.Logic.Function.Basic

/-!
# The system

The world that the calls of the binding share, and what every operation does to it. Goroutines
are the threads of an `Effect.System`: calls of the exported functions, and the goroutines in
which `context.AfterFunc` runs its callbacks. The environment may finish a context and drop pooled
buffers at any time.

ONNX Runtime and the C heap answer as they like within `NativeOp.Allows`, their documented
contract. The contents of memory are not kept here: a load answers any bytes.
-/

namespace Onnxcraft

open Effect

/-! ## The world -/

/-- The mutable fields of a `Runtime`. -/
structure RuntimeSt where
  locked : Bool
  native : Option OcRuntime
  refs : Int
  closed : Bool
  deriving DecidableEq

/-- The writer's side of a `sync.RWMutex`: a pending writer excludes new readers. -/
inductive Writer where
  | idle | pending | held
  deriving DecidableEq, Repr

/-- A `Session`: its fixed fields, its lock, the tokens in its gate, its native session. `released`
is history: `Close` has given the session's reference back. -/
structure SessionSt where
  sess : Session
  readers : Nat
  writer : Writer
  gate : Nat
  native : Option OcSession
  released : Bool
  deriving DecidableEq

inductive CbState where
  | registered | running | finished | stopped
  deriving DecidableEq, Repr

/-- A callback registered by `context.AfterFunc`. Its `done` channel is closed iff it has
finished. -/
structure CbSt where
  ctx : Ctx
  r : OcRuntime
  options : Handle
  state : CbState
  deriving DecidableEq

structure World where
  runtimes : List RuntimeSt
  sessions : List SessionSt
  /-- The contexts that are done, with their errors. -/
  ctxs : Nat → Option CtxError
  pool : List Buffer
  /-- The number of buffers made so far. -/
  buffers : Nat
  callbacks : List CbSt
  /-- The run options that exist, with their terminate flags. -/
  options : Handle → Option Bool

namespace World

def init : World := ⟨[], [], fun _ => none, [], 0, [], fun _ => none⟩

/-- `ctx.Err()`. -/
def err (w : World) (c : Ctx) : Option CtxError := if c.cancelable then w.ctxs c.id else none

end World

/-! ## What the operations do -/

/-- The operations on a `Runtime`. -/
def RuntimeSt.act : (o : RtOp) → o.Resp → RuntimeSt → Option RuntimeSt
  | .lock, _, st => if st.locked then none else some { st with locked := true }
  | .unlock, _, st => if st.locked then some { st with locked := false } else none
  | .getClosed, b, st => if b = st.closed then some st else none
  | .setClosed, _, st => some { st with closed := true }
  | .getNative, n, st => if n = st.native then some st else none
  | .clearNative, _, st => some { st with native := none }
  | .incRefs, _, st => some { st with refs := st.refs + 1 }
  | .decRefs _, n, st => if n = st.refs - 1 then some { st with refs := n } else none

/-- The operations on a `Session`; `done`: the context is done. -/
def SessionSt.act (done : Ctx → Bool) : (o : SessOp) → o.Resp → SessionSt → Option SessionSt
  | .rLock, _, st => if st.writer = .idle then some { st with readers := st.readers + 1 } else none
  | .rUnlock, _, st => if 0 < st.readers then some { st with readers := st.readers - 1 } else none
  | .lock, _, st => if st.writer = .idle then some { st with writer := .pending } else none
  | .lockWait, _, st =>
    if st.writer = .pending ∧ st.readers = 0 then some { st with writer := .held } else none
  | .unlock, _, st => if st.writer = .held then some { st with writer := .idle } else none
  | .getNative, n, st => if n = st.native then some st else none
  | .clearNative, _, st => some { st with native := none }
  | .gateSelect c, sent, st =>
    if sent then if st.gate = 0 then some { st with gate := 1 } else none
    else if done c then some st else none
  | .gateRecv, _, st => if 0 < st.gate then some { st with gate := st.gate - 1 } else none

/-- The documented contract of the native calls, as far as it speaks about one answer. -/
def NativeOp.Allows [Platform] : (o : NativeOp) → o.Resp → Prop
  | .createStatus code message, st => st.code = code ∧ st.message = message
  | .getErrorCode st, code => code = st.code
  | .getErrorMessage st, message => message = st.message
  | .sessionGetInputCount _, .ok n | .sessionGetOutputCount _, .ok n | .getDimensionsCount _, .ok n
  | .getTensorSizeInBytes _, .ok n => n < 2 ^ Platform.bits
  | .getDimensions _ rank, .ok dims => dims.length = rank
  | .getTensorElementTypeAndShapeDataReference _, .ok (_, shape) =>
    shape.length < 2 ^ (Platform.bits - 1)
  | .run _ _ _ _ _ outputs, reply =>
    -- only NULL slots are filled, and all of them when `Run` succeeds
    reply.filled.length = outputs.length ∧
      ∀ p ∈ outputs.zip reply.filled,
        (p.1.isSome → p.2 = none) ∧ (reply.status = none → p.1 = none → p.2.isSome)
  | _, _ => True

instance [Platform] (o : NativeOp) (r : o.Resp) : Decidable (o.Allows r) := by
  unfold NativeOp.Allows
  split <;> infer_instance

namespace World

variable [Platform]

/-- A native call. Run options are made fresh, with their flag cleared; `Run` aborts only when the
flag of the options it was given is set. -/
def native (w : World) (o : NativeOp) (r : o.Resp) : Option World :=
  if o.Allows r then
    match o, r with
    | .createRunOptions, .ok h =>
      if w.options h = none then some { w with options := Function.update w.options h (some false) }
      else none
    | .runOptionsSetTerminate h, .ok _ =>
      some { w with
        options := Function.update w.options h ((w.options h).map fun _ => true) }
    | .releaseRunOptions h, _ => some { w with options := Function.update w.options h none }
    | .run _ options _ _ _ _, reply =>
      if reply.aborted ∧ options.bind w.options ≠ some true then none else some w
    | _, _ => some w
  else none

/-- The reference that `decRefs` gives back. -/
def release (w : World) (s : Nat) : World :=
  match w.sessions[s]? with
  | some st => { w with sessions := w.sessions.set s { st with released := true } }
  | none => w

/-- The session that an operation on its runtime closes for good. -/
def noteRelease (w : World) : RtOp → World
  | .decRefs (some s) => w.release s
  | _ => w

def rt (w : World) (r : Nat) (o : RtOp) (a : o.Resp) : Option World := do
  let st ← w.runtimes[r]?
  let st' ← st.act o a
  return { w with runtimes := w.runtimes.set r st' }.noteRelease o

def sess (w : World) (s : Nat) (o : SessOp) (a : o.Resp) : Option World := do
  let st ← w.sessions[s]?
  let st' ← st.act (fun c => (w.err c).isSome) o a
  return { w with sessions := w.sessions.set s st' }

/-- The descriptor pool: `Get` takes any pooled buffer or makes an empty one. -/
def descriptors (w : World) : (o : PoolOp) → o.Resp → Option World
  | .get, b =>
    if b ∈ w.pool then some { w with pool := w.pool.erase b }
    else if b = ⟨w.buffers, []⟩ then some { w with buffers := w.buffers + 1 }
    else none
  | .put b, _ => some { w with pool := b :: w.pool }

/-- `context.AfterFunc`: `stop` answers true iff it prevented the callback from starting. -/
def callback (w : World) : (o : CbOp) → o.Resp → Option World
  | .afterFunc c r options, id =>
    if id = w.callbacks.length then
      some { w with callbacks := w.callbacks ++ [⟨c, r, options, .registered⟩] }
    else none
  | .stop id, stopped => do
    let cb ← w.callbacks[id]?
    if cb.state = .registered then
      if stopped then some { w with callbacks := w.callbacks.set id { cb with state := .stopped } }
      else none
    else if stopped then none
    else some w
  | .recvDone id, _ => do
    let cb ← w.callbacks[id]?
    if cb.state = .finished then some w else none
  | .closeDone id, _ => do
    let cb ← w.callbacks[id]?
    if cb.state = .running then
      some { w with callbacks := w.callbacks.set id { cb with state := .finished } }
    else none

/-- The meaning of an operation answered by `a`. -/
def act : (e : Op) → e.Resp → World → Option World
  | .sess s o, a, w => w.sess s o a
  | .rt r o, a, w => w.rt r o a
  | .newRuntime native, id, w =>
    if id = w.runtimes.length then
      some { w with runtimes := w.runtimes ++ [⟨false, some native, 1, false⟩] }
    else none
  | .newSession runtime gated native inputs outputs, id, w =>
    if id = w.sessions.length then
      some { w with
        sessions := w.sessions ++
          [⟨⟨id, runtime, gated, inputs, outputs⟩, 0, .idle, 0, some native, false⟩] }
    else none
  | .ctxErr c, e, w => if e = w.err c then some w else none
  | .filepathAbs _, _, w => some w
  | .pool o, a, w => w.descriptors o a
  | .cb o, a, w => w.callback o a
  | .mem (.load _ n), bs, w => if bs.length = n then some w else none
  | .mem _, _, w => some w
  | .enter _, _, w => some w
  | .leave _, _, w => some w
  | .nat o, a, w => w.native o a
  | .fault _, a, _ => nomatch a

end World

/-! ## Calls -/

/-- What a goroutine runs: a call of an exported function, or a callback. -/
inductive Call where
  | openLibrary (path : GoString)
  | load (r : Nat) (path : GoString) (options : Option SessionOptions)
  | loadBytes (r : Nat) (model : List UInt8) (options : Option SessionOptions)
  | closeRuntime (r : Nat)
  | closeSession (s : Session)
  | run (s : Session) (ctx : Ctx) (inputs : List Tensor)
  | runInto (s : Session) (ctx : Ctx) (outputs inputs : List Tensor)
  | callback (r : OcRuntime) (options : Handle) (id : Nat)
  deriving DecidableEq

/-- What a call returns. -/
inductive Ret where
  | runtime (res : Except GoError Nat)
  | session (res : Except GoError Session)
  | tensors (res : Except GoError (List Tensor))
  | none (res : Except GoError Unit)

namespace Call

variable [Platform]

/-- The code of a call. -/
def prog : Call → Act Ret
  | .openLibrary path => .runtime <$> Onnxcraft.openLibrary path
  | .load r path options => .session <$> Runtime.loadFile r path options
  | .loadBytes r model options => .session <$> Runtime.loadBytes r model options
  | .closeRuntime r => (fun _ => .none (.ok ())) <$> Runtime.close r
  | .closeSession s => (fun _ => .none (.ok ())) <$> s.close
  | .run s ctx inputs => .tensors <$> s.runInputs ctx inputs
  | .runInto s ctx outputs inputs => .none <$> s.runInto ctx outputs inputs
  | .callback r options id => (fun _ => .none (.ok ())) <$> Onnxcraft.callback r options id

/-- A call needs its receiver; a callback starts when its context is done, once. -/
def start (c : Call) (w : World) : Option World :=
  match c with
  | .openLibrary _ => some w
  | .load r _ _ | .loadBytes r _ _ | .closeRuntime r => if r < w.runtimes.length then some w else none
  | .closeSession s | .run s _ _ | .runInto s _ _ _ =>
    if (w.sessions[s.id]?).map (·.sess) = some s then some w else none
  | .callback r options id => do
    let cb ← w.callbacks[id]?
    if cb.state = .registered ∧ cb.r = r ∧ cb.options = options ∧ (w.err cb.ctx).isSome then
      some { w with callbacks := w.callbacks.set id { cb with state := .running } }
    else none

end Call

/-- What the environment does by itself. -/
inductive Move where
  | done (ctx : Nat) (e : CtxError)
  | drop (n : Nat)
  deriving DecidableEq

/-- A context is done once; the garbage collector drops pooled buffers. -/
def Move.apply : Move → World → Option World
  | .done ctx e, w =>
    if w.ctxs ctx = none then some { w with ctxs := Function.update w.ctxs ctx (some e) } else none
  | .drop n, w => some { w with pool := w.pool.drop n }

/-- The binding: any number of goroutines over any number of runtimes and sessions. -/
def system [Platform] : System World Call Move Op Op.Resp Ret where
  init := World.init
  prog := Call.prog
  act := World.act
  start := Call.start
  move := Move.apply

end Onnxcraft
