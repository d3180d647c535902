import Onnxcraft.Model.System
import Onnxcraft.Protocol.Resource

/-!
# The protocol of a call

`Held` is what a call holds and knows after its events: locks, the gate's token, references in
transit, its callback, the C function it is in, the native resources it must release, and what it
has read under its locks. `protocol` says for every operation what a call must hold to perform it
(`pre`), what it may then expect of the answer (`env`) and what it holds afterwards (`upd`).

A call may end, and may give a lock or the token back, only when it has returned everything it
acquired under it; a runtime, a session and run options may be used only while they are kept
alive. A goroutine that is in a C function makes native calls only.
-/

namespace Onnxcraft

open Effect

/-- Where a run is: before its native call, in it, after it, or releasing its outputs. -/
inductive Phase where
  | before | native | after | freeing
  deriving DecidableEq, Repr

def Phase.rank : Phase → Nat
  | .before => 0
  | .native => 1
  | .after => 2
  | .freeing => 3

/-- The metadata that the binding reads off a port. -/
def OcPort.info (p : OcPort) : TensorInfo :=
  ⟨goString p.name, DataType.ofCode p.type, p.shape.elim [] (·.slots)⟩

/-- A port of a supported type, completely filled. -/
structure OcPort.Filled (p : OcPort) : Prop where
  name : p.name.isSome
  type : (DataType.ofCode p.type).size ≠ 0
  rank : (p.shape.elim [] (·.slots)).length = p.rank

/-- A native session and the metadata of its `Session`: one port and one name for each entry, in
order. -/
structure OcSession.Matches [Platform] (n : OcSession) (ins outs : List TensorInfo) : Prop where
  handle : n.handle.isSome
  inputs : n.inputs = ins.length
  outputs : n.outputs = outs.length
  pos : 0 < outs.length
  bound : ins.length + outs.length < 2 ^ Platform.bits
  ports : ∃ ports names, n.ports = some ports ∧ n.names = some names ∧
    ports.slots.map OcPort.info = ins ++ outs ∧ names.slots = ports.slots.map (·.name) ∧
    ∀ p ∈ ports.slots, p.Filled

/-- A descriptor buffer that is zero over its whole capacity. -/
def Buffer.Clean (b : Buffer) : Prop := ∀ t ∈ b.slots, t = OcTensor.zero

/-! ## Calls -/

namespace Call

/-- The session that a call is about. -/
def session : Call → Option Session
  | .closeSession s | .run s _ _ | .runInto s _ _ _ => some s
  | _ => none

/-- The runtime whose mutex a call may lock. -/
def runtime : Call → Option Nat
  | .load r _ _ | .loadBytes r _ _ | .closeRuntime r => some r
  | .closeSession s => some s.runtime
  | _ => none

/-- The context of a run. -/
def ctx : Call → Option Ctx
  | .run _ ctx _ | .runInto _ ctx _ _ => some ctx
  | _ => none

/-- A call of `Open`. -/
def Opens : Call → Prop
  | .openLibrary _ => True
  | _ => False

/-- A call of one of the two `Close`s. -/
def Closes : Call → Prop
  | .closeRuntime _ | .closeSession _ => True
  | _ => False

end Call

/-! ## What a call holds -/

structure Held where
  call : Call
  /-- The session it has read-locked, waits to lock, has locked; the one whose token it has. -/
  read : Option Nat
  pend : Option Nat
  excl : Option Nat
  gate : Option Nat
  /-- It has been at the gate. -/
  selected : Bool
  /-- The native session, as read under the lock. -/
  seen : Option OcSession
  /-- The runtime it has locked. -/
  mu : Option Nat
  /-- The `closed` and `native` of that runtime, as read under the lock. -/
  closed : Option Bool
  rt : Option OcRuntime
  /-- A reference raised for a session that does not exist yet. -/
  raised : Option Nat
  /-- The runtime closed by the call, whose own reference is still counted. -/
  owes : Option Nat
  /-- The session freed by the call, whose reference is still counted. -/
  cleared : Option Nat
  /-- The runtime without references whose `native` is still set. -/
  zero : Option Nat
  /-- It has called `oc_close`; `oc_session_free` under the write lock. -/
  shut : Bool
  freed : Bool
  /-- It has found or left its session without a native session. -/
  gone : Bool
  /-- The callback that may still use the call's run options; `stop` has failed. -/
  watch : Option Nat
  joining : Bool
  /-- The callback that the goroutine runs. -/
  fire : Option Nat
  inC : Option CFunc
  phase : Phase
  /-- The descriptor buffer it uses. -/
  buffer : Option Nat
  /-- The native resources it must release. -/
  live : Multiset Resource
  /-- The context is known to be done; the error it answered. -/
  canceled : Bool
  done : Option CtxError
  /-- ORT aborted its run. -/
  aborted : Bool

namespace Held

/-- A call at its start. A callback has been started by `context.AfterFunc`. -/
def start (c : Call) : Held where
  call := c
  read := none
  pend := none
  excl := none
  gate := none
  selected := false
  seen := none
  mu := none
  closed := none
  rt := none
  raised := none
  owes := none
  cleared := none
  zero := none
  shut := false
  freed := false
  gone := false
  watch := none
  joining := false
  fire := match c with | .callback _ _ id => some id | _ => none
  inC := none
  phase := .before
  buffer := none
  live := 0
  canceled := false
  done := none
  aborted := false

/-- Nothing is left to give back. -/
structure Idle (g : Held) : Prop where
  read : g.read = none
  pend : g.pend = none
  excl : g.excl = none
  gate : g.gate = none
  mu : g.mu = none
  raised : g.raised = none
  owes : g.owes = none
  cleared : g.cleared = none
  zero : g.zero = none
  watch : g.watch = none
  fire : g.fire = none
  inC : g.inC = none
  buffer : g.buffer = none
  live : g.live = 0

/-- No native work is under way: what a lock requires before it is given back. -/
structure Quiet (g : Held) : Prop where
  watch : g.watch = none
  live : g.live = 0

/-- The runtime that the call may use: read under its mutex, or kept alive by the session whose
lock it holds. -/
def runtime (g : Held) : Option OcRuntime := g.rt <|> g.seen.map (·.runtime)

/-- The call may enter the C function. -/
def MayEnter (g : Held) : CFunc → Prop
  | .ocOpen => True
  | .ocClose r => g.zero.isSome ∧ g.shut = false ∧ ∃ x, r = some x ∧ g.rt = some x
  | .ocSessionFree s => ∃ n, s = some n ∧ g.runtime = some n.runtime ∧
      (g.call.Closes → g.excl.isSome) ∧ (g.excl.isSome → g.seen = some n ∧ g.freed = false)
  | .ocRun n | .ocRunInto n => g.seen = some n ∧ g.read.isSome ∧ g.phase = .before ∧
      ∀ s, g.call.session = some s → s.gated → g.gate.isSome
  | .ocOutputsFree n => g.seen = some n ∧ g.read.isSome ∧ g.phase = .after
  | .ocTerminate r options => ∃ id, g.call = .callback r options id ∧ g.fire = some id
  | .ocRunOptionsFree r => g.runtime = some r ∧ g.watch = none
  | .ocOptionsNew r | .ocConfig r | .ocProvider r | .ocOptionsFree r | .ocLoad r
  | .ocRunOptions r | .ocErrorCode r | .ocErrorMessage r | .ocErrorFree r => g.runtime = some r

/-- What a call takes over when it enters a C function that frees a runtime or a session. -/
def takes (g : Held) : CFunc → Multiset Resource
  | .ocClose (some x) => x.resources
  | .ocSessionFree (some n) => if g.excl.isSome then n.resources else 0
  | _ => 0

/-- A reference has been given back. -/
def gave (g : Held) : Option Nat → Held
  | none => { g with owes := none }
  | some _ => { g with cleared := none }

/-- The phase inside a C function. -/
def enterPhase (g : Held) : CFunc → Phase
  | .ocRun _ | .ocRunInto _ => .native
  | .ocOutputsFree _ => .freeing
  | _ => g.phase

/-- What a call has closed and freed once it is in a C function. -/
def shuts (g : Held) : CFunc → Bool
  | .ocClose _ => true
  | _ => g.shut

def frees (g : Held) : CFunc → Bool
  | .ocSessionFree _ => g.excl.isSome || g.freed
  | _ => g.freed

/-- The phase after a C function. -/
def leavePhase (g : Held) : CFunc → Phase
  | .ocRun _ | .ocRunInto _ => .after
  | _ => g.phase

end Held

/-! ## Obligations -/

section
variable [Platform]

def SessOp.Pre (g : Held) (s : Nat) : SessOp → Prop
  | .rLock => g.read = none ∧ g.pend = none ∧ g.excl = none ∧ g.mu = none
  | .rUnlock => g.read = some s ∧ g.gate = none ∧ g.Quiet
  | .lock => g.pend = none ∧ g.excl = none ∧ g.call.Closes ∧ g.read = none ∧ g.mu = none
  | .lockWait => g.pend = some s ∧ g.read = none
  | .unlock => g.excl = some s ∧ g.mu = none ∧ g.cleared = none ∧ (g.freed → g.gone) ∧ g.Quiet
  | .getNative => g.read = some s ∨ g.excl = some s
  | .clearNative => g.excl = some s ∧ g.seen.isSome ∧ g.freed ∧ g.cleared = none ∧ g.Quiet
  | .gateSelect c => g.call.ctx = some c ∧ g.read = some s ∧ g.selected = false ∧ g.gate = none
  | .gateRecv => g.gate = some s ∧ g.Quiet

def RtOp.Pre (g : Held) (r : Nat) : RtOp → Prop
  | .lock => g.mu = none ∧ g.call.runtime = some r ∧ g.read = none
  | .unlock => g.mu = some r ∧ g.raised = none ∧ g.owes = none ∧ g.zero = none ∧ g.Quiet
  | .getClosed => g.mu = some r
  | .setClosed => g.mu = some r ∧ g.closed = some false ∧ g.owes = none ∧ g.raised = none ∧
      g.call.Closes
  | .getNative => g.mu = some r ∨ g.seen.isSome ∧ g.call.session.map (·.runtime) = some r
  | .clearNative => g.mu = some r ∧ g.zero = some r ∧ g.shut ∧ g.Quiet
  | .incRefs => g.mu = some r ∧ g.closed = some false ∧ g.rt.isSome ∧ g.raised = none
  | .decRefs owner => g.mu = some r ∧ g.zero = none ∧ match owner with
    | none => g.owes = some r
    | some s => g.cleared = some s

def CbOp.Pre (g : Held) : CbOp → Prop
  | .afterFunc c r options => g.call.ctx = some c ∧ c.cancelable ∧ g.watch = none ∧
      g.read.isSome ∧ g.seen.map (·.runtime) = some r ∧ .runOptions options ∈ g.live
  | .stop id => g.watch = some id ∧ g.joining = false
  | .recvDone id => g.watch = some id ∧ g.joining ∧ g.phase ≠ .before
  | .closeDone id => g.fire = some id ∧ g.Quiet

def NativeOp.Pre (g : Held) (o : NativeOp) : Prop :=
  o.releases ≤ g.live ∧ match o with
    | .releaseValue _ => g.phase = .native ∨ g.phase = .freeing
    | .releaseRunOptions _ => g.watch = none
    | .runOptionsSetTerminate options => ∃ r id, g.call = .callback r options id ∧ g.fire = some id
    | .run _ options _ _ _ _ => g.phase = .native ∧ g.call.ctx.isSome ∧
        ∀ o, options = some o → .runOptions o ∈ g.live
    | _ => True

def Op.Pre (g : Held) : Op → Prop
  | .sess s o => g.inC = none ∧ g.call.session.map (·.id) = some s ∧ o.Pre g s
  | .rt r o => g.inC = none ∧ o.Pre g r
  | .newRuntime native => g.call.Opens ∧ native.resources ≤ g.live
  | .newSession r _ native inputs outputs => g.mu = some r ∧ g.raised = some r ∧
      g.rt = some native.runtime ∧ native.Matches inputs outputs ∧ native.resources ≤ g.live
  | .ctxErr c => g.call.ctx = some c
  | .pool .get => g.buffer = none
  | .pool (.put b) => g.buffer = some b.id ∧ b.Clean
  | .cb o => g.inC = none ∧ o.Pre g
  | .mem (.make _) | .mem (.load _ _) | .mem (.store _ _) => g.phase = .after
  | .enter f => g.inC = none ∧ g.MayEnter f
  | .leave f => g.inC = some f
  | .nat o => o.Pre g
  | .fault _ => False
  | _ => True

/-! ## Expectations -/

def SessOp.Env (g : Held) : (o : SessOp) → o.Resp → Prop
  | .getNative, a => (∀ n, g.seen = some n → a = some n) ∧
      ∀ n, a = some n → ∃ s, g.call.session = some s ∧ n.Matches s.inputs s.outputs
  | _, _ => True

def RtOp.Env (g : Held) (r : Nat) : (o : RtOp) → o.Resp → Prop
  | .getNative, a => (∀ x, g.mu = some r → g.rt = some x → a = some x) ∧
      (g.zero = some r ∨ g.owes = some r → a.isSome) ∧
      ∀ n, g.mu = none → g.seen = some n → a = some n.runtime
  | _, _ => True

def NativeOp.Env (o : NativeOp) (a : o.Resp) : Prop := o.Allows a

def Op.Env (g : Held) : (e : Op) → e.Resp → Prop
  | .sess _ o, a => o.Env g a
  | .rt r o, a => o.Env g r a
  | .ctxErr _, a => (∀ e, g.done = some e → a = some e) ∧ (g.canceled → a.isSome)
  | .pool .get, b => b.Clean
  | .mem (.load _ n), bs => bs.length = n
  | .nat o, a => o.Env a
  | _, _ => True

/-! ## Bookkeeping -/

def SessOp.upd (g : Held) (s : Nat) : (o : SessOp) → o.Resp → Held
  | .rLock, _ => { g with read := some s }
  | .rUnlock, _ => { g with read := none, seen := none }
  | .lock, _ => { g with pend := some s }
  | .lockWait, _ => { g with pend := none, excl := some s }
  | .unlock, _ => { g with excl := none, seen := none }
  | .getNative, n => { g with seen := n, gone := n.isNone || g.gone }
  | .clearNative, _ => { g with seen := none, cleared := some s, gone := true }
  | .gateSelect _, sent =>
    if sent then { g with selected := true, gate := some s }
    else { g with selected := true, canceled := true }
  | .gateRecv, _ => { g with gate := none }

def RtOp.upd (g : Held) (r : Nat) : (o : RtOp) → o.Resp → Held
  | .lock, _ => { g with mu := some r }
  | .unlock, _ => { g with mu := none, closed := none, rt := none }
  | .getClosed, b => { g with closed := some b }
  | .setClosed, _ => { g with closed := some true, owes := some r }
  | .getNative, n => if g.mu = some r then { g with rt := n } else g
  | .clearNative, _ => { g with zero := none, rt := none }
  | .incRefs, _ => { g with raised := some r }
  | .decRefs owner, n =>
    if n = 0 then { g.gave owner with zero := some r } else g.gave owner

def CbOp.upd (g : Held) : (o : CbOp) → o.Resp → Held
  | .afterFunc _ _ _, id => { g with watch := some id, joining := false }
  | .stop _, stopped => if stopped then { g with watch := none } else { g with joining := true }
  | .recvDone _, _ => { g with watch := none, joining := false }
  | .closeDone _, _ => { g with fire := none }

def NativeOp.upd (g : Held) (o : NativeOp) (a : o.Resp) : Held :=
  let g := { g with live := o.acquires a + (g.live - o.releases) }
  match o, a with
  | .run _ _ _ _ _ _, reply =>
    if reply.aborted then { g with canceled := true, aborted := true } else g
  | _, _ => g

def Op.upd (g : Held) : (e : Op) → e.Resp → Held
  | .sess s o, a => o.upd g s a
  | .rt r o, a => o.upd g r a
  | .newRuntime native, _ => { g with live := g.live - native.resources }
  | .newSession _ _ native _ _, _ => { g with live := g.live - native.resources, raised := none }
  | .ctxErr _, e => { g with canceled := e.isSome, done := e }
  | .pool .get, b => { g with buffer := some b.id }
  | .pool (.put _), _ => { g with buffer := none }
  | .cb o, a => o.upd g a
  | .enter f, _ =>
    { g with
      inC := some f
      phase := g.enterPhase f
      shut := g.shuts f
      freed := g.frees f
      live := g.takes f + g.live }
  | .leave f, _ => { g with inC := none, phase := g.leavePhase f }
  | .nat o, a => o.upd g a
  | _, _ => g

/-- The protocol. -/
def protocol : Spec Op Op.Resp Held where
  pre e g := e.Pre g
  env e g a := e.Env g a
  upd e a g := e.upd g a

/-- How a call ends: with nothing left to give back, with its context's error when ORT has aborted
its run, and `Session.Close` with a closed session. -/
structure Ends (c : Call) (res : Ret) (g : Held) : Prop where
  idle : g.Idle
  aborted : g.aborted → ∃ e, g.done = some e ∧
    (res = .tensors (.error (.ctx e)) ∨ res = .none (.error (.ctx e)))
  gone : ∀ s, c = .closeSession s → g.gone

end

end Onnxcraft
