import Onnxcraft.Protocol.Made
import Onnxcraft.Protocol.Registry
import Onnxcraft.Effect.Assume

/-!
# Linearization points

`Call.course` is the protocol of a call's linearization point: `Close` of a runtime takes effect when
it sets or sees `closed`, `Close` of a session when it clears `native` or sees it cleared, a load when
it makes its session or sees `closed`, a run when it reads `native` under its lock. Most of the code
is `Still`: it neither changes the registry nor looks at it.
-/

namespace Onnxcraft

open Effect

/-! ## Linearization points -/

/-- The operation does not change the registry. -/
def Op.Quiet : Op → Prop
  | .newRuntime _ | .newSession _ _ _ _ _ | .rt _ .setClosed | .sess _ .clearNative => False
  | _ => True

/-- The operation neither changes the registry nor looks at it, and gives no lock back. -/
def Op.Still : Op → Prop
  | .newRuntime _ | .newSession _ _ _ _ _ => False
  | .rt _ .setClosed | .rt _ .getClosed | .rt _ .unlock => False
  | .sess _ .clearNative | .sess _ .getNative | .sess _ .rUnlock | .sess _ .unlock => False
  | _ => True

/-- What the call performs in an event, if it has not performed anything before. -/
def Call.point (c : Call) : (e : Op) → e.Resp → Option Registry.Action
  | .newRuntime _, id => some (.opened id)
  | .newSession r gated _ inputs outputs, id => some (.loaded ⟨id, r, gated, inputs, outputs⟩)
  | .rt r .setClosed, _ => some (.closedRuntime r)
  | .rt r .getClosed, closed => match c, closed with
    | .closeRuntime _, true => some (.closedRuntime r)
    | .load _ _ _, true | .loadBytes _ _ _, true => some (.refused r)
    | _, _ => none
  | .sess _ .clearNative, _ => match c with
    | .closeSession s => some (.closedSession s)
    | _ => none
  | .sess _ .getNative, n => match c, n with
    | .closeSession s, none => some (.closedSession s)
    | .run s _ _, some _ | .runInto s _ _ _, some _ => some (.ran s)
    | .run s _ _, none | .runInto s _ _ _, none => some (.gone s)
    | _, _ => none
  | _, _ => none

section
variable {c : Call} {o : Registry.Action}

/-- Who looks at `closed`. -/
theorem Call.point_getClosed {r : Nat} {closed : Bool}
    (h : c.point (.rt r .getClosed) closed = some o) : closed = true ∧
      ((∃ r', c = .closeRuntime r' ∧ o = .closedRuntime r) ∨ c.loadArgs.isSome ∧ o = .refused r) := by
  cases c <;> cases closed <;> cases h
  · exact ⟨rfl, .inr ⟨rfl, rfl⟩⟩
  · exact ⟨rfl, .inr ⟨rfl, rfl⟩⟩
  · exact ⟨rfl, .inl ⟨_, rfl, rfl⟩⟩

/-- Who looks at the `native` of a session. -/
theorem Call.point_getNative {s : Nat} {n : Option OcSession}
    (h : c.point (.sess s .getNative) n = some o) :
      (∃ s₀, c = .closeSession s₀ ∧ n = none ∧ o = .closedSession s₀) ∨
      ∃ s₀, c.session = some s₀ ∧ c.ctx.isSome ∧ o = if n.isSome then .ran s₀ else .gone s₀ := by
  cases c <;> cases n <;> cases h
  · exact .inl ⟨_, rfl, rfl, rfl⟩
  · exact .inr ⟨_, rfl, rfl, rfl⟩
  · exact .inr ⟨_, rfl, rfl, rfl⟩
  · exact .inr ⟨_, rfl, rfl, rfl⟩
  · exact .inr ⟨_, rfl, rfl, rfl⟩

end

/-- How far a call has come: what it has performed, whether it has found its runtime open, and
whether it has found its session open, and has held the lock since. -/
structure Course where
  op : Option Registry.Action
  sure : Bool
  seen : Bool

namespace Course

def start : Course := ⟨none, false, false⟩

/-- Whether the call still knows its runtime to be open. -/
def sureAfter (g : Course) : (e : Op) → e.Resp → Bool
  | .rt _ .getClosed, closed => !closed
  | .rt _ .setClosed, _ | .rt _ .unlock, _ => false
  | _, _ => g.sure

/-- Whether the call still knows its session to be open. -/
def seenAfter (g : Course) : (e : Op) → e.Resp → Bool
  | .sess _ .getNative, n => n.isSome
  | .sess _ .clearNative, _ | .sess _ .rUnlock, _ | .sess _ .unlock, _ => false
  | _, _ => g.seen

end Course

/-- A call changes the registry once, as it says, and makes a session only when it is sure that its
runtime is open. -/
def Call.MayAlter (c : Call) (g : Course) : Op → Prop
  | .newRuntime _ => c.Opens ∧ g.op = none
  | .newSession r _ _ _ _ => c.loadArgs.map (·.1) = some r ∧ g.op = none ∧ g.sure
  | .rt r .setClosed => c = .closeRuntime r ∧ g.op = none
  | .sess _ .clearNative => (∃ s, c = .closeSession s) ∧ g.op = none
  | _ => True

/-- What is open has its native part. -/
def Op.Backed (g : Course) : (e : Op) → e.Resp → Prop
  | .rt _ .getNative, n => g.sure → n.isSome
  | .sess _ .getNative, n => g.seen → n.isSome
  | _, _ => True

/-- The protocol of a call's linearization point. -/
def Call.course (c : Call) : Spec Op Op.Resp Course where
  pre e g := c.MayAlter g e
  env e g a := e.Backed g a
  upd e a g := ⟨g.op <|> c.point e a, g.sureAfter e a, g.seenAfter e a⟩

section
variable {c : Call} {g : Course} {α : Type}

theorem Op.Still.quiet {e : Op} (h : e.Still) : e.Quiet := by
  cases e with
  | rt r o => cases o <;> trivial
  | sess s o => cases o <;> trivial
  | newRuntime => exact h.elim
  | newSession => exact h.elim
  | _ => trivial

theorem Op.Body.quiet {e : Op} (h : e.Body) : e.Quiet := by
  cases e with
  | rt r o => cases o <;> trivial
  | sess s o => cases o <;> trivial
  | newRuntime => exact h.elim
  | newSession => exact h.elim
  | _ => trivial

theorem Op.Quiet.may {e : Op} (h : e.Quiet) : c.MayAlter g e := by
  cases e with
  | rt r o => cases o <;> trivial
  | sess s o => cases o <;> trivial
  | newRuntime => exact h.elim
  | newSession => exact h.elim
  | _ => trivial

theorem Call.course_still {e : Op} (h : e.Still) (a : e.Resp) : c.course.upd e a g = g := by
  have hparts : c.point e a = none ∧ g.sureAfter e a = g.sure ∧ g.seenAfter e a = g.seen := by
    cases e with
    | rt r o =>
      cases o <;> first
        | exact h.elim
        | exact ⟨rfl, rfl, rfl⟩
    | sess s o =>
      cases o <;> first
        | exact h.elim
        | exact ⟨rfl, rfl, rfl⟩
    | newRuntime => exact h.elim
    | newSession => exact h.elim
    | _ => exact ⟨rfl, rfl, rfl⟩
  obtain ⟨hpoint, hsure, hseen⟩ := hparts
  show Course.mk (g.op <|> c.point e a) (g.sureAfter e a) (g.seenAfter e a) = g
  rw [hpoint, hsure, hseen, show (g.op <|> none) = g.op by cases g.op <;> rfl]

/-- Code that does not look at the registry. -/
theorem wp_still {p : Act α} {Q : α → Course → Prop} (hp : Uses Op.Still p) (hQ : ∀ a, Q a g) :
    wp c.course p Q g := by
  induction p with
  | ret a => exact hQ a
  | op e k ih =>
    refine ⟨hp.1.quiet.may, fun r _ => ?_⟩
    rw [Call.course_still hp.1]
    exact ih r (hp.2 r)

/-- Code of a call that has performed its operation. -/
theorem wp_settled {o : Registry.Action} {p : Act α} {Y : α → Prop}
    (hp : Uses Op.Quiet p) (hg : g.op = some o)
    (hY : wp (assuming fun _ => True) p (fun a _ => Y a) ()) :
    wp c.course p (fun a g' => g'.op = some o ∧ Y a) g := by
  induction p generalizing g with
  | ret a => exact ⟨hg, hY⟩
  | op e k ih =>
    refine ⟨hp.1.may, fun r _ => ih r (hp.2 r) ?_ (hY.2 r trivial)⟩
    simp [Call.course, hg]

end

/-! ## bridge.c

Native calls do not look at the registry. -/

section
variable [Platform] {α : Type}

omit [Platform] in
theorem cgo_still {f : CFunc} {body : Act α} (h : Uses Op.Still body) : Uses Op.Still (cgo f body) :=
  cgo_uses trivial trivial h

namespace Bridge

omit [Platform] in
theorem ocClose_still (r : Option OcRuntime) : Uses Op.Still (ocClose r) := by
  cases r with
  | none => trivial
  | some r =>
    exact (whenSome_uses fun m => .perform trivial).bind fun _ =>
      (whenSome_uses fun e => .perform trivial).bind fun _ =>
      (whenSome_uses fun l => .perform trivial).bind fun _ => .perform trivial

omit [Platform] in
theorem ocOpenFail_still (r : OcRuntime) (text : GoString) : Uses Op.Still (ocOpenFail r text) :=
  .bind (.bind (.perform trivial) fun _ => .pure _) fun _ =>
    (ocClose_still (some r)).bind fun _ => .pure _

theorem ocOpen_still (path : CStr) : Uses Op.Still (ocOpen path) := by
  have hinit : UsesCode Op.Still ocOpenInit :=
    .bind (.check (.perform trivial)) fun env => .bind (.modify _) fun _ =>
    .bind (.check (.perform trivial)) fun _ => .bind (.check (.perform trivial)) fun _ =>
    .bind (.modify _) fun _ => .bind (.check (.perform trivial)) fun _ => .modify _
  have hstrdup : ∀ text, Uses Op.Still (strdup text) := fun text =>
    .bind (.perform trivial) fun _ => .pure _
  refine (Uses.perform trivial).bind fun addr => ?_
  cases addr with
  | none => exact (hstrdup _).bind fun _ => .pure _
  | some addr =>
  refine (Uses.perform trivial).bind fun library => ?_
  cases library with
  | none => exact (Uses.perform trivial).bind fun _ => ocOpenFail_still ..
  | some library =>
  refine (Uses.perform trivial).bind fun found => ?_
  dsimp only
  split
  · exact ocOpenFail_still ..
  refine (Uses.perform trivial).bind fun base => ?_
  cases base with
  | none => exact ocOpenFail_still ..
  | some base =>
  refine (Uses.perform trivial).bind fun api => ?_
  cases api with
  | none => exact ocOpenFail_still ..
  | some api =>
  refine (Uses.perform trivial).bind fun version => (hinit _).bind fun x => ?_
  obtain ⟨r, status | _⟩ := x
  · exact (Uses.perform trivial).bind fun _ => (Uses.perform trivial).bind fun _ =>
      (hstrdup _).bind fun _ => (Uses.perform trivial).bind fun _ =>
      (ocClose_still _).bind fun _ => .pure _
  · exact .pure _

omit [Platform] in
theorem ocOptionsNew_still (config : OcOptions) : Uses Op.Still (ocOptionsNew config) := by
  have hbody : UsesCode Op.Still (ocOptionsNewBody config) :=
    .bind (.check (.perform trivial)) fun o => .bind (.modify _) fun _ =>
    .bind (.check (.perform trivial)) fun _ => .bind (.check (.perform trivial)) fun _ =>
    .bind (.check (.perform trivial)) fun _ =>
    .bind (.lift (rd_uses _ _ fun _ => trivial)) fun _ =>
    .bind (.check (.perform trivial)) fun _ => .pure o
  refine (hbody none).bind fun x => ?_
  obtain ⟨o, status | h⟩ := x
  · exact (whenSome_uses fun o => .perform trivial).bind fun _ => .pure _
  · exact .pure _

omit [Platform] in
theorem ocProviderV2_still {create : Act (Fallible Handle)}
    {update append : Handle → Act (Fallible Unit)} {release : Handle → Act Unit}
    (hc : Uses Op.Still create) (hu : ∀ p, Uses Op.Still (update p))
    (ha : ∀ p, Uses Op.Still (append p)) (hr : ∀ p, Uses Op.Still (release p)) :
    Uses Op.Still (ocProviderV2 create update append release) := by
  have hcode : UsesCode Op.Still (do
      let p ← .check create
      .modify fun _ => some p
      .check (update p)
      .check (append p) : CCode (Option Handle) Unit) :=
    .bind (.check hc) fun p => .bind (.modify _) fun _ => .bind (.check (hu p)) fun _ => .check (ha p)
  exact (hcode none).bind fun x => (whenSome_uses hr).bind fun _ => .pure _

omit [Platform] in
theorem ocProvider_still (o : Handle) (name : CStr) (keys values : List CStr) :
    Uses Op.Still (ocProvider o name keys values) := by
  unfold ocProvider
  split
  · exact ocProviderV2_still (.perform trivial) (fun _ => .perform trivial)
      (fun _ => .perform trivial) fun _ => .perform trivial
  split
  · exact ocProviderV2_still (.perform trivial) (fun _ => .perform trivial)
      (fun _ => .perform trivial) fun _ => .perform trivial
  split
  · exact .perform trivial
  · exact .perform trivial

theorem ocLoad_still (r : OcRuntime) (path : Option CStr) (data : List UInt8) (options : Handle) :
    Uses Op.Still (ocLoad r path data options) := by
  refine (ocLoad_uses r path data options).mono fun e he => ?_
  cases e with
  | nat o => trivial
  | fault f => trivial
  | _ => exact he.elim

theorem ocSessionFree_still (s : Option OcSession) : Uses Op.Still (ocSessionFree s) := by
  refine (ocSessionFree_uses s).mono fun e he => ?_
  cases e with
  | nat o => trivial
  | fault f => trivial
  | _ => exact he.elim

end Bridge

/-! ## runtime.go -/

omit [Platform] in
theorem nativeError_still (r : Option OcRuntime) (x : Fallible α) :
    Uses Op.Still (nativeError r x) := by
  refine (nativeError_uses r x).mono fun e he => ?_
  cases e with
  | nat o => trivial
  | fault f => trivial
  | enter f => trivial
  | leave f => trivial
  | _ => exact he.elim

omit [Platform] in
theorem cString_still (text : GoString) : Uses Op.Still (cString text) :=
  (Uses.perform trivial).bind fun _ => .pure _

namespace Runtime

omit [Platform] in
theorem native_still (r : Nat) (f : OcRuntime → CFunc) {body : OcRuntime → Act (Fallible α)}
    (h : ∀ n, Uses Op.Still (body n)) : Uses Op.Still (native r f body) :=
  (Uses.perform trivial).bind fun _ => (Uses.perform trivial).bind fun _ =>
    (deref_uses _ fun _ => trivial).bind fun n => (cgo_still (h n)).bind fun _ =>
    nativeError_still ..

end Runtime

end

end Onnxcraft
