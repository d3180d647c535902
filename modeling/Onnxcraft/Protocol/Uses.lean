import Onnxcraft.Effect.History
import Onnxcraft.Protocol.Held

/-!
# The operations of a run

Which operations the functions under `Session.run` perform. The bridge makes native calls only; a
run takes its session's read lock once, first, and gives it back last (`run_cases`).
-/

namespace Onnxcraft

open Effect

/-- A native call of a run: its only heap block is an array of more than 16 values. -/
def NativeOp.InRun : NativeOp → Prop
  | .malloc _ | .strdup _ | .cString _ => False
  | .calloc n _ => 16 < n
  | _ => True

/-- A native call of a run that is not about its run options. -/
def NativeOp.InBridge : NativeOp → Prop
  | .createRunOptions | .releaseRunOptions _ => False
  | o => o.InRun

/-- A native call of the bridge, or a fault. -/
def Op.Native : Op → Prop
  | .nat o => o.InBridge
  | .fault _ => True
  | _ => False

/-- A C function that frees what a run has acquired, or reads an error. -/
def CFunc.Tidy : CFunc → Prop
  | .ocErrorCode _ | .ocErrorMessage _ | .ocErrorFree _ | .ocOutputsFree _ => True
  | _ => False

/-- What cleans up or reads an error: it asks nothing that the outcome of a run depends on. -/
def Op.Tidy : Op → Prop
  | .enter f | .leave f => f.Tidy
  | .fault _ => True
  | .nat o => match o with
    | .free _ | .getErrorCode _ | .getErrorMessage _ | .releaseStatus _ | .releaseValue _ => True
    | _ => False
  | _ => False

/-- What `finish` does. -/
def Op.Finishes : Op → Prop
  | .enter (.ocRunOptionsFree _) | .leave (.ocRunOptionsFree _) => True
  | .cb (.stop _) | .cb (.recvDone _) | .nat (.releaseRunOptions _) => True
  | _ => False

/-- What pins the arguments of a run. -/
def Op.Pins : Op → Prop
  | .mem (.pin _) | .mem (.pinShape _) | .fault _ => True
  | _ => False

/-- What a run does under its read lock. -/
def Op.Body : Op → Prop
  | .sess _ .getNative | .sess _ (.gateSelect _) | .sess _ .gateRecv | .rt _ .getNative => True
  | .ctxErr _ | .pool _ | .cb _ | .mem _ | .enter _ | .leave _ | .fault _ => True
  | .nat o => o.InRun
  | _ => False

/-- What a run does with its run options and the callback that may use them. -/
def Op.OnOptions : Op → Prop
  | .enter (.ocRunOptionsFree _) | .cb _ => True
  | .nat .createRunOptions | .nat (.releaseRunOptions _) => True
  | _ => False

/-- What a run does under its read lock without touching its run options. -/
structure Op.Inner (e : Op) : Prop where
  body : e.Body
  apart : ¬e.OnOptions

theorem NativeOp.InBridge.inRun {o : NativeOp} (h : o.InBridge) : o.InRun := by
  cases o <;> first | exact h | trivial

theorem Op.Native.inner {e : Op} (h : e.Native) : e.Inner := by
  cases e with
  | nat o =>
    refine ⟨NativeOp.InBridge.inRun h, ?_⟩
    cases o <;> first | exact not_false | exact h.elim
  | fault f => exact ⟨trivial, not_false⟩
  | _ => exact h.elim

theorem Op.Tidy.inner {e : Op} (h : e.Tidy) : e.Inner := by
  cases e with
  | enter f => cases f <;> first | exact ⟨trivial, not_false⟩ | exact h.elim
  | leave f => exact ⟨trivial, not_false⟩
  | fault f => exact ⟨trivial, not_false⟩
  | nat o => cases o <;> first | exact ⟨trivial, not_false⟩ | exact h.elim
  | _ => exact h.elim

theorem Op.Finishes.body {e : Op} (h : e.Finishes) : e.Body := by
  cases e with
  | nat o => cases o <;> trivial
  | _ => trivial

theorem Op.Pins.inner {e : Op} (h : e.Pins) : e.Inner := by
  cases e with
  | mem o => exact ⟨trivial, not_false⟩
  | fault f => exact ⟨trivial, not_false⟩
  | _ => exact h.elim

section
variable {α : Type} {A : Op → Prop}

/-! ## The helpers of the model -/

theorem fault_uses (f : Fault) (h : A (.fault f)) : Uses A (fault f : Act α) := ⟨h, nofun⟩

theorem deref_uses (o : Option α) (h : ∀ f, A (.fault f)) : Uses A (deref o) := by
  cases o with
  | none => exact fault_uses _ (h _)
  | some a => trivial

theorem rd_uses (l : List α) (i : Nat) (h : ∀ f, A (.fault f)) : Uses A (rd l i) := by
  unfold rd
  split
  · trivial
  · exact fault_uses _ (h _)

theorem wr_uses (l : List α) (i : Nat) (a : α) (h : ∀ f, A (.fault f)) : Uses A (wr l i a) := by
  unfold wr
  split
  · trivial
  · exact fault_uses _ (h _)

theorem slice_uses (l : List α) (i n : Nat) (h : ∀ f, A (.fault f)) : Uses A (slice l i n) := by
  unfold slice
  split
  · trivial
  · exact fault_uses _ (h _)

theorem goSlice_uses (l : List α) (n : Int) (h : ∀ f, A (.fault f)) : Uses A (goSlice l n) := by
  unfold goSlice
  split
  · exact fault_uses _ (h _)
  · exact slice_uses _ _ _ h

theorem cgo_uses {f : CFunc} {body : Act α} (he : A (.enter f)) (hl : A (.leave f))
    (hb : Uses A body) : Uses A (cgo f body) :=
  (Uses.perform he).bind fun _ => hb.bind fun _ => (Uses.perform hl).bind fun _ => trivial

theorem whenSome_uses {p : Option α} {f : α → Act Unit} (h : ∀ a, Uses A (f a)) :
    Uses A (whenSome p f) := by
  cases p with
  | none => trivial
  | some a => exact h a

theorem freePtr_uses (p : Option Handle) (h : ∀ p, A (.nat (.free p))) : Uses A (freePtr p) :=
  whenSome_uses fun _ => .perform (h _)

end

section
variable [Platform] {α : Type}

/-! ## bridge.c -/

namespace Bridge

omit [Platform] in
theorem ocOutputsFree_uses (s : OcSession) (outputs : List OcTensor) :
    Uses Op.Tidy (ocOutputsFree s outputs) :=
  .fold (fun _ _ => (rd_uses _ _ fun _ => trivial).bind fun _ =>
    (whenSome_uses fun _ => .perform trivial).bind fun _ => .pure _) _ _

omit [Platform] in
theorem runRelease_uses (values : List (Option Handle)) (i : Nat) :
    Uses Op.Tidy (runRelease values i) :=
  (rd_uses _ _ fun _ => trivial).bind fun _ => whenSome_uses fun _ => .perform trivial

theorem runValues_uses (n : Nat) : Uses Op.Native (runValues n) := by
  unfold runValues
  split
  · trivial
  next hn =>
    have hin : Op.Native (.nat (.calloc n pointerBytes)) := Nat.lt_of_not_le hn
    exact (Uses.perform hin).bind fun _ => trivial

theorem runCreate_uses (s : OcSession) (inputs : List OcTensor)
    (preallocated : Option (List OcTensor)) (i : Nat) :
    UsesCode Op.Native (runCreate s inputs preallocated i) := by
  unfold runCreate
  split
  · exact .pure ()
  refine .bind (.lift ?_) fun t => .bind (.check (.perform trivial)) fun v => .bind .get fun vars =>
    .bind (.lift (wr_uses _ _ _ fun _ => trivial)) fun _ => .modify _
  split
  · exact rd_uses _ _ fun _ => trivial
  · exact (deref_uses _ fun _ => trivial).bind fun _ => rd_uses _ _ fun _ => trivial

omit [Platform] in
theorem runCall_uses (s : OcSession) (options : Option Handle) :
    UsesCode Op.Native (runCall s options) := by
  refine .bind .get fun vars => .bind (.lift (deref_uses _ fun _ => trivial)) fun names =>
    .bind (.lift (slice_uses _ _ _ fun _ => trivial)) fun _ =>
    .bind (.lift (slice_uses _ _ _ fun _ => trivial)) fun _ =>
    .bind (.lift (slice_uses _ _ _ fun _ => trivial)) fun _ =>
    .bind (.lift (slice_uses _ _ _ fun _ => trivial)) fun _ =>
    .bind (.lift (.perform trivial)) fun reply => .bind (.modify _) fun _ => ?_
  split
  · exact .pure ()
  · exact .fail _

omit [Platform] in
theorem runOutput_uses (s : OcSession) (i : Nat) : UsesCode Op.Native (runOutput s i) := by
  refine .bind .get fun vars => .bind (.lift (deref_uses _ fun _ => trivial)) fun outputs =>
    .bind (.lift (rd_uses _ _ fun _ => trivial)) fun t =>
    .bind (.lift (rd_uses _ _ fun _ => trivial)) fun value => .bind (.modify _) fun _ =>
    .bind (.check (.perform trivial)) fun memory => .bind (.lift (.perform trivial)) fun device => ?_
  split
  · exact .bind (.lift (.perform trivial)) fun _ => .fail _
  · exact .bind (.check (.perform trivial)) fun (_, _) => .bind (.modify _) fun _ =>
      .bind (.check (.perform trivial)) fun _ => .bind (.modify _) fun _ =>
      .bind (.check (.perform trivial)) fun _ => .modify _

theorem run_uses (s : OcSession) (options : Option Handle) (inputs : List OcTensor)
    (preallocated outputs : Option (List OcTensor)) :
    Uses Op.Inner (run s options inputs preallocated outputs) := by
  refine ((runValues_uses _).mono fun _ h => h.inner).bind fun values => ?_
  have hbody : ∀ n, UsesCode Op.Native (runBody s options inputs preallocated n) := fun n => by
    refine .bind (.forEach (runCreate_uses s inputs preallocated) _) fun _ =>
      .bind (runCall_uses s options) fun _ => ?_
    split
    · exact .forEach (runOutput_uses s) _
    · exact .pure ()
  split
  · exact (Uses.perform ⟨trivial, not_false⟩).bind fun _ => trivial
  · refine ((hbody _ _).mono fun _ h => h.inner).bind ?_
    rintro ⟨vars, res⟩
    refine ((Uses.fold (fun i _ => runRelease_uses vars.values i) _ ()).mono fun _ h => h.inner).bind
      fun _ => (freePtr_uses _ fun _ => ⟨trivial, not_false⟩).bind fun _ => ?_
    split
    · trivial
    · exact ((ocOutputsFree_uses s _).mono fun _ h => h.inner).bind fun _ => trivial
    · trivial

end Bridge

/-! ## session.go -/

omit [Platform] in
theorem nativeError_uses (r : Option OcRuntime) (x : Fallible α) :
    Uses Op.Tidy (nativeError r x) := by
  cases x with
  | ok a => trivial
  | error status =>
    exact (deref_uses _ fun _ => trivial).bind fun r =>
      (cgo_uses trivial trivial (.perform trivial)).bind fun _ =>
      (cgo_uses trivial trivial (.perform trivial)).bind fun _ =>
      (cgo_uses trivial trivial (.perform trivial)).bind fun _ => trivial

omit [Platform] in
theorem finish_uses (r : OcRuntime) (options : Handle) (id : Nat) :
    Uses Op.Finishes (finish r options id) := by
  refine (Uses.perform trivial).bind fun stopped => ?_
  refine .bind ?_ fun _ => cgo_uses trivial trivial (.perform trivial)
  split
  · trivial
  · exact .perform trivial

namespace Session

theorem fillDescriptor_uses (t : Tensor) : UsesCode Op.Pins (fillDescriptor t) := by
  refine .bind .get ?_
  rintro ⟨descriptors, index⟩
  dsimp only
  split
  · exact .fail _
  refine .bind ?_ fun _ => .bind ?_ fun _ => .bind (.lift (wr_uses _ _ _ fun _ => trivial)) fun _ =>
    .modify _
  all_goals
    split
    · exact .pure ()
    · exact .lift (.perform trivial)

theorem collectOutput_uses (output : OcTensor) : UsesCode Op.Inner (collectOutput output) := by
  refine .bind (.lift (goSlice_uses _ _ fun _ => ⟨trivial, not_false⟩)) fun shape => ?_
  dsimp only
  split
  · exact .fail _
  refine .bind .get fun result => ?_
  split
  · exact .fail _
  refine .bind ?_ fun _ => .bind (.lift (.perform ⟨trivial, not_false⟩)) fun _ =>
    .bind (.lift (.perform ⟨trivial, not_false⟩)) fun _ => .bind (.lift (.perform ⟨trivial, not_false⟩)) fun _ => .modify _
  split
  · exact .lift (fault_uses _ ⟨trivial, not_false⟩)
  · exact .pure ()

theorem collect_uses (ctx : Ctx) (r : Option OcRuntime) (into : Bool) (status : Option OrtStatus)
    (outs : List OcTensor) : Uses Op.Inner (collect ctx r into status outs) := by
  refine ((nativeError_uses r _).mono fun _ h => h.inner).bind fun err =>
    (Uses.perform ⟨trivial, not_false⟩).bind fun e => ?_
  split
  · refine (Uses.perform ⟨trivial, not_false⟩).bind fun e => ?_
    split <;> trivial
  split
  · trivial
  split
  · trivial
  exact (UsesCode.forEach collectOutput_uses outs []).bind fun _ => trivial

variable (s : Session) (ctx : Ctx) (inputs outputs : List Tensor) (into : Bool)

theorem runNative_uses (r : Option OcRuntime) (options : Option Handle)
    (descriptors : List OcTensor) : Uses Op.Inner (s.runNative ctx r options into descriptors) := by
  unfold runNative
  split
  · exact fault_uses _ ⟨trivial, not_false⟩
  refine (Uses.perform ⟨trivial, not_false⟩).bind fun n => (deref_uses _ fun _ => ⟨trivial, not_false⟩).bind fun native => ?_
  split
  · refine (cgo_uses ⟨trivial, not_false⟩ ⟨trivial, not_false⟩ ((Bridge.run_uses ..).bind fun _ => .pure _)).bind fun status =>
      collect_uses ..
  · refine (cgo_uses ⟨trivial, not_false⟩ ⟨trivial, not_false⟩ ((Bridge.run_uses ..).bind fun _ =>
      (deref_uses _ fun _ => ⟨trivial, not_false⟩).bind fun _ => .pure _)).bind ?_
    rintro ⟨status, out⟩
    exact (Uses.perform ⟨trivial, not_false⟩).bind fun n => (deref_uses _ fun _ => ⟨trivial, not_false⟩).bind fun native =>
      .deferring (cgo_uses ⟨trivial, not_false⟩ ⟨trivial, not_false⟩
        (((Bridge.ocOutputsFree_uses ..).mono fun _ h => h.inner).bind fun _ => .pure _))
        (collect_uses ..)

theorem runPinned_uses (descriptors : List OcTensor) :
    Uses Op.Body (s.runPinned ctx inputs outputs into descriptors) := by
  refine ((UsesCode.forEach fillDescriptor_uses _ _).mono fun _ h => h.inner.body).bind ?_
  rintro ⟨⟨descriptors, _⟩, err | _⟩
  · trivial
  refine (Uses.perform trivial).bind fun r => ?_
  split
  · -- `finish` is part of the answer of `watchContext`
    simp only [watchContext, Prog.bind_assoc]
    refine (deref_uses _ fun _ => trivial).bind fun native =>
      (cgo_uses trivial trivial (.perform trivial)).bind fun x =>
      ((nativeError_uses r x).mono fun _ h => h.inner.body).bind ?_
    rintro (err | options)
    · trivial
    exact ⟨trivial, fun id => .deferring ((finish_uses native options id).mono fun _ h => h.body)
      ((runNative_uses ..).mono fun _ h => h.body)⟩
  · exact (runNative_uses ..).mono fun _ h => h.body

theorem runLocked_uses : Uses Op.Body (s.runLocked ctx inputs outputs into) := by
  have hbuffered : Uses Op.Body (s.runBuffered ctx inputs outputs into) :=
    (Uses.perform trivial).bind fun buffer => .deferring (.perform trivial)
      (.deferring (.perform trivial) (runPinned_uses ..))
  have hgated : Uses Op.Body (s.runGated ctx inputs outputs into) := by
    unfold runGated
    repeat' split
    all_goals first
      | exact hbuffered
      | exact .pure _
  refine (Uses.perform trivial).bind fun n => ?_
  split
  · trivial
  split
  · refine (Uses.perform trivial).bind fun sent => ?_
    split
    · refine .deferring (.perform trivial) ((Uses.perform trivial).bind fun e => ?_)
      split
      · trivial
      · exact hgated
    · refine (Uses.perform trivial).bind fun e => ?_
      split <;> trivial
  · exact hgated

/-- How far a run has come: before its read lock, under it, or past it. -/
theorem run_cases {tr : List (Event Op Op.Resp)} {q : Act (Except GoError (List Tensor))}
    (h : Runs (s.run ctx inputs outputs into) tr q) :
    (tr = [] ∨ ∃ e, tr = [⟨.ctxErr ctx, e⟩]) ∨
      ∃ tr' q', tr = ⟨.ctxErr ctx, none⟩ :: ⟨.sess s.id .rLock, ()⟩ :: tr' ∧
        ((Runs (s.runLocked ctx inputs outputs into) tr' q' ∧ ∀ ev ∈ tr', ev.1.Body) ∨
        ∃ tr'' res, tr' = tr'' ++ [⟨.sess s.id .rUnlock, ()⟩] ∧ q = .ret res ∧
          Runs (s.runLocked ctx inputs outputs into) tr'' (.ret res) ∧ ∀ ev ∈ tr'', ev.1.Body) := by
  cases tr with
  | nil => exact .inl (.inl rfl)
  | cons ev tr =>
  obtain ⟨e, rfl, h₁⟩ := Runs.op_inv h
  cases e with
  | some err =>
    obtain ⟨rfl, -⟩ := Runs.ret_inv h₁
    exact .inl (.inr ⟨_, rfl⟩)
  | none =>
  cases tr with
  | nil => exact .inl (.inr ⟨_, rfl⟩)
  | cons ev tr =>
  obtain ⟨_, rfl, h₂⟩ := Runs.op_inv h₁
  have h₂ : Runs (Prog.deferring (sess s.id .rUnlock) (s.runLocked ctx inputs outputs into)) tr q :=
    h₂
  refine .inr ⟨tr, ?_⟩
  rcases h₂.bind_inv with ⟨q', hq, -⟩ | ⟨tr₁, tr₂, res, rfl, hq, h₃⟩
  · exact ⟨q', rfl, .inl ⟨hq, hq.uses (runLocked_uses ..)⟩⟩
  cases tr₂ with
  | nil =>
    rw [List.append_nil]
    exact ⟨_, rfl, .inl ⟨hq, hq.uses (runLocked_uses ..)⟩⟩
  | cons ev tr₂ =>
    obtain ⟨_, rfl, h₄⟩ := Runs.op_inv h₃
    obtain ⟨rfl, rfl⟩ := Runs.ret_inv h₄
    exact ⟨.ret res, rfl, .inr ⟨tr₁, res, rfl, rfl, hq, hq.uses (runLocked_uses ..)⟩⟩

end Session

/-- What `Run` and `RunInto` make of the result of `Session.run`. -/
def Ret.ofRun (into : Bool) (res : Except GoError (List Tensor)) : Ret :=
  if into then .none (res.map fun _ => ()) else .tensors res

/-- The events of a call of `Run` or `RunInto` are those of `Session.run`. -/
theorem Call.run_inv {c : Call} {ctx : Ctx} (hc : c.ctx = some ctx) {tr : List (Event Op Op.Resp)}
    {q : Act Ret} (h : Runs c.prog tr q) : ∃ s inputs outputs into q',
      c.session = some s ∧ Runs (s.run ctx inputs outputs into) tr q' ∧
        (∀ ret, q = .ret ret → ∃ res, q' = .ret res ∧ ret = .ofRun into res) ∧
        ∀ res, q' = .ret res → q = .ret (.ofRun into res) := by
  cases c with
  | run s ctx' inputs =>
    obtain rfl := Option.some.inj hc
    obtain ⟨q', h', rfl⟩ := Runs.map_inv h
    refine ⟨s, inputs, [], false, q', rfl, h', fun ret hret => ?_, fun res hres => ?_⟩
    · obtain ⟨res, rfl, rfl⟩ := Prog.map_eq_ret hret
      exact ⟨res, rfl, rfl⟩
    · rw [hres]
      rfl
  | runInto s ctx' outputs inputs =>
    obtain rfl := Option.some.inj hc
    obtain ⟨q₁, h₁, rfl⟩ := Runs.map_inv h
    obtain ⟨q₂, h₂, rfl⟩ := Runs.map_inv (show Runs (_ <$> s.run ctx' inputs outputs true) tr q₁ from h₁)
    refine ⟨s, inputs, outputs, true, q₂, rfl, h₂, fun ret hret => ?_, fun res hres => ?_⟩
    · obtain ⟨r, hr, rfl⟩ := Prog.map_eq_ret hret
      obtain ⟨res, rfl, rfl⟩ := Prog.map_eq_ret hr
      exact ⟨res, rfl, rfl⟩
    · rw [hres]
      rfl
  | _ => exact nomatch hc

end

end Onnxcraft
