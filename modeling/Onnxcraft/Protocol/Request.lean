import Onnxcraft.Protocol.Uses
import Onnxcraft.Tensor.Size

/-!
# Requests

What a run is asked for, what it logs, and the protocol of its log: `Request.May` says what a run
may do after the events it has logged, `Request.Knows` what it may rely on in an answer.
-/

namespace Onnxcraft

open Effect

/-! ## Requests -/

/-- What a run is asked for; `Run` has no outputs. -/
structure Request where
  s : Session
  ctx : Ctx
  inputs : List Tensor
  outputs : List Tensor
  into : Bool
  nil : into = false → outputs = []

/-- The request of a call. -/
def Call.request : Call → Option Request
  | .run s ctx inputs => some ⟨s, ctx, inputs, [], false, fun _ => rfl⟩
  | .runInto s ctx outputs inputs => some ⟨s, ctx, inputs, outputs, true, nofun⟩
  | _ => none

namespace Request

/-- The tensors given to ORT, in order. -/
def tensors (q : Request) : List Tensor := q.inputs ++ q.outputs

/-- The number of ports of the session. -/
def ports (q : Request) : Nat := q.s.inputs.length + q.s.outputs.length

section
variable [Platform]

/-- The code of the run. -/
def prog (q : Request) : Act (Except GoError (List Tensor)) := q.s.run q.ctx q.inputs q.outputs q.into

/-- A request that may be handed to ORT. -/
structure Ready (q : Request) : Prop where
  inputs : q.inputs.length = q.s.inputs.length
  outputs : q.into = true → q.outputs.length = q.s.outputs.length
  apart : Session.firstOverlap q.inputs [] q.outputs = none
  typed : ∀ t ∈ q.tensors, t.dtype.size ≠ 0

end

end Request

/-! ## What is logged -/

/-- What an operation of a run is about. -/
inductive Note where
  | context | options | entry | create | run | query | copy
  deriving DecidableEq

/-- The operations that a run's log records. -/
def Op.note : Op → Option Note
  | .ctxErr _ | .sess _ (.gateSelect _) => some .context
  | .enter (.ocRun _) | .enter (.ocRunInto _) => some .entry
  | .mem (.make _) | .mem (.load _ _) | .mem (.store _ _) => some .copy
  | .nat o => match o with
    | .createRunOptions => some .options
    | .createTensorWithDataAsOrtValue _ _ _ _ _ _ => some .create
    | .run _ _ _ _ _ _ => some .run
    | .getTensorElementTypeAndShapeDataReference _ | .getTensorSizeInBytes _
    | .getTensorMutableData _ => some .query
    | _ => none
  | _ => none

@[simp] theorem note_ctxErr (c : Ctx) : (Op.ctxErr c).note = some .context := rfl

@[simp] theorem note_run (s o : Option Handle) (a c : List (Option CStr)) (b d : List (Option Handle)) :
    (Op.nat (.run s o a b c d)).note = some .run := rfl

def Op.Noted (e : Op) : Prop := e.note.isSome

instance : DecidablePred Op.Noted := fun e => inferInstanceAs (Decidable (e.note.isSome = true))

/-- The events of a log about `k`. -/
def noted (k : Note) (l : Trace) : Trace := marked (fun e => e.note = some k) l

@[simp] theorem noted_nil (k : Note) : noted k [] = [] := rfl

@[simp] theorem noted_append (k : Note) (l l' : Trace) :
    noted k (l ++ l') = noted k l ++ noted k l' := marked_append ..

@[simp] theorem noted_cons (k : Note) (ev : Event Op Op.Resp) (l : Trace) :
    noted k (ev :: l) = if ev.1.note = some k then ev :: noted k l else noted k l := by
  simp only [noted, marked, List.filter_cons, decide_eq_true_eq]

/-- The notes of a trace are those of its log. -/
theorem noted_marked (k : Note) (tr : Trace) : noted k (marked Op.Noted tr) = noted k tr := by
  induction tr with
  | nil => rfl
  | cons ev tr ih =>
    by_cases h : ev.1.Noted
    · rw [show marked Op.Noted (ev :: tr) = ev :: marked Op.Noted tr from List.filter_cons_of_pos
        (by simpa using h), noted_cons, noted_cons, ih]
    · rw [show marked Op.Noted (ev :: tr) = marked Op.Noted tr from List.filter_cons_of_neg
        (by simpa using h), ih, noted_cons, if_neg fun hk => h (by simp [Op.Noted, hk])]

/-- A list of events that are all about `k`. -/
theorem noted_self {k : Note} {l : Trace} (h : ∀ ev ∈ l, ev.1.note = some k) : noted k l = l :=
  List.filter_eq_self.2 fun ev hev => by simpa using h ev hev

theorem noted_other {k k' : Note} {l : Trace} (h : ∀ ev ∈ l, ev.1.note = some k) (hk : k ≠ k') :
    noted k' l = [] :=
  List.filter_eq_nil_iff.2 fun ev hev => by simpa [h ev hev] using hk

/-- The run has seen that its context is done. -/
def cancels : Event Op Op.Resp → Bool
  | ⟨.ctxErr _, e⟩ => e.isSome
  | ⟨.sess _ (.gateSelect _), sent⟩ => !sent
  | _ => false

section
variable [Platform]

/-- The `i`-th tensor becomes a native value. -/
def createEvent (memory : Option Handle) (t : Tensor) (h : Handle) : Event Op Op.Resp :=
  let d := Session.descriptor t
  ⟨.nat (.createTensorWithDataAsOrtValue memory (if d.bytes ≠ 0 then d.data else Platform.emptyAddr)
    d.bytes d.shape d.rank d.type), .ok h⟩

/-- The tensors become native values, in order. -/
def createEvents (memory : Option Handle) (ts : List Tensor) (hs : List Handle) : Trace :=
  ts.zipWith (createEvent memory) hs

end

/-- What ORT replies about one output. -/
structure Reply where
  value : Handle
  type : ElementType
  shape : List Int
  bytes : Nat
  data : Nat

namespace Reply

/-- The events in which ORT replies. -/
def queries (o : Reply) : Trace :=
  [⟨.nat (.getTensorElementTypeAndShapeDataReference (some o.value)), .ok (o.type, o.shape)⟩,
    ⟨.nat (.getTensorSizeInBytes (some o.value)), .ok o.bytes⟩,
    ⟨.nat (.getTensorMutableData (some o.value)), .ok o.data⟩]

/-- The descriptor filled from the reply. -/
def filled (o : Reply) : OcTensor where
  data := o.data
  shape := o.shape
  bytes := o.bytes
  rank := o.shape.length
  type := o.type.code
  value := some o.value

section
variable [Platform]

/-- The tensor made from the reply, over the storage `ptr`. -/
structure Gives (o : Reply) (t : Tensor) : Prop where
  rank : o.shape.length < 2 ^ (Platform.bits - 1)
  shape : t.shape = o.shape
  dtype : t.dtype = DataType.ofCode o.type.code
  length : tensorSize o.shape t.dtype.size = .ok t.length
  bytes : t.length * t.dtype.size = o.bytes
  data : o.bytes ≠ 0 → o.data ≠ 0

/-- The events in which the output is copied to Go storage. -/
def copies (o : Reply) (t : Tensor) (bs : List UInt8) : Trace :=
  [⟨.mem (.make (o.bytes / 8 + min (o.bytes % 8) 1)), t.data⟩, ⟨.mem (.load o.data o.bytes), bs⟩,
    ⟨.mem (.store t.data bs), ()⟩]

end

end Reply

/-! ## The protocol -/

namespace Request

section
variable [Platform]

/-- The values that the call of ORT's `Run` is handed: one for each input in order and, for
`RunInto`, one for each output. -/
structure Handed (q : Request) (l : Trace) (ins outs : List (Option Handle)) : Prop where
  values : ∃ memory hs, noted .create l = createEvents memory q.tensors hs ∧
    hs.length = q.tensors.length ∧ ins = (hs.take q.s.inputs.length).map some ∧
    outs = if q.into then (hs.drop q.s.inputs.length).map some
      else List.replicate q.s.outputs.length none

/-- What a run may do after the events that it has logged. -/
def May (q : Request) : Op → Trace → Prop
  | .enter (.ocRun _), l => q.into = false ∧ q.Ready ∧ noted .entry l = []
  | .enter (.ocRunInto _), l => q.into = true ∧ q.Ready ∧ noted .entry l = []
  | .mem (.make _), l | .mem (.load _ _), l | .mem (.store _ _), l =>
    q.into = false ∧ noted .entry l ≠ []
  | .nat .createRunOptions, l => q.ctx.cancelable ∧ noted .options l = [] ∧ noted .entry l = []
  | .nat (.createTensorWithDataAsOrtValue memory data bytes shape rank type), l =>
    noted .entry l ≠ [] ∧ noted .run l = [] ∧
      ∃ t h, q.tensors[(noted .create l).length]? = some t ∧ createEvent memory t h =
        ⟨.nat (.createTensorWithDataAsOrtValue memory data bytes shape rank type), .ok h⟩
  | .nat (.run _ _ inputNames ins outputNames outs), l =>
    noted .entry l ≠ [] ∧ noted .run l = [] ∧ q.Handed l ins outs ∧
      inputNames.map (·.map (·.text)) = q.s.inputs.map (some ·.name) ∧
      outputNames.map (·.map (·.text)) = q.s.outputs.map (some ·.name)
  | _, _ => True

/-- What a run may rely on in an answer. -/
def Knows (q : Request) : (e : Op) → Trace → e.Resp → Prop
  | .sess _ .getNative, _, a => ∀ n, a = some n → n.Matches q.s.inputs q.s.outputs
  | .ctxErr _, l, a => l.any cancels → a.isSome
  | .pool .get, _, b => b.Clean
  | .mem (.load _ n), _, bs => bs.length = n
  | .nat o, _, a => o.Allows a
  | _, _, _ => True

/-- The protocol of a run's log. -/
def logged (q : Request) : Spec Op Op.Resp Trace := logs Op.Noted q.May q.Knows

end

end Request

section
variable [Platform] {q : Request} {l : Trace} {α σ ε : Type}

/-- A logged operation. -/
theorem wp_note {e : Op} {k : Note} (he : e.note = some k) {Q : e.Resp → Trace → Prop} :
    wp q.logged (Prog.perform e) Q l ↔ q.May e l ∧ ∀ a, q.Knows e l a → Q a (l ++ [⟨e, a⟩]) := by
  have h : e.Noted := by simp [Op.Noted, he]
  exact wp_recorded h

/-- An operation that is not logged. -/
theorem wp_silent {e : Op} (he : e.note = none) {Q : e.Resp → Trace → Prop} :
    wp q.logged (Prog.perform e) Q l ↔ ∀ a, q.Knows e l a → Q a l := by
  have h : ¬e.Noted := by simp [Op.Noted, he]
  exact wp_passed h

omit [Platform] in
theorem Op.Tidy.silent {e : Op} (h : e.Tidy) : ¬e.Noted := by
  cases e with
  | enter f => cases f <;> first | exact h.elim | exact Bool.false_ne_true
  | leave f => exact Bool.false_ne_true
  | nat o => cases o <;> first | exact h.elim | exact Bool.false_ne_true
  | fault f => exact Bool.false_ne_true
  | _ => exact h.elim

omit [Platform] in
theorem Op.Finishes.silent {e : Op} (h : e.Finishes) : ¬e.Noted := by
  cases e with
  | enter f => cases f <;> first | exact h.elim | exact Bool.false_ne_true
  | leave f => exact Bool.false_ne_true
  | cb o => exact Bool.false_ne_true
  | nat o => cases o <;> first | exact h.elim | exact Bool.false_ne_true
  | _ => exact h.elim

theorem wp_note_nat {o : NativeOp} {k : Note} (ho : (Op.nat o).note = some k) {Q : o.Resp → Trace → Prop} :
    wp q.logged (nat o) Q l ↔ q.May (.nat o) l ∧ ∀ a, o.Allows a → Q a (l ++ [⟨.nat o, a⟩]) :=
  wp_note ho

theorem wp_silent_nat {o : NativeOp} (ho : (Op.nat o).note = none) {Q : o.Resp → Trace → Prop} :
    wp q.logged (nat o) Q l ↔ ∀ a, o.Allows a → Q a l :=
  wp_silent ho

/-- Cleaning up is not logged. -/
theorem wp_tidy {p : Act α} (hp : Uses Op.Tidy p) {Q : α → Trace → Prop} (hQ : ∀ a, Q a l) :
    wp q.logged p Q l :=
  wp_unrecorded (hp.mono fun _ h => h.silent) hQ

/-! ## The helpers of the model -/

theorem wp_note_fault {f : Fault} {Q : α → Trace → Prop} :
    wp q.logged (fault f : Act α) Q l :=
  ⟨fun h => absurd h Bool.false_ne_true, nofun⟩

theorem wp_note_deref {o : Option α} {Q : α → Trace → Prop} (hQ : ∀ a, o = some a → Q a l) :
    wp q.logged (deref o) Q l := by
  cases o with
  | none => exact wp_note_fault
  | some a => exact hQ a rfl

theorem wp_note_rd {xs : List α} {i : Nat} {Q : α → Trace → Prop}
    (hQ : ∀ a, xs[i]? = some a → Q a l) : wp q.logged (rd xs i) Q l := by
  unfold rd
  split
  next a ha => exact hQ a ha
  next => exact wp_note_fault

theorem wp_note_wr {xs : List α} {i : Nat} {a : α} {Q : List α → Trace → Prop}
    (hQ : i < xs.length → Q (xs.set i a) l) : wp q.logged (wr xs i a) Q l := by
  unfold wr
  split
  next h => exact hQ h
  next => exact wp_note_fault

theorem wp_note_slice {xs : List α} {i n : Nat} {Q : List α → Trace → Prop}
    (hQ : i + n ≤ xs.length → Q ((xs.drop i).take n) l) : wp q.logged (slice xs i n) Q l := by
  unfold slice
  split
  next h => exact hQ h
  next => exact wp_note_fault

theorem wp_note_goSlice {xs : List α} {n : Int} {Q : List α → Trace → Prop}
    (hQ : 0 ≤ n → n.toNat ≤ xs.length → Q (xs.take n.toNat) l) : wp q.logged (goSlice xs n) Q l := by
  unfold goSlice
  split
  · exact wp_note_fault
  next hn => exact wp_note_slice fun h => by simpa using hQ (by omega) (by omega)

end

end Onnxcraft
