import Onnxcraft.Properties.Overlap
import Onnxcraft.Protocol.Calm
import Onnxcraft.Tensor.Memory

/-!
# ORT as a function on values

`Ort` is the memory that one run works on, with the values that ORT has there, and `Ort.serves F`
says that ORT computes `F` on them: `slots_handed` is what it is handed by a request, `Copied` what
a run that has succeeded has done with its replies, and `written` where.
-/

namespace Onnxcraft

open Effect

/-! ## Values -/

/-- A function on values, defined where the model can be run. -/
abbrev ModelFn := List Value → Option (List Value)

/-- The memory that a run works on, where and what the values made over a caller's memory are, and
what ORT's own values are. -/
structure Ort where
  memory : Memory UInt8
  wraps : Handle → Option (Nat × Value)
  holds : Handle → Option Value

/-- The slots of output values: those made over a caller's memory, with it. -/
abbrev Slots := List (Option (Nat × Value))

/-- What is computed has a place: a NULL slot takes any value, and a value over a caller's memory
takes those of its own type and dimensions. -/
def Slots.Fit (slots : Slots) (ys : List Value) : Prop :=
  slots.length = ys.length ∧
    ∀ p ∈ slots.zip ys, ∀ w ∈ p.1, w.2.type = p.2.type ∧ w.2.shape = p.2.shape

/-- What is written to the callers' memory. -/
def Slots.writes (slots : Slots) (ys : List Value) : List (Nat × List UInt8) :=
  (slots.zip ys).filterMap fun p => p.1.map fun w => (w.1, p.2.bytes)

namespace Ort

/-- What is known of a list of native values. -/
def slots (O : Ort) (vs : List (Option Handle)) : Slots := vs.map fun v => v.bind O.wraps

instance (slots : Slots) (ys : List Value) : Decidable (slots.Fit ys) := by
  unfold Slots.Fit
  infer_instance

/-- ORT's `Run` replies that it has computed `ys`, or nothing. -/
def Replies (O : Ort) (outs : List (Option Handle)) (reply : RunReply) : Option (List Value) → Prop
  | none => reply.status.isSome
  | some ys => (reply.status = none ↔ (O.slots outs).Fit ys) ∧ (reply.status = none →
      (∀ p ∈ outs.zip (reply.filled.zip ys), p.1 = none → p.2.1.bind O.holds = some p.2.2) ∧
        reply.writes = (O.slots outs).writes ys)

instance (O : Ort) (outs : List (Option Handle)) (reply : RunReply) :
    DecidablePred (O.Replies outs reply)
  | none => inferInstanceAs (Decidable (reply.status.isSome = true))
  | some _ => inferInstanceAs (Decidable (_ ∧ (_ → _)))

/-- What ORT's `Run` is handed. -/
def values (O : Ort) (ins : List (Option Handle)) : List Value :=
  (O.slots ins).filterMap fun w => w.map Prod.snd

section
variable [Platform]

/-- What is answered when ORT computes `F` on values and nothing else goes wrong. -/
def serves (O : Ort) (F : ModelFn) : Event Op Op.Resp → Bool
  | ⟨.nat (.createTensorWithDataAsOrtValue _ data bytes shape _ type), a⟩ => match a with
    | .ok v => O.wraps v = some (data, ⟨DataType.ofCode type, shape, O.memory.read data bytes⟩)
    | .error _ => false
  | ⟨.nat (.run _ _ _ ins _ outs), reply⟩ => O.Replies outs reply (F (O.values ins))
  | ⟨.nat (.getTensorMutableData v), a⟩ => match a with
    | .ok p => ∀ y ∈ v.bind O.holds,
      O.memory.read p y.bytes.length = y.bytes ∧ (y.bytes ≠ [] → p ≠ 0)
    | .error _ => false
  | ⟨.mem (.load p n), bs⟩ => bs = O.memory.read p n
  | ev => calm O.holds ev

section
variable {O : Ort} {F : ModelFn}

@[simp] theorem serves_create {m : Option Handle} {data bytes rank type : Nat} {shape : List Int}
    {h : Handle} :
    O.serves F ⟨.nat (.createTensorWithDataAsOrtValue m data bytes shape rank type), .ok h⟩ = true ↔
      O.wraps h = some (data, ⟨DataType.ofCode type, shape, O.memory.read data bytes⟩) :=
  decide_eq_true_iff

@[simp] theorem serves_run {session options : Option Handle} {inNames outNames : List (Option CStr)}
    {ins outs : List (Option Handle)} {reply : RunReply} :
    O.serves F ⟨.nat (.run session options inNames ins outNames outs), reply⟩ = true ↔
      O.Replies outs reply (F (O.values ins)) := decide_eq_true_iff

@[simp] theorem serves_data {v : Option Handle} {p : Nat} :
    O.serves F ⟨.nat (.getTensorMutableData v), .ok p⟩ = true ↔
      ∀ y ∈ v.bind O.holds, O.memory.read p y.bytes.length = y.bytes ∧ (y.bytes ≠ [] → p ≠ 0) :=
  decide_eq_true_iff

@[simp] theorem serves_load {p n : Nat} {bs : List UInt8} :
    O.serves F ⟨.mem (.load p n), bs⟩ = true ↔ bs = O.memory.read p n := decide_eq_true_iff

end

end

end Ort

/-! ## What a run writes -/

/-- What an event writes to memory that Go may read. -/
def writtenBy : Event Op Op.Resp → List (Nat × List UInt8)
  | ⟨.mem (.store p bs), _⟩ => [(p, bs)]
  | ⟨.nat (.run _ _ _ _ _ _), reply⟩ => reply.writes
  | _ => []

/-- What a run writes to memory that Go may read, in order. -/
def written (tr : Trace) : List (Nat × List UInt8) := tr.flatMap writtenBy

@[simp] theorem written_nil : written [] = [] := rfl

@[simp] theorem written_append (tr tr' : Trace) : written (tr ++ tr') = written tr ++ written tr' :=
  List.flatMap_append

@[simp] theorem written_cons (ev : Event Op Op.Resp) (tr : Trace) :
    written (ev :: tr) = writtenBy ev ++ written tr := List.flatMap_cons

/-- Only runs of ORT and copies write. -/
theorem writtenBy_eq_nil {ev : Event Op Op.Resp} (hrun : ev.1.note ≠ some .run)
    (hcopy : ev.1.note ≠ some .copy) : writtenBy ev = [] := by
  obtain ⟨e, a⟩ := ev
  cases e with
  | mem o => cases o <;> first | rfl | exact absurd rfl hcopy
  | nat o => cases o <;> first | rfl | exact absurd rfl hrun
  | _ => rfl

theorem written_of_note {k : Note} {tr : Trace} (h : ∀ ev ∈ tr, ev.1.note = some k) (hrun : k ≠ .run)
    (hcopy : k ≠ .copy) : written tr = [] := by
  refine List.flatMap_eq_nil_iff.2 fun ev hev => writtenBy_eq_nil ?_ ?_
  · simpa [h ev hev] using hrun
  · simpa [h ev hev] using hcopy

/-- What a run writes is in its log. -/
theorem written_marked (tr : Trace) : written (marked Op.Noted tr) = written tr := by
  induction tr with
  | nil => rfl
  | cons ev tr ih =>
    by_cases h : ev.1.Noted
    · rw [show marked Op.Noted (ev :: tr) = ev :: marked Op.Noted tr from List.filter_cons_of_pos
        (by simpa using h), written_cons, written_cons, ih]
    · have hnone : ev.1.note = none := by simpa [Op.Noted] using h
      rw [show marked Op.Noted (ev :: tr) = marked Op.Noted tr from List.filter_cons_of_neg
        (by simpa using h), ih, written_cons, writtenBy_eq_nil, List.nil_append]
      · simp [hnone]
      · simp [hnone]

theorem written_copies (cs : List Copy) :
    written (copyEvents cs) = cs.map fun c => (c.tensor.data, c.bytes) := by
  induction cs with
  | nil => rfl
  | cons c cs ih =>
    rw [show copyEvents (c :: cs) = c.reply.copies c.tensor c.bytes ++ copyEvents cs from List.flatMap_cons,
      written_append, ih]
    rfl

section
variable [Platform]

/-- What is in the trace of a run that has succeeded: the call of ORT's `Run`, and the copies. -/
structure Copied (q : Request) (R : List Tensor) (tr : Trace) (cs : List Copy)
    (ins outs : List (Option Handle)) (reply : RunReply) : Prop where
  run : ∃ session options inNames outNames,
    ⟨.nat (.run session options inNames ins outNames outs), reply⟩ ∈ tr
  status : reply.status = none
  filled : q.into = false → reply.filled = cs.map fun c => some c.reply.value
  into : q.into = true → cs = []
  results : R = cs.map Copy.tensor
  valid : ∀ c ∈ cs, c.Valid
  queries : ∀ c ∈ cs, ∀ ev ∈ c.reply.queries, ev ∈ tr
  copies : ∀ c ∈ cs, ∀ ev ∈ c.reply.copies c.tensor c.bytes, ev ∈ tr
  storages : storages tr = cs.map fun c => (c.tensor.data, c.words)
  written : written tr = reply.writes ++ cs.map fun c => (c.tensor.data, c.bytes)

/-- A run that has succeeded. -/
theorem Request.Done.copied {q : Request} {R : List Tensor} {tr : Trace}
    (h : q.Done R (marked Op.Noted tr)) : ∃ cs ins outs reply, Copied q R tr cs ins outs reply := by
  obtain ⟨pre, n, cs, l₁, hpre, hans, hl, hR, hvalid⟩ := h.log
  obtain ⟨reply, l₂, hst, ⟨hs, session, options, inNames, ins, outNames, outs, -, rfl⟩, rfl, hnil, hfilled⟩ :=
    hans.log
  have hentry : (Op.enter (if q.into then .ocRunInto n else .ocRun n)).note = some .entry := by
    split <;> rfl
  generalize (if q.into then CFunc.ocRunInto n else CFunc.ocRun n) = f at hl hentry
  have hmem : ∀ ev ∈ marked Op.Noted tr, ev ∈ tr := fun ev hev => (mem_marked.1 hev).1
  rw [hl] at hmem
  refine ⟨cs, ins, outs, reply, ⟨⟨session, options, inNames, outNames, hmem _ (by simp)⟩, hst, ?_, ?_, hR,
    hvalid, ?_, ?_, ?_, ?_⟩⟩
  · intro hinto
    rw [hfilled hinto, List.map_map]
    rfl
  · intro hinto
    exact List.map_eq_nil_iff.1 (hnil hinto)
  · intro c hc ev hev
    refine hmem ev (List.mem_append_left _ (List.mem_append_right _ ?_))
    exact List.mem_flatMap.2 ⟨c.reply, List.mem_map_of_mem hc, hev⟩
  · intro c hc ev hev
    refine hmem ev (List.mem_append_right _ (List.mem_cons_of_mem _ ?_))
    exact List.mem_flatMap.2 ⟨c, hc, hev⟩
  · rw [storages_eq, ← noted_marked, hl, ← storages_copies]
    congr 1
    simp [hentry, hpre.noted, noted_other createEvents_note, noted_other queries_note,
      noted_self copyEvents_note]
  · have hearly : written pre = [] := by
      refine List.flatMap_eq_nil_iff.2 fun ev hev => writtenBy_eq_nil ?_ ?_
      all_goals rcases hpre ev hev with h | h <;> simp [h]
    rw [← written_marked, hl]
    simp only [written_append, written_cons, written_nil, hearly, written_copies, List.nil_append,
      List.append_nil, written_of_note createEvents_note (by decide) (by decide),
      written_of_note queries_note (by decide) (by decide)]
    rfl

/-! ## Requests over proper tensors -/

/-- A tensor over storage that ends below the end of the address space. -/
theorem Tensor.Valid.placed {t : Tensor} {a n : Nat} (h : t.Valid a n)
    (hends : t.data + t.bytes < 2 ^ Platform.bits) : t.Placed := by
  refine ⟨?_, h.fits, hends⟩
  rw [h.length]
  exact List.prod_nonneg h.dims

/-- The size of a tensor is computed without a wrap. -/
theorem Tensor.Placed.descriptor {t : Tensor} (h : t.Placed) :
    (Session.descriptor t).bytes = t.bytes := by
  have h0 : 0 ≤ t.length * t.dtype.size := Int.mul_nonneg h.length (DataType.size_nonneg _)
  unfold Session.descriptor
  simp only [wrapInt_eq h0 h.fits, toSize_eq h0 h.fits]
  rfl

/-- A request with a tensor for each port it must have one for, each over storage of its own. -/
structure Request.Valid (q : Request) : Prop where
  inputs : q.inputs.length = q.s.inputs.length
  outputs : q.into = true → q.outputs.length = q.s.outputs.length
  tensors : ∀ t ∈ q.tensors, t.Valid t.data t.bytes
  ends : ∀ t ∈ q.tensors, t.data + t.bytes < 2 ^ Platform.bits
  apart : ¬Overlapping q.inputs q.outputs

/-- The request has a place for what is computed. -/
def Request.Takes (q : Request) (ys : List Value) : Prop :=
  ys.length = q.s.outputs.length ∧
    (q.into = true → q.outputs.map (fun t => (t.dtype, t.shape)) = ys.map fun y => (y.type, y.shape))

/-- The tensors that a run has left its results in. -/
def Request.results (q : Request) (R : List Tensor) : List Tensor := if q.into then q.outputs else R

namespace Request.Valid

variable {q : Request}

theorem placed (h : q.Valid) : ∀ t ∈ q.tensors, t.Placed :=
  fun t ht => (h.tensors t ht).placed (h.ends t ht)

theorem ready (h : q.Valid) : q.Ready := by
  refine ⟨h.inputs, h.outputs, ?_, fun t ht => DataType.size_ne_zero.2 (h.tensors t ht).supported⟩
  rw [Session.firstOverlap_none (by simpa [Request.tensors] using h.placed), List.append_nil]
  exact overlapping_iff.1 h.apart

end Request.Valid

/-! ## What ORT is handed -/

omit [Platform] in
@[simp] theorem DataType.ofCode_val (d : DataType) : DataType.ofCode d.val.toNat = d := by
  simp [DataType.ofCode]

namespace Ort

variable {O : Ort} {F : ModelFn} {q : Request} {ys : List Value}

/-- What a tensor is. -/
def value (O : Ort) (t : Tensor) : Value := ⟨t.dtype, t.shape, O.memory.read t.data t.bytes⟩

/-- What a tensor is after a run. -/
def left (O : Ort) (tr : Trace) (t : Tensor) : Value :=
  ⟨t.dtype, t.shape, (O.memory.writeAll (written tr)).read t.data t.bytes⟩

/-- The value made of a tensor, and where. -/
def wrapped (O : Ort) (t : Tensor) : Nat × Value :=
  (if t.bytes ≠ 0 then t.data else Platform.emptyAddr, O.value t)

theorem wraps_create {memory : Option Handle} {t : Tensor} {h : Handle} (ht : t.Placed)
    (hev : O.serves F (createEvent memory t h)) : O.wraps h = some (O.wrapped t) := by
  have hread : O.memory.read (if t.bytes ≠ 0 then t.data else Platform.emptyAddr) t.bytes =
      O.memory.read t.data t.bytes := by
    split
    · rfl
    next h0 =>
      have h0 : t.bytes = 0 := not_not.1 h0
      rw [h0]
      rfl
  have hwraps := serves_create.1 hev
  rw [hwraps, ht.descriptor]
  simp only [Session.descriptor, DataType.ofCode_val, wrapped, value, hread]

/-- The values made of the tensors are what the tensors are. -/
theorem slots_create {memory : Option Handle} {ts : List Tensor} {hs : List Handle}
    (hts : ∀ t ∈ ts, t.Placed) (hlen : hs.length = ts.length)
    (hevs : ∀ ev ∈ createEvents memory ts hs, O.serves F ev) :
    O.slots (hs.map some) = ts.map fun t => some (O.wrapped t) := by
  induction ts generalizing hs with
  | nil =>
    obtain rfl := List.length_eq_zero_iff.1 hlen
    rfl
  | cons t ts ih =>
    cases hs with
    | nil => cases hlen
    | cons h hs =>
      obtain ⟨ht, hts⟩ := List.forall_mem_cons.1 hts
      obtain ⟨hev, hevs⟩ := List.forall_mem_cons.1
        (show ∀ ev ∈ createEvent memory t h :: createEvents memory ts hs, O.serves F ev from hevs)
      have hrest : O.slots (hs.map some) = _ := ih hts (by simpa using hlen) hevs
      rw [List.map_cons, List.map_cons, ← hrest, ← wraps_create ht hev]
      rfl

/-- What ORT's `Run` is handed: what the inputs are and, for `RunInto`, the outputs. -/
theorem slots_handed {l : Trace} {ins outs : List (Option Handle)} (hq : q.Valid)
    (h : q.Handed l ins outs) (hl : ∀ ev ∈ noted .create l, O.serves F ev) :
    O.slots ins = q.inputs.map (fun t => some (O.wrapped t)) ∧
      (O.slots outs = if q.into then q.outputs.map fun t => some (O.wrapped t)
        else List.replicate q.s.outputs.length none) ∧
      (q.into = false → outs = List.replicate q.s.outputs.length none) := by
  obtain ⟨memory, hs, hcreate, hlen, rfl, rfl⟩ := h.values
  rw [hcreate] at hl
  have hall : O.slots (hs.map some) = _ := slots_create hq.placed hlen hl
  refine ⟨?_, ?_, fun hinto => by rw [hinto, if_neg Bool.false_ne_true]⟩
  · have := congrArg (List.take q.s.inputs.length) hall
    rw [slots, ← List.map_take, ← List.map_take, ← List.map_take, ← slots] at this
    rw [this, Request.tensors, List.take_left' hq.inputs]
  · split
    · have := congrArg (List.drop q.s.inputs.length) hall
      rw [slots, ← List.map_drop, ← List.map_drop, ← List.map_drop, ← slots] at this
      rw [this, Request.tensors, List.drop_left' hq.inputs]
    · simp [slots]

/-- The values that `F` is applied to. -/
theorem values_inputs {ins : List (Option Handle)} {ts : List Tensor}
    (h : O.slots ins = ts.map fun t => some (O.wrapped t)) : O.values ins = ts.map O.value := by
  rw [values, h, List.filterMap_map, ← List.filterMap_eq_map]
  rfl

end Ort

/-- The slots of tensors take values of their types and dimensions. -/
theorem Slots.fit_wrapped {O : Ort} {ts : List Tensor} {ys : List Value} :
    Slots.Fit (ts.map fun t => some (O.wrapped t)) ys ↔
      ts.map (fun t => (t.dtype, t.shape)) = ys.map fun y => (y.type, y.shape) := by
  induction ts generalizing ys with
  | nil => cases ys <;> simp [Fit]
  | cons t ts ih =>
    cases ys with
    | nil => simp [Fit]
    | cons y ys =>
      have := @ih ys
      simp only [Fit] at this ⊢
      simp only [List.map_cons, List.length_cons, List.zip_cons_cons, List.forall_mem_cons,
        List.cons.injEq, ← this, Nat.add_right_cancel_iff]
      simp only [Option.mem_some_iff, forall_eq', Ort.wrapped, Ort.value, Prod.mk.injEq]
      tauto

/-- The slots of a request take what the request takes. -/
theorem Slots.fit_iff {O : Ort} {q : Request} {ys : List Value} {slots : Slots} (hq : q.Valid)
    (h : slots = if q.into then q.outputs.map fun t => some (O.wrapped t)
      else List.replicate q.s.outputs.length none) : slots.Fit ys ↔ q.Takes ys := by
  unfold Request.Takes
  cases hinto : q.into with
  | false =>
    rw [hinto, if_neg Bool.false_ne_true] at h
    rw [h, Fit, List.length_replicate]
    constructor
    · intro hfit
      exact ⟨hfit.1.symm, fun h => by cases h⟩
    · intro htakes
      refine ⟨htakes.1.symm, fun p hp w hw => ?_⟩
      rw [(List.mem_replicate.1 (List.of_mem_zip hp).1).2] at hw
      cases hw
  | true =>
    rw [hinto, if_pos rfl] at h
    rw [h, fit_wrapped]
    constructor
    · intro hkinds
      have hlen := congrArg List.length hkinds
      rw [List.length_map, List.length_map, hq.outputs hinto] at hlen
      exact ⟨hlen.symm, fun _ => hkinds⟩
    · exact fun htakes => htakes.2 rfl

/-- What is written to the outputs of `RunInto`. -/
theorem Slots.writes_wrapped (O : Ort) (ts : List Tensor) (ys : List Value) :
    Slots.writes (ts.map fun t => some (O.wrapped t)) ys =
      (ts.zip ys).map fun p => ((O.wrapped p.1).1, p.2.bytes) := by
  rw [writes, List.zip_map_left, List.filterMap_map, ← List.filterMap_eq_map]
  rfl

omit [Platform] in
theorem Slots.writes_replicate (n : Nat) (ys : List Value) :
    Slots.writes (List.replicate n none) ys = [] := by
  refine List.filterMap_eq_nil_iff.2 fun p hp => ?_
  rw [(List.mem_replicate.1 (List.of_mem_zip hp).1).2]
  rfl

end

end Onnxcraft
