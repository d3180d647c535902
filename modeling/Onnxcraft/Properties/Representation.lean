import Onnxcraft.Properties.Shapes
import Onnxcraft.Protocol.Outcome
import Onnxcraft.Protocol.Progress

/-!
# The representation of tensors

`tensor_representation`: every tensor that `NewTensor` or `Run` produces is `Tensor.Valid` over Go
storage. For `Run` this holds whatever ORT has replied: a reply that cannot be represented
(`Reply.Gives`) makes the run fail, and the storage of a result is one that the run has just made.
-/

namespace Onnxcraft

open Effect

/-- The 13 element types. -/
def DataType.supported : List DataType :=
  [⟨1⟩, ⟨2⟩, ⟨3⟩, ⟨4⟩, ⟨5⟩, ⟨6⟩, ⟨7⟩, ⟨9⟩, ⟨10⟩, ⟨11⟩, ⟨12⟩, ⟨13⟩, ⟨16⟩]

/-- The sizes of exactly these types are known. -/
theorem DataType.size_ne_zero {d : DataType} : d.size ≠ 0 ↔ d ∈ supported := by
  have hall : ∀ n : Fin 256, (⟨UInt8.ofNat n⟩ : DataType).size ≠ 0 ↔ (⟨UInt8.ofNat n⟩ : DataType) ∈ supported := by
    decide +kernel
  have := hall ⟨d.val.toNat, d.val.toNat_lt⟩
  simpa using this

section
variable [Platform]

/-- A tensor over `bytes` bytes of Go storage at `addr`. -/
structure Tensor.Valid (t : Tensor) (addr bytes : Nat) : Prop where
  supported : t.dtype ∈ DataType.supported
  dims : ∀ d ∈ t.shape, 0 ≤ d
  length : t.length = t.shape.prod
  fits : t.length * t.dtype.size ≤ maxInt
  data : t.data = addr
  nonnil : 0 < t.length → t.data ≠ 0
  storage : t.length * t.dtype.size ≤ bytes

/-- The storage that `make` has given, with its words. -/
def storageOf : Event Op Op.Resp → Option (Nat × Nat)
  | ⟨.mem (.make words), p⟩ => some (p, words)
  | _ => none

/-- The storage that a run has made. -/
def storages (tr : Trace) : List (Nat × Nat) := tr.filterMap storageOf

/-- What Go guarantees of the storage that one run makes, all of which its results keep: it is
somewhere, below the end of the address space, and no two pieces overlap. -/
structure GoAllocated (tr : Trace) : Prop where
  nonnil : ∀ x ∈ storages tr, x.1 ≠ 0
  ends : ∀ x ∈ storages tr, x.1 + 8 * x.2 < 2 ^ Platform.bits
  apart : (storages tr).Pairwise fun x y =>
    0 < x.2 → 0 < y.2 → x.1 + 8 * x.2 ≤ y.1 ∨ y.1 + 8 * y.2 ≤ x.1

omit [Platform] in
theorem storages_eq (tr : Trace) : storages tr = storages (noted .copy tr) := by
  induction tr with
  | nil => rfl
  | cons ev tr ih =>
    have hcons : ∀ l, storages (ev :: l) = (storageOf ev).toList ++ storages l := by
      intro l
      unfold storages
      cases h : storageOf ev <;> simp [h]
    rw [noted_cons]
    split
    · rw [hcons, hcons, ih]
    next hne =>
      have hnone : storageOf ev = none := by
        obtain ⟨e, a⟩ := ev
        cases e with
        | mem o => cases o <;> first | rfl | exact absurd rfl hne
        | _ => rfl
      rw [hcons, hnone, ih]
      rfl

/-- The words that a result's storage has. -/
def Copy.words (c : Copy) : Nat := c.reply.bytes / 8 + min (c.reply.bytes % 8) 1

omit [Platform] in
theorem storages_copies (cs : List Copy) :
    storages (copyEvents cs) = cs.map fun c => (c.tensor.data, c.words) := by
  induction cs with
  | nil => rfl
  | cons c cs ih =>
    have : storages (copyEvents (c :: cs)) = (c.tensor.data, c.words) :: storages (copyEvents cs) := by
      simp only [copyEvents, List.flatMap_cons, storages, List.filterMap_append]
      rfl
    rw [this, ih]
    rfl

/-- What a successful run has asked about its outputs, and how it has copied them. -/
theorem Request.Done.copies {q : Request} {R : List Tensor} {tr : Trace}
    (h : q.Done R (marked Op.Noted tr)) : ∃ cs : List Copy,
      noted .query tr = (cs.map Copy.reply).flatMap Reply.queries ∧ noted .copy tr = copyEvents cs ∧
      R = cs.map Copy.tensor ∧ (∀ c ∈ cs, c.Valid) ∧
      (q.into = false → cs.length = q.s.outputs.length ∧
        ∃ session options inNames ins outNames outs reply,
          ⟨.nat (.run session options inNames ins outNames outs), reply⟩ ∈ tr ∧
          reply.status = none ∧ reply.filled = cs.map fun c => some c.reply.value) := by
  obtain ⟨pre, n, cs, l₁, hpre, hans, hl, hR, hvalid⟩ := h.log
  obtain ⟨reply, l₂, hst, ⟨hs, session, options, inNames, ins, outNames, outs, -, rfl⟩, rfl, -, hfilled⟩ :=
    hans.log
  have hentry : (Op.enter (if q.into then .ocRunInto n else .ocRun n)).note = some .entry := by
    split <;> rfl
  generalize (if q.into then CFunc.ocRunInto n else CFunc.ocRun n) = f at hl hentry
  refine ⟨cs, ?_, ?_, hR, hvalid, fun hinto => ⟨by simpa using hans.length hinto, session,
    options, inNames, ins, outNames, outs, reply, ?_, hst, by rw [hfilled hinto, List.map_map]; rfl⟩⟩
  · rw [← noted_marked, hl]
    simp [hentry, hpre.noted, noted_other createEvents_note, noted_self queries_note,
      noted_other copyEvents_note]
  · rw [← noted_marked, hl]
    simp [hentry, hpre.noted, noted_other createEvents_note, noted_other queries_note,
      noted_self copyEvents_note]
  · refine (mem_marked (A := Op.Noted)).1 ?_ |>.1
    rw [hl]
    simp

/-- A reply that a tensor can represent: a supported type, non-negative dimensions whose product
gives the byte count, and data where there are bytes. -/
structure Reply.Representable (o : Reply) : Prop where
  supported : DataType.ofCode o.type.code ∈ DataType.supported
  dims : ∀ d ∈ o.shape, 0 ≤ d
  bytes : o.shape.prod * (DataType.ofCode o.type.code).size = o.bytes
  fits : (o.bytes : Int) ≤ maxInt
  data : o.bytes ≠ 0 → o.data ≠ 0

namespace Reply.Gives

variable {o : Reply} {t : Tensor}

theorem size (h : o.Gives t) : 0 < t.dtype.size ∧ (∀ d ∈ o.shape, 0 ≤ d) ∧ t.length = o.shape.prod ∧
    t.length * t.dtype.size ≤ maxInt :=
  (tensorSize_eq (DataType.size_nonneg _)).1 h.length

theorem representable (h : o.Gives t) : o.Representable := by
  obtain ⟨hpos, hdims, hlen, hfits⟩ := h.size
  have hbytes := h.bytes
  rw [h.dtype] at hpos hfits hbytes
  refine ⟨DataType.size_ne_zero.1 (by omega), hdims, ?_, by omega, h.data⟩
  rw [← hlen]
  exact hbytes

/-- The tensor made from a reply, over the storage that the run has made for it. -/
theorem valid (h : o.Gives t) (hptr : t.data ≠ 0) {words : Nat} (hwords : o.bytes ≤ 8 * words) :
    t.Valid t.data (8 * words) := by
  obtain ⟨hpos, hdims, hlen, hfits⟩ := h.size
  refine ⟨DataType.size_ne_zero.1 (by omega), by rwa [h.shape], by rw [h.shape, hlen], hfits, rfl,
    fun _ => hptr, ?_⟩
  have := h.bytes
  omega

end Reply.Gives

/-- A tensor that `NewTensor` makes, over the given slice. -/
theorem newTensor_valid {e : Element} {shape : List Int} (data : GoSlice e.bytes) {t : Tensor}
    (h : newTensor e shape data.toSlice = .ok t) : t.Valid data.data (data.len * e.bytes) := by
  obtain ⟨hdims, hprod, rfl⟩ := (newTensor_eq data).1 h
  have hsize := e.size_eq
  have hpos := e.bytes_pos
  have hfits := data.fits
  have hnonnil := data.nonnil
  have hne : (elementType e).size ≠ 0 := by omega
  refine ⟨DataType.size_ne_zero.1 hne, hdims, hprod.symm, ?_, rfl, fun hlen => ?_, ?_⟩
  · simp only [hsize]
    exact_mod_cast hfits
  · exact hnonnil (by simpa using hlen)
  · simp only [hsize]
    exact_mod_cast le_rfl

omit [Platform] in
/-- The replies in a log of queries: three events each, the first of them about type and shape. -/
theorem queries_mem {outs : List Reply} {o : Reply} {pre post : Trace}
    (h : pre ++ o.queries ++ post = outs.flatMap Reply.queries) : o ∈ outs := by
  induction outs generalizing pre with
  | nil => simp [Reply.queries] at h
  | cons o' outs ih =>
    rcases pre with _ | ⟨x, _ | ⟨y, _ | ⟨z, pre⟩⟩⟩
    · simp only [Reply.queries, List.nil_append, List.flatMap_cons, List.cons_append, List.cons.injEq,
        Sigma.mk.injEq, Op.nat.injEq, NativeOp.getTensorElementTypeAndShapeDataReference.injEq,
        NativeOp.getTensorSizeInBytes.injEq, NativeOp.getTensorMutableData.injEq, Option.some.injEq] at h
      obtain ⟨⟨hvalue, hshape⟩, ⟨-, hbytes⟩, ⟨-, hdata⟩, -⟩ := h
      have htype := Prod.mk.inj (Except.ok.inj (eq_of_heq hshape))
      have heq : o = o' := by
        cases o
        cases o'
        simp only [Reply.mk.injEq]
        exact ⟨hvalue, htype.1, htype.2, Except.ok.inj (eq_of_heq hbytes), Except.ok.inj (eq_of_heq hdata)⟩
      rw [heq]
      exact List.mem_cons_self
    · simp [Reply.queries] at h
    · simp [Reply.queries] at h
    · simp only [Reply.queries, List.flatMap_cons, List.cons_append, List.cons.injEq,
        List.nil_append] at h
      exact List.mem_cons_of_mem _ (ih (by simpa [Reply.queries] using h.2.2.2))

/-- **The tensors that are ever produced.** -/
theorem tensor_representation :
    (∀ (e : Element) (shape : List Int) (data : GoSlice e.bytes) (t : Tensor),
      newTensor e shape data.toSlice = .ok t → t.Valid data.data (data.len * e.bytes)) ∧
    ∀ (σ : Global) (t : Goroutine) (s : Session) (ctx : Ctx) (inputs : List Tensor)
      (res : Except GoError (List Tensor)), system.Reachable σ → t ∈ σ.threads →
      t.call = .run s ctx inputs → t.rest = .ret (.tensors res) → GoAllocated t.trace →
      (∀ R, res = .ok R → R.length = s.outputs.length ∧ ∀ x ∈ R, ∃ words : Nat,
        (⟨.mem (.make words), x.data⟩ : Event Op Op.Resp) ∈ t.trace ∧
        words = (x.length * x.dtype.size).toNat / 8 + min ((x.length * x.dtype.size).toNat % 8) 1 ∧
        x.Valid x.data (8 * words)) ∧
      ∀ o : Reply, (∃ pre post, noted .query t.trace = pre ++ o.queries ++ post) →
        ¬o.Representable → ∃ err, res = .error err := by
  refine ⟨fun e shape data t => newTensor_valid data, ?_⟩
  intro σ t s ctx inputs res hr ht hcall hret halloc
  let q : Request := ⟨s, ctx, inputs, [], false, fun _ => rfl⟩
  have hc : t.call.request = some q := by rw [hcall]; rfl
  obtain ⟨res', hres', hout⟩ := Reachable.outcome hr ht hc hret
  obtain rfl : res = res' := Ret.tensors.inj hres'
  constructor
  · intro R hR
    obtain ⟨cs, -, hcopy, rfl, hvalid, hlen⟩ := (hout.done R hR).copies
    refine ⟨by simpa using (hlen rfl).1, fun x hx => ?_⟩
    obtain ⟨c, hcmem, rfl⟩ := List.mem_map.1 hx
    have hgives := (hvalid c hcmem).gives
    have hbytes : (c.tensor.length * c.tensor.dtype.size).toNat = c.reply.bytes := by
      have := hgives.bytes
      omega
    have hstorage : (c.tensor.data, c.words) ∈ storages t.trace := by
      rw [storages_eq, hcopy, storages_copies]
      exact List.mem_map_of_mem hcmem
    have hptr : c.tensor.data ≠ 0 := halloc.nonnil _ hstorage
    refine ⟨c.words, ?_, by rw [hbytes]; rfl, hgives.valid hptr (le_words _)⟩
    have hmake : (⟨.mem (.make c.words), c.tensor.data⟩ : Event Op Op.Resp) ∈ noted .copy t.trace := by
      rw [hcopy]
      exact List.mem_flatMap.2 ⟨c, hcmem, List.mem_cons_self⟩
    exact (mem_marked.1 hmake).1
  · rintro o ⟨pre, post, hlog⟩ hnot
    cases res with
    | error err => exact ⟨err, rfl⟩
    | ok R =>
      obtain ⟨cs, hquery, -, rfl, hvalid, -⟩ := (hout.done R rfl).copies
      rw [hquery] at hlog
      obtain ⟨c, hcmem, rfl⟩ := List.mem_map.1 (queries_mem hlog.symm)
      exact absurd (hvalid c hcmem).gives.representable hnot

end

/-- The results that a run has returned. -/
def Ret.results : Ret → Option (List Tensor)
  | .tensors (.ok R) => some R
  | _ => Option.none

theorem Ret.results_eq {x : Ret} {R : List Tensor} : x.results = some R ↔ x = .tensors (.ok R) := by
  cases x with
  | tensors res => cases res <;> simp [Ret.results]
  | _ => simp [Ret.results]

namespace Sample

/-- The result of the run. -/
def result : Tensor := ⟨2503, [], 1, ⟨1⟩⟩

/-- What the run has returned, and where it has put it. -/
theorem runner_made :
    runner.rest = .ret (.tensors (.ok [result])) ∧ GoAllocated runner.trace := by
  obtain ⟨hvalue, hs⟩ : runner.rest.value.bind Ret.results = some [result] ∧
      storages runner.trace = [(2503, 1)] := by
    decide +kernel
  obtain ⟨x, hx, hR⟩ := Option.bind_eq_some_iff.1 hvalue
  rw [Prog.value_eq.1 hx, Ret.results_eq.1 hR]
  exact ⟨rfl, by constructor <;> simp [hs, Platform.bits]⟩

/-- A Go slice of one `float32`. -/
def floats : GoSlice (Element.of .float32).bytes :=
  ⟨⟨4096, 1⟩, by decide, by decide, by decide⟩

end Sample

open Sample in
theorem tensor_representation_sample :
    (⟨4096, [], 1, ⟨1⟩⟩ : Tensor).Valid 4096 4 ∧ ∃ words, result.Valid 2503 (8 * words) := by
  refine ⟨tensor_representation.1 (.of .float32) [] floats _ (by decide), ?_⟩
  obtain ⟨-, hall⟩ := (tensor_representation.2 _ _ (session true) ctx [scalar 8192] _
    (System.played_reachable _) runner_mem runnerDone.call runner_made.1 runner_made.2).1 _ rfl
  obtain ⟨words, -, -, hvalid⟩ := hall result List.mem_cons_self
  exact ⟨words, hvalid⟩

end Onnxcraft
