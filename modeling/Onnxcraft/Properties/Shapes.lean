import Onnxcraft.Tensor.Size

/-!
# NewTensor and Data

`tensor_shapes`: `NewTensor` accepts exactly the shapes whose product is the number of elements,
with nothing lost to the width of an `int`, and `Data` gives the elements back. It rests on
`tensorSize_eq` and on two facts about Go slices: their byte size is an `int` (`GoSlice.fits`), and
a view of a slice is that slice (`unsafeSlice_eq`).
-/

namespace Onnxcraft

open Effect

/-- The size that the table of `DataType` gives an element type is the size of its elements. -/
theorem Element.size_eq (e : Element) : (elementType e).size = e.bytes := by
  cases e with
  | float16 => rfl
  | bfloat16 => rfl
  | of kind => cases kind <;> rfl

theorem Element.bytes_pos (e : Element) : 0 < e.bytes := by
  cases e with
  | float16 => decide
  | bfloat16 => decide
  | of kind => cases kind <;> decide

section
variable [Platform]

/-- `unsafe.Slice` of a Go slice's pointer and length gives the slice, without a panic. -/
theorem unsafeSlice_eq {size : Nat} (s : GoSlice size) :
    unsafeSlice s.data s.len size = .ret s.toSlice := by
  have hends := s.ends
  have hnil : ¬(s.data = 0 ∧ (s.len : Int) ≠ 0) := by
    intro h
    exact s.nonnil (by omega) h.1
  unfold unsafeSlice
  rw [if_neg (by omega), if_neg hnil, Int.toNat_natCast, if_neg (by omega)]
  rfl

/-- `NewTensor` of a Go slice: the byte size that `tensorSize` bounds is the slice's own. -/
theorem newTensor_eq {e : Element} {shape : List Int} (data : GoSlice e.bytes) {t : Tensor} :
    newTensor e shape data.toSlice = .ok t ↔
      (∀ d ∈ shape, 0 ≤ d) ∧ shape.prod = data.len ∧
        t = ⟨data.data, shape, data.len, elementType e⟩ := by
  have hsize := Element.size_eq e
  have hbytes : (0 : Int) < (elementType e).size := by
    have := e.bytes_pos
    omega
  have hfits : (data.len : Int) * (elementType e).size ≤ maxInt := by
    have := data.fits
    rw [hsize]
    exact_mod_cast this
  have hok : ∀ n, tensorSize shape (elementType e).size = .ok n ↔ _ := fun n =>
    tensorSize_eq hbytes.le
  cases h : tensorSize shape (elementType e).size with
  | error err =>
    simp only [newTensor, h]
    refine iff_of_false (fun h => by cases h) fun hc => ?_
    have := (hok data.len).2 ⟨hbytes, hc.1, hc.2.1.symm, hfits⟩
    rw [h] at this
    cases this
  | ok n =>
    obtain ⟨-, hall, rfl, -⟩ := (hok n).1 h
    simp only [newTensor, h]
    by_cases hlen : (data.len : Int) = shape.prod
    · rw [if_neg (not_not.2 hlen), Except.ok.injEq, hlen]
      exact ⟨fun h => ⟨hall, rfl, h.symm⟩, fun h => h.2.2.symm⟩
    · rw [if_pos hlen]
      exact iff_of_false (fun h => by cases h) fun h => hlen h.2.1.symm

/-- `Data` of a tensor made from a Go slice. -/
theorem dataAs_eq {e u : Element} {shape : List Int} (data : GoSlice e.bytes) {t : Tensor}
    (h : newTensor e shape data.toSlice = .ok t) :
    (elementType u = elementType e → t.dataAs u = .ret (.ok data.toSlice)) ∧
      (elementType u ≠ elementType e → ∃ err, t.dataAs u = .ret (.error err)) := by
  obtain ⟨-, -, rfl⟩ := (newTensor_eq data).1 h
  unfold Tensor.dataAs
  constructor
  · intro htype
    have hbytes : u.bytes = e.bytes := by
      have := congrArg DataType.size htype
      rw [u.size_eq, e.size_eq] at this
      exact_mod_cast this
    simp only [htype, ne_eq, not_true, if_false, hbytes, unsafeSlice_eq data]
    rfl
  · intro htype
    exact ⟨_, if_pos (Ne.symm htype)⟩

/-- The verdict of `tensorSize` does not see the order of the dimensions. -/
theorem tensorSize_perm {shape shape' : List Int} {size : Int} (hs : 0 ≤ size)
    (h : shape.Perm shape') :
    (tensorSize shape size).toOption = (tensorSize shape' size).toOption := by
  have hiff : ∀ n, tensorSize shape size = .ok n ↔ tensorSize shape' size = .ok n := by
    intro n
    rw [tensorSize_eq hs, tensorSize_eq hs, h.prod_eq]
    simp only [h.mem_iff]
  cases hn : tensorSize shape size with
  | ok n => rw [(hiff n).1 hn]
  | error err =>
    cases hn' : tensorSize shape' size with
    | ok n =>
      rw [(hiff n).2 hn'] at hn
      cases hn
    | error err' => rfl

/-- **NewTensor and Data.** -/
theorem tensor_shapes (e : Element) (shape : List Int) (data : GoSlice e.bytes) :
    ((∃ t, newTensor e shape data.toSlice = .ok t) ↔
      (∀ d ∈ shape, 0 ≤ d) ∧ shape.prod = data.len) ∧
    (∀ (size : Nat) (n : Int), tensorSize shape size = .ok n ↔
      0 < size ∧ (∀ d ∈ shape, 0 ≤ d) ∧ n = shape.prod ∧ n * size ≤ maxInt) ∧
    (∀ size : Nat, 0 < size → 0 ∈ shape → (∀ d ∈ shape, 0 ≤ d) → tensorSize shape size = .ok 0) ∧
    (∀ (pre post : List Int) (d n : Int), shape = pre ++ d :: post →
      tensorEmpty shape = .ok false → tensorLength pre = .ok n →
      0 < n ∧ n ≤ maxInt ∧
        (d ≤ maxInt.tdiv n → wrapInt d = d ∧ wrapInt (n * wrapInt d) = n * d)) ∧
    (∀ (shape' : List Int) (size : Nat), shape.Perm shape' →
      (tensorSize shape size).toOption = (tensorSize shape' size).toOption) ∧
    (∀ t, newTensor e shape data.toSlice = .ok t →
      t.dataAs e = .ret (.ok data.toSlice) ∧
      ∀ u : Element, (elementType u = elementType e → t.dataAs u = .ret (.ok data.toSlice)) ∧
        (elementType u ≠ elementType e → ∃ err, t.dataAs u = .ret (.error err))) := by
  refine ⟨?_, fun size n => ?_, ?_, ?_, ?_, fun t ht =>
    ⟨(dataAs_eq data ht).1 rfl, fun u => dataAs_eq data ht⟩⟩
  · simp only [newTensor_eq]
    constructor
    · rintro ⟨t, hall, hprod, -⟩
      exact ⟨hall, hprod⟩
    · intro h
      exact ⟨_, h.1, h.2, rfl⟩
  · exact_mod_cast @tensorSize_eq _ shape size n (by omega)
  · intro size hsize hzero hall
    have hprod : shape.prod = 0 := List.prod_eq_zero hzero
    refine (tensorSize_eq (by omega)).2 ⟨by omega, hall, hprod.symm, ?_⟩
    have := maxInt_pos
    omega
  · intro pre post d n hshape hempty hn
    obtain ⟨hall, hzero⟩ := tensorEmpty_eq.1 hempty
    have hdims : ∀ x ∈ shape, 0 < x := fun x hx => lt_of_le_of_ne (hall x hx) fun h => by
      rw [h] at hzero
      simp [hx] at hzero
    subst hshape
    have hpre : ∀ x ∈ pre, 0 < x := fun x hx => hdims x (List.mem_append_left _ hx)
    obtain ⟨rfl, hle⟩ := (tensorLength_eq hpre).1 hn
    have hn0 := prod_pos hpre
    refine ⟨hn0, hle, fun hguard => ?_⟩
    obtain ⟨h1, h2, -⟩ := tensorLength_step hn0 (hdims d (by simp)) hguard
    exact ⟨h1, h2⟩
  · intro shape' size h
    exact tensorSize_perm (by omega) h

end

end Onnxcraft
