import Onnxcraft.Model.Arith
import Onnxcraft.Model.Tensor
import Mathlib.Algebra.BigOperators.Ring.List
import Mathlib.Algebra.Order.BigOperators.GroupWithZero.List

/-!
# The arithmetic of tensor sizes

`tensorSize_eq`: `tensorSize` succeeds exactly when the product of the dimensions is the length of
a tensor whose byte size is an `int`; no product on the way wraps (`tensorLength_step`).
-/

namespace Onnxcraft

theorem DataType.size_nonneg (d : DataType) : 0 ≤ d.size := by
  have hall : ∀ x ∈ DataType.sizes, 0 ≤ x := by decide
  unfold DataType.size
  cases h : DataType.sizes[d.val.toNat]? with
  | none => exact le_rfl
  | some x => exact hall x (List.mem_of_getElem? h)

section
variable [Platform]

omit [Platform] in
/-- The first loop: no dimension is negative, and whether one is zero. -/
theorem tensorEmpty_eq {shape : List Int} {empty : Bool} :
    tensorEmpty shape = .ok empty ↔ (∀ d ∈ shape, 0 ≤ d) ∧ empty = decide (0 ∈ shape) := by
  suffices hs : ∀ b, shape.foldlM (fun empty d =>
      if d < 0 then .error (.text "onnxcraft: negative tensor dimension %d" [.int d])
      else .ok (empty || d == 0)) b = (.ok empty : Except GoError Bool) ↔
      (∀ d ∈ shape, 0 ≤ d) ∧ empty = (b || decide (0 ∈ shape)) by
    refine (hs false).trans ?_
    rw [Bool.false_or]
  induction shape with
  | nil =>
    intro b
    have : (pure b : Except GoError Bool) = .ok empty ↔ empty = b :=
      ⟨fun h => (Except.ok.inj h).symm, fun h => congrArg Except.ok h.symm⟩
    simpa using this
  | cons d shape ih =>
    intro b
    rw [List.foldlM_cons]
    by_cases hd : d < 0
    · rw [if_pos hd]
      refine iff_of_false (fun h => by cases h) fun h => ?_
      have := h.1 d List.mem_cons_self
      omega
    · rw [if_neg hd]
      refine (ih _).trans ?_
      have hzero : (b || d == 0 || decide (0 ∈ shape)) = (b || decide (0 ∈ d :: shape)) := by
        by_cases h : d = 0
        · simp [h]
        · simp [beq_false_of_ne h, Ne.symm h]
      rw [hzero, List.forall_mem_cons]
      exact and_congr_left fun _ => ⟨fun h => ⟨Int.not_lt.1 hd, h⟩, fun h => h.2⟩

omit [Platform] in
/-- The product of positive dimensions is positive. -/
theorem prod_pos {shape : List Int} (hpos : ∀ d ∈ shape, 0 < d) : 0 < shape.prod := by
  induction shape with
  | nil => simp
  | cons d shape ih =>
    rw [List.prod_cons]
    exact Int.mul_pos (hpos d List.mem_cons_self) (ih fun x hx => hpos x (List.mem_cons_of_mem _ hx))

/-- One iteration of the second loop: neither the conversion nor the product wraps. -/
theorem tensorLength_step {n d : Int} (hn : 0 < n) (hd : 0 < d) (h : d ≤ maxInt.tdiv n) :
    wrapInt d = d ∧ wrapInt (n * wrapInt d) = n * d ∧ 0 < n * d ∧ n * d ≤ maxInt := by
  have hle : n * d ≤ maxInt := (le_maxInt_tdiv hn).1 h
  have hpos : 0 < n * d := Int.mul_pos hn hd
  have hdle : d ≤ n * d := le_mul_of_one_le_left hd.le hn
  rw [wrapInt_eq hd.le (hdle.trans hle)]
  exact ⟨rfl, wrapInt_eq hpos.le hle, hpos, hle⟩

/-- The second loop: it multiplies exactly, and gives up exactly when the product is no `int`.
The invariant is on the running product `b`: what is left to multiply is at least 1, so a partial
product too large for an `int` makes the whole one too large. -/
theorem tensorLength_eq {shape : List Int} (hpos : ∀ d ∈ shape, 0 < d) {n : Int} :
    tensorLength shape = .ok n ↔ n = shape.prod ∧ n ≤ maxInt := by
  suffices hs : ∀ b : Int, 0 < b → b ≤ maxInt → (shape.foldlM (fun n d =>
      if d > maxInt.tdiv n then .error (.text "onnxcraft: tensor shape overflows int" [])
      else .ok (wrapInt (n * wrapInt d))) b = (.ok n : Except GoError Int) ↔
      n = b * shape.prod ∧ n ≤ maxInt) by
    refine (hs 1 one_pos maxInt_pos).trans ?_
    rw [Int.one_mul]
  induction shape with
  | nil =>
    intro b _ hb
    have : (pure b : Except GoError Int) = .ok n ↔ n = b :=
      ⟨fun h => (Except.ok.inj h).symm, fun h => congrArg Except.ok h.symm⟩
    rw [List.foldlM_nil, this, List.prod_nil, Int.mul_one]
    exact ⟨fun h => ⟨h, h ▸ hb⟩, fun h => h.1⟩
  | cons d shape ih =>
    intro b hb0 hb
    have hd : 0 < d := hpos d List.mem_cons_self
    have hrest : ∀ x ∈ shape, 0 < x := fun x hx => hpos x (List.mem_cons_of_mem _ hx)
    rw [List.foldlM_cons, List.prod_cons, ← Int.mul_assoc]
    by_cases hguard : d ≤ maxInt.tdiv b
    · obtain ⟨-, hmul, hpos', hle⟩ := tensorLength_step hb0 hd hguard
      rw [if_neg (Int.not_lt.2 hguard), hmul]
      exact ih hrest _ hpos' hle
    · rw [if_pos (Int.not_le.1 hguard)]
      refine iff_of_false (fun h => by cases h) fun h => ?_
      have hover : maxInt < b * d := Int.not_le.1 fun h => hguard ((le_maxInt_tdiv hb0).2 h)
      have hprod : b * d ≤ b * d * shape.prod :=
        le_mul_of_one_le_right (Int.mul_pos hb0 hd).le (prod_pos hrest)
      omega

/-- **`tensorSize`** succeeds with the product of the dimensions, exactly when there are elements
of a known size, no dimension is negative and the byte size is an `int`. -/
theorem tensorSize_eq {shape : List Int} {size n : Int} (hs : 0 ≤ size) :
    tensorSize shape size = .ok n ↔
      0 < size ∧ (∀ d ∈ shape, 0 ≤ d) ∧ n = shape.prod ∧ n * size ≤ maxInt := by
  unfold tensorSize
  cases hempty : tensorEmpty shape with
  | error err =>
    refine iff_of_false (fun h => by cases h) fun h => ?_
    have := tensorEmpty_eq.2 ⟨h.2.1, rfl⟩
    rw [hempty] at this
    cases this
  | ok empty =>
    obtain ⟨hall, rfl⟩ := tensorEmpty_eq.1 hempty
    by_cases hsize : size = 0
    · simp [hsize]
    have hpos : 0 < size := by omega
    by_cases hzero : (0 : Int) ∈ shape
    · have hprod : shape.prod = 0 := List.prod_eq_zero hzero
      have := maxInt_pos
      simp only [hsize, hzero, hprod, decide_true, if_true, if_false, Except.ok.injEq]
      constructor
      · rintro rfl
        exact ⟨hpos, hall, rfl, by omega⟩
      · exact fun h => h.2.2.1.symm
    · have hdims : ∀ d ∈ shape, 0 < d := fun d hd =>
        lt_of_le_of_ne (hall d hd) fun h => hzero (h ▸ hd)
      simp only [hsize, hzero, decide_false, if_false, Bool.false_eq_true]
      cases hlen : tensorLength shape with
      | error err =>
        refine iff_of_false (fun h => by cases h) fun h => ?_
        obtain ⟨-, -, hn, hle⟩ := h
        have hn0 : 0 < n := hn ▸ prod_pos hdims
        have := (tensorLength_eq hdims).2 ⟨hn, (le_mul_of_one_le_right hn0.le hpos).trans hle⟩
        rw [hlen] at this
        cases this
      | ok m =>
        obtain ⟨rfl, -⟩ := (tensorLength_eq hdims).1 hlen
        simp only [gt_iff_lt]
        by_cases hguard : shape.prod ≤ maxInt.tdiv size
        · rw [if_neg (Int.not_lt.2 hguard), Except.ok.injEq]
          have := (le_maxInt_tdiv hpos).1 hguard
          rw [Int.mul_comm] at this
          constructor
          · rintro rfl
            exact ⟨hpos, hall, rfl, this⟩
          · exact fun h => h.2.2.1.symm
        · rw [if_pos (Int.not_le.1 hguard)]
          refine iff_of_false (fun h => by cases h) fun h => hguard ?_
          obtain ⟨-, -, hn, hle⟩ := h
          rw [hn, Int.mul_comm] at hle
          exact (le_maxInt_tdiv hpos).2 hle

/-- The length and the byte size are non-negative `int`s. -/
theorem tensorSize_bounds {shape : List Int} {size n : Int} (hs : 0 ≤ size)
    (h : tensorSize shape size = .ok n) : 0 ≤ n ∧ 0 ≤ n * size ∧ n * size ≤ maxInt := by
  obtain ⟨-, hall, rfl, hle⟩ := (tensorSize_eq hs).1 h
  have h0 : 0 ≤ shape.prod := List.prod_nonneg hall
  exact ⟨h0, Int.mul_nonneg h0 hs, hle⟩

/-- The storage of a result, in words: computed without a wrap. -/
theorem words_eq {b : Nat} (h : (b : Int) ≤ maxInt) :
    wrapInt ((b : Int).tdiv 8 + min ((b : Int).tmod 8) 1) = (b / 8 + min (b % 8) 1 : Nat) := by
  have hmax : (7 : Int) < maxInt := by
    unfold maxInt
    rcases Platform.bits_eq with h | h <;> simp [h]
  rw [Int.tdiv_eq_ediv_of_nonneg (by omega), Int.tmod_eq_emod_of_nonneg (by omega)]
  rw [wrapInt_eq (by omega) (by omega)]
  omega

theorem words_nonneg {n : Int} (h0 : 0 ≤ n) (h : n ≤ maxInt) :
    0 ≤ wrapInt (n.tdiv 8 + min (n.tmod 8) 1) := by
  obtain ⟨b, rfl⟩ := Int.eq_ofNat_of_zero_le h0
  rw [words_eq h]
  omega

omit [Platform] in
/-- The storage holds the bytes. -/
theorem le_words (b : Nat) : b ≤ 8 * (b / 8 + min (b % 8) 1) := by omega

end

end Onnxcraft
