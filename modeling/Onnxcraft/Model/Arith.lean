import Onnxcraft.Model.Types
import Mathlib.Tactic.Linarith

/-!
# Machine arithmetic

When the sums, products and conversions of `size_t` and `int` do not wrap.
-/

namespace Onnxcraft

section
variable [Platform]

theorem two_pow_bits : 2 ^ Platform.bits = 2 * 2 ^ (Platform.bits - 1) := by
  rcases Platform.bits_eq with h | h <;> simp [h]

theorem maxInt_pos : 0 < maxInt := by
  unfold maxInt
  rcases Platform.bits_eq with h | h <;> simp [h]

theorem maxInt_eq : maxInt = ((2 ^ (Platform.bits - 1) : Nat) : Int) - 1 := by simp [maxInt]

/-- An `int` does not wrap. -/
theorem wrapInt_eq {n : Int} (h0 : 0 ≤ n) (h : n ≤ maxInt) : wrapInt n = n := by
  have hb := two_pow_bits
  have := maxInt_eq
  exact Int.bmod_eq_of_le_mul_two (by omega) (by omega)

/-- The conversion of a non-negative `int` to `size_t`. -/
theorem toSize_eq {n : Int} (h0 : 0 ≤ n) (h : n ≤ maxInt) : toSize n = n.toNat := by
  have hb := two_pow_bits
  have := maxInt_eq
  have hlt : n < ((2 ^ Platform.bits : Nat) : Int) := by omega
  unfold toSize
  rw [Int.emod_eq_of_lt h0 (by exact_mod_cast hlt)]

theorem toInt_eq {n : Nat} (h : n < 2 ^ (Platform.bits - 1)) : toInt n = n := by
  have := maxInt_eq
  exact wrapInt_eq (by omega) (by omega)

/-- The guard `d <= MaxInt/n` passes exactly when the product is an `int`. -/
theorem le_maxInt_tdiv {n d : Int} (hn : 0 < n) : d ≤ maxInt.tdiv n ↔ n * d ≤ maxInt := by
  rw [Int.tdiv_eq_ediv_of_nonneg maxInt_pos.le, Int.le_ediv_iff_mul_le hn, Int.mul_comm]

/-- The sum of two `size_t`s that is not below one of them has not wrapped. -/
theorem sizeMod_add {a b : Nat} (ha : a < 2 ^ Platform.bits) (hb : b < 2 ^ Platform.bits)
    (h : a ≤ sizeMod (a + b)) : sizeMod (a + b) = a + b := by
  unfold sizeMod at h ⊢
  rcases Nat.lt_or_ge (a + b) (2 ^ Platform.bits) with hlt | hge
  · exact Nat.mod_eq_of_lt hlt
  · rw [Nat.mod_eq_sub_mod hge, Nat.mod_eq_of_lt (by omega)] at h
    omega

/-- The bounds that `oc_load` checks make the counts and the ranks positive `int`s. -/
theorem sizeMax_div {n d : Nat} (hd : 2 ≤ d) (h : n ≤ sizeMax / d) :
    n < 2 ^ (Platform.bits - 1) := by
  have hb := two_pow_bits
  have : sizeMax / d ≤ sizeMax / 2 := Nat.div_le_div_left hd (by omega)
  have : sizeMax = 2 ^ Platform.bits - 1 := rfl
  have : 0 < 2 ^ (Platform.bits - 1) := Nat.two_pow_pos _
  omega

end

end Onnxcraft
