import Mathlib.Data.List.Basic
import Mathlib.Data.List.GetD
import Mathlib.Order.Basic

/-!
# Memory

`Memory α` is what every address holds. A list of writes, none of which touches another
(`Apart`), leaves each of them to be read back (`read_writeAll`).
-/

namespace Onnxcraft

/-- What every address holds. -/
abbrev Memory (α : Type) := Nat → α

namespace Memory

variable {α : Type} {m : Memory α} {p q n : Nat} {bs : List α} {w : Nat × List α}
  {ws ws' : List (Nat × List α)}

/-- The `n` elements from `p` on. -/
def read (m : Memory α) (p n : Nat) : List α := (List.range n).map fun i => m (p + i)

/-- `bs` from `p` on, and what was there before elsewhere. -/
def write (m : Memory α) (p : Nat) (bs : List α) : Memory α := fun a =>
  if a < p then m a else bs.getD (a - p) (m a)

/-- One write after the other. -/
def writeAll (m : Memory α) (ws : List (Nat × List α)) : Memory α :=
  ws.foldl (fun m w => m.write w.1 w.2) m

/-- No address is in both ranges. -/
def Apart (p n q k : Nat) : Prop := n = 0 ∨ k = 0 ∨ p + n ≤ q ∨ q + k ≤ p

@[simp] theorem length_read (m : Memory α) (p n : Nat) : (m.read p n).length = n := by simp [read]

@[simp] theorem read_zero (m : Memory α) (p : Nat) : m.read p 0 = [] := rfl

@[simp] theorem writeAll_nil (m : Memory α) : m.writeAll [] = m := rfl

@[simp] theorem writeAll_cons (m : Memory α) (w : Nat × List α) (ws : List (Nat × List α)) :
    m.writeAll (w :: ws) = (m.write w.1 w.2).writeAll ws := rfl

/-- What has been written is read back. -/
theorem read_write (m : Memory α) (p : Nat) (bs : List α) : (m.write p bs).read p bs.length = bs := by
  apply List.ext_getElem
  · simp
  · intro i h₁ h₂
    simp only [read, write, List.getElem_map, List.getElem_range, Nat.add_sub_cancel_left]
    rw [if_neg (by omega), List.getD_eq_getElem _ _ h₂]

/-- A write leaves what is apart from it. -/
theorem read_write_of_apart (h : Apart p bs.length q n) : (m.write p bs).read q n = m.read q n := by
  apply List.map_congr_left
  intro i hi
  have hi := List.mem_range.1 hi
  unfold write
  split
  · rfl
  · next hge =>
    apply List.getD_eq_default
    rcases h with h | h | h | h <;> omega

theorem read_writeAll_of_apart (h : ∀ w ∈ ws, Apart w.1 w.2.length q n) :
    (m.writeAll ws).read q n = m.read q n := by
  induction ws generalizing m with
  | nil => rfl
  | cons w ws ih =>
    obtain ⟨hw, hws⟩ := List.forall_mem_cons.1 h
    rw [writeAll_cons, ih hws, read_write_of_apart hw]

/-- **Writes that are apart** are all read back. -/
theorem read_writeAll (h : ws.Pairwise fun v w => Apart v.1 v.2.length w.1 w.2.length) (hw : w ∈ ws) :
    (m.writeAll ws).read w.1 w.2.length = w.2 := by
  induction ws generalizing m with
  | nil => cases hw
  | cons v ws ih =>
    obtain ⟨hv, hrest⟩ := List.pairwise_cons.1 h
    rcases List.mem_cons.1 hw with rfl | hw
    · rw [writeAll_cons, read_writeAll_of_apart, read_write]
      intro v hmem
      rcases hv v hmem with h | h | h | h
      · exact .inr (.inl h)
      · exact .inl h
      · exact .inr (.inr (.inr h))
      · exact .inr (.inr (.inl h))
    · exact ih hrest hw

end Memory

end Onnxcraft
