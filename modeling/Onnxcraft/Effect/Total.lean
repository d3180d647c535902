import Mathlib.Algebra.BigOperators.Group.List.Basic
import Mathlib.Tactic.Abel

/-!
# Totals over a list of holders

`total f l` sums what every element of `l` contributes: the number of holders of a lock, the
resources in a table of slots. A counter that changes by as much as the contribution of the one
element a step rewrites keeps equal to the total (`total_set`).
-/

namespace Effect

variable {α M : Type} [AddCommMonoid M] {f : α → M} {l : List α} {a b : α} {i : Nat}

/-- The sum of `f` over `l`. -/
def total (f : α → M) (l : List α) : M := (l.map f).sum

@[simp] theorem total_nil : total f [] = 0 := rfl

@[simp] theorem total_cons : total f (a :: l) = f a + total f l := by simp [total]

@[simp] theorem total_append (l l' : List α) : total f (l ++ l') = total f l + total f l' := by
  simp [total]

/-- Rewriting one element exchanges its contribution. -/
theorem total_set (h : l[i]? = some a) : total f (l.set i b) + f a = total f l + f b := by
  induction l generalizing i with
  | nil => simp at h
  | cons x l ih =>
    cases i with
    | zero =>
      simp only [List.getElem?_cons_zero, Option.some.injEq] at h
      subst h
      simp only [List.set_cons_zero, total_cons]
      abel
    | succ i =>
      simp only [List.getElem?_cons_succ] at h
      simp only [List.set_cons_succ, total_cons, add_assoc, ih h]

/-- Rewriting an element that keeps its contribution changes nothing. -/
theorem total_set_eq (h : l[i]? = some a) (hf : f b = f a) : total f (l.set i b) = total f l := by
  induction l generalizing i with
  | nil => simp
  | cons x l ih =>
    cases i with
    | zero =>
      simp only [List.getElem?_cons_zero, Option.some.injEq] at h
      simp [h, hf]
    | succ i => simp only [List.set_cons_succ, total_cons, ih (by simpa using h)]

theorem total_eq_zero_of (h : ∀ a ∈ l, f a = 0) : total f l = 0 := by
  induction l with
  | nil => rfl
  | cons a l ih => simp_all

/-! ## Counting -/

section
variable {f : α → Nat}

theorem total_pos (h : l[i]? = some a) : f a ≤ total f l := by
  have := total_set (f := f) (b := a) h
  induction l generalizing i with
  | nil => simp at h
  | cons x l ih =>
    cases i with
    | zero =>
      simp only [List.getElem?_cons_zero, Option.some.injEq] at h
      simp [h]
    | succ i =>
      have h' : l[i]? = some a := by simpa using h
      have := ih h' (total_set h')
      simp only [total_cons]
      omega

/-- Two different places contribute independently. -/
theorem total_two {j : Nat} (hi : l[i]? = some a) (hj : l[j]? = some b) (hne : i ≠ j) :
    f a + f b ≤ total f l := by
  induction l generalizing i j with
  | nil => simp at hi
  | cons x l ih =>
    cases i with
    | zero =>
      cases j with
      | zero => exact absurd rfl hne
      | succ j =>
        simp only [List.getElem?_cons_zero, Option.some.injEq] at hi
        have := total_pos (f := f) (show l[j]? = some b by simpa using hj)
        simp only [total_cons, hi]
        omega
    | succ i =>
      cases j with
      | zero =>
        simp only [List.getElem?_cons_zero, Option.some.injEq] at hj
        have := total_pos (f := f) (show l[i]? = some a by simpa using hi)
        simp only [total_cons, hj]
        omega
      | succ j =>
        have := ih (by simpa using hi) (by simpa using hj) (by omega)
        simp only [total_cons]
        omega

/-- A positive total has a contributor. -/
theorem exists_of_total_pos (h : 0 < total f l) : ∃ a ∈ l, 0 < f a := by
  by_contra hc
  have : total f l = 0 := total_eq_zero_of fun a ha => by
    by_contra h0
    exact hc ⟨a, ha, by omega⟩
  omega

theorem total_le {g : α → Nat} (h : ∀ a ∈ l, f a ≤ g a) : total f l ≤ total g l := by
  induction l with
  | nil => simp
  | cons a l ih =>
    have h1 := h a List.mem_cons_self
    have h2 := ih fun b hb => h b (List.mem_cons_of_mem _ hb)
    simp only [total_cons]
    omega

end

theorem countP_eq_total (p : α → Bool) (l : List α) :
    l.countP p = total (fun a => if p a then 1 else 0) l := by
  induction l with
  | nil => rfl
  | cons a l ih => rw [List.countP_cons, total_cons, ih, add_comm]

/-! ## Holders -/

section
variable {β : Type} [DecidableEq β] {f : α → Option β} {x : β} {j : Nat}

/-- The number of elements that `f` says hold `x`. -/
def holders (f : α → Option β) (l : List α) (x : β) : Nat :=
  total (fun a => if f a = some x then 1 else 0) l

@[simp] theorem holders_nil : holders f [] x = 0 := rfl

@[simp] theorem holders_snoc :
    holders f (l ++ [a]) x = holders f l x + if f a = some x then 1 else 0 := by
  simp [holders]

theorem holders_set (h : l[i]? = some a) (b : α) (x : β) :
    holders f (l.set i b) x + (if f a = some x then 1 else 0) =
      holders f l x + if f b = some x then 1 else 0 :=
  total_set h

/-- Nothing changes for `x` when the new element holds it iff the old one does. -/
theorem holders_set_iff (h : l[i]? = some a) (hf : f b = some x ↔ f a = some x) :
    holders f (l.set i b) x = holders f l x :=
  total_set_eq h (if_congr hf rfl rfl)

/-- An element that does not hold `x` begins to. -/
theorem holders_take (h : l[i]? = some a) (ha : f a ≠ some x) (hb : f b = some x) :
    holders f (l.set i b) x = holders f l x + 1 := by
  simpa [ha, hb] using holders_set (f := f) h b x

/-- An element stops holding `x`. -/
theorem holders_drop (h : l[i]? = some a) (ha : f a = some x) (hb : f b ≠ some x) :
    holders f (l.set i b) x + 1 = holders f l x := by
  simpa [ha, hb] using holders_set (f := f) h b x

theorem holders_pos (h : l[i]? = some a) (hf : f a = some x) : 0 < holders f l x := by
  have := total_pos (f := fun a => if f a = some x then 1 else 0) h
  simp only [hf, if_true] at this
  exact this

theorem holders_eq_zero (h : ∀ a ∈ l, f a ≠ some x) : holders f l x = 0 :=
  total_eq_zero_of fun a ha => if_neg (h a ha)

theorem exists_holder (h : 0 < holders f l x) :
    ∃ (i : Nat) (a : α), l[i]? = some a ∧ f a = some x := by
  obtain ⟨a, ha, hpos⟩ := exists_of_total_pos h
  obtain ⟨i, hi⟩ := List.mem_iff_getElem?.1 ha
  refine ⟨i, a, hi, ?_⟩
  by_contra hne
  simp [hne] at hpos

/-- What at most one element holds, one place holds. -/
theorem holder_unique (h : holders f l x ≤ 1) (hi : l[i]? = some a) (hj : l[j]? = some b)
    (ha : f a = some x) (hb : f b = some x) : i = j := by
  by_contra hne
  have := total_two (f := fun a => if f a = some x then 1 else 0) hi hj hne
  simp only [ha, hb, if_true] at this
  unfold holders at h
  omega

end

end Effect
