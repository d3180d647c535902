import Onnxcraft.Effect.History

/-!
# The events of a loop

What a loop has recorded, iteration by iteration. `Through ok xs l`: `l` is made of the events of
one iteration for each element of `xs`, in order, each as `ok` says. `Halts ok no xs l`: the loop
ends early, at the first element whose events are as `no` says. `CutShort F full l`: `l` goes along
`full` until an operation fails.
-/

namespace Effect

variable {E : Type} {R : E → Type} {α β σ ε : Type}

inductive Through (ok : α → List (Event E R) → Prop) : List α → List (Event E R) → Prop
  | nil : Through ok [] []
  | cons {x : α} {xs : List α} {l l' : List (Event E R)} :
      ok x l → Through ok xs l' → Through ok (x :: xs) (l ++ l')

inductive Halts (ok no : α → List (Event E R) → Prop) : List α → List (Event E R) → Prop
  | here {x : α} {xs : List α} {l : List (Event E R)} : no x l → Halts ok no (x :: xs) l
  | later {x : α} {xs : List α} {l l' : List (Event E R)} :
      ok x l → Halts ok no xs l' → Halts ok no (x :: xs) (l ++ l')

/-- `l` goes along `full` until an operation is answered as `F` says. -/
def CutShort (F : Event E R → Prop) (full l : List (Event E R)) : Prop :=
  ∃ before e a b after, full = before ++ ⟨e, a⟩ :: after ∧ l = before ++ [⟨e, b⟩] ∧ F ⟨e, b⟩

section
variable {ok no : α → List (Event E R) → Prop} {xs ys : List α} {l l' : List (Event E R)}

theorem Through.append (h : Through ok xs l) (h' : Through ok ys l') :
    Through ok (xs ++ ys) (l ++ l') := by
  induction h with
  | nil => exact h'
  | cons hx _ ih =>
    rw [List.cons_append, List.append_assoc]
    exact .cons hx ih

/-- A loop that ends early does not reach what comes after it. -/
theorem Halts.append (h : Halts ok no xs l) (ys : List α) : Halts ok no (xs ++ ys) l := by
  induction h with
  | here hx => exact .here hx
  | later hx _ ih => exact .later hx ih

theorem Through.halts (h : Through ok xs l) (h' : Halts ok no ys l') :
    Halts ok no (xs ++ ys) (l ++ l') := by
  induction h with
  | nil => exact h'
  | cons hx _ ih =>
    rw [List.cons_append, List.append_assoc]
    exact .later hx ih

theorem Through.map {f : β → α} {xs : List β} (h : Through (fun x => ok (f x)) xs l) :
    Through ok (xs.map f) l := by
  induction h with
  | nil => exact .nil
  | cons hx _ ih => exact .cons hx ih

theorem Halts.map {f : β → α} {xs : List β} (h : Halts (fun x => ok (f x)) (fun x => no (f x)) xs l) :
    Halts ok no (xs.map f) l := by
  induction h with
  | here hx => exact .here hx
  | later hx _ ih => exact .later hx ih

/-- What the events of an iteration say of its element, in a history in `J`, holds of every
element. -/
theorem Through.forall {J : List (Event E R) → Prop} {p : α → Prop}
    (hJ : ∀ l l', J (l ++ l') → J l ∧ J l') (hok : ∀ x l, ok x l → J l → p x)
    (h : Through ok xs l) (hj : J l) : ∀ x ∈ xs, p x := by
  induction h with
  | nil => simp
  | cons hx _ ih =>
    obtain ⟨h₁, h₂⟩ := hJ _ _ hj
    exact List.forall_mem_cons.2 ⟨hok _ _ hx h₁, ih h₂⟩

theorem Halts.exists {J : List (Event E R) → Prop} {p : α → Prop}
    (hJ : ∀ l l', J (l ++ l') → J l ∧ J l') (hno : ∀ x l, no x l → J l → ¬p x)
    (h : Halts ok no xs l) (hj : J l) : ∃ x ∈ xs, ¬p x := by
  induction h with
  | here hx => exact ⟨_, List.mem_cons_self, hno _ _ hx hj⟩
  | later _ _ ih =>
    obtain ⟨x, hx, hp⟩ := ih (hJ _ _ hj).2
    exact ⟨x, List.mem_cons_of_mem _ hx, hp⟩

/-- What holds of the events of every iteration holds of all events. -/
theorem Halts.forall_mem {p : Event E R → Prop} (hok : ∀ x l, ok x l → ∀ ev ∈ l, p ev)
    (hno : ∀ x l, no x l → ∀ ev ∈ l, p ev) (h : Halts ok no xs l) : ∀ ev ∈ l, p ev := by
  induction h with
  | here hx => exact hno _ _ hx
  | later hx _ ih => exact List.forall_mem_append.2 ⟨hok _ _ hx, ih⟩

/-- A history that is cut short performs nothing but what the full one does. -/
theorem CutShort.forall_mem {F : Event E R → Prop} {p : E → Prop} (h : CutShort F l l')
    (hl : ∀ ev ∈ l, p ev.1) : ∀ ev ∈ l', p ev.1 := by
  obtain ⟨before, e, a, b, after, rfl, rfl, -⟩ := h
  obtain ⟨hbefore, hrest⟩ := List.forall_mem_append.1 hl
  exact List.forall_mem_append.2
    ⟨hbefore, List.forall_mem_singleton.2 (hrest ⟨e, a⟩ List.mem_cons_self)⟩

/-- What code has recorded after `l`, by the way it ends. -/
def Recorded (ok no : List (Event E R) → Prop) (l : List (Event E R)) (r : Except ε β)
    (l' : List (Event E R)) : Prop :=
  ∃ es, l' = l ++ es ∧ match r with | .ok _ => ok es | .error _ => no es

/-- **Loops**, from what one iteration records. -/
theorem wpc_through {S : Spec E R (List (Event E R))} {body : α → Code E R σ ε Unit}
    (hb : ∀ x st l, wpc S (body x) (fun r _ l' => Recorded (ok x) (no x) l r l') st l) (xs : List α)
    (st : σ) (l : List (Event E R)) :
    wpc S (Code.forEach body xs) (fun r _ l' => Recorded (Through ok xs) (Halts ok no xs) l r l')
      st l := by
  induction xs generalizing st l with
  | nil => exact ⟨[], (List.append_nil l).symm, .nil⟩
  | cons x xs ih =>
    simp only [Code.forEach, wpc_bind]
    refine wpc_mono ?_ (hb x st l)
    rintro (e | _) st' l' ⟨es, rfl, hx⟩
    · exact ⟨es, rfl, .here hx⟩
    · refine wpc_mono ?_ (ih st' (l ++ es))
      rintro (e | _) st'' l'' ⟨es', rfl, hxs⟩
      · exact ⟨es ++ es', List.append_assoc .., .later hx hxs⟩
      · exact ⟨es ++ es', List.append_assoc .., .cons hx hxs⟩

end

end Effect
