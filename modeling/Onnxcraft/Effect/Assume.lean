import Onnxcraft.Effect.Wp

/-!
# Assumptions about answers

`assuming C` is the protocol that asks nothing of a program and relies on `C` for every answer: a
`wp` under it says how a program ends in an environment that behaves as `C` says. What another
protocol proves of a program can be used there (`wp_forget`), as far as its assumptions follow from
`C` and from what its ghost state keeps.
-/

namespace Effect

variable {E : Type} {R : E → Type} {G α : Type}

/-- The environment answers as `C` says. -/
def assuming (C : Event E R → Prop) : Spec E R Unit where
  pre _ _ := True
  env e _ r := C ⟨e, r⟩
  upd _ _ _ := ()

section
variable {C : Event E R → Prop} {Q : α → Unit → Prop}

theorem wp_assuming {e : E} {Q : R e → Unit → Prop} :
    wp (assuming C) (Prog.perform e) Q () ↔ ∀ r, C ⟨e, r⟩ → Q r () := by
  simp [assuming]

/-- A program whose answers do not matter. -/
theorem wp_whatever (p : Prog E R α) (hQ : ∀ a, Q a ()) : wp (assuming C) p Q () := by
  induction p with
  | ret a => exact hQ a
  | op e k ih => exact ⟨trivial, fun r _ => ih r⟩

theorem assuming_allows {tr : List (Event E R)} (h : ∀ ev ∈ tr, C ev) : (assuming C).Allows tr () := by
  induction tr with
  | nil => trivial
  | cons ev tr ih =>
    obtain ⟨hev, hrest⟩ := List.forall_mem_cons.1 h
    exact ⟨hev, ih hrest⟩

theorem Spec.allows_append {S : Spec E R G} {tr tr' : List (Event E R)} {g : G} :
    S.Allows (tr ++ tr') g ↔ S.Allows tr g ∧ S.Allows tr' (S.after tr g) := by
  induction tr generalizing g with
  | nil => simp [Spec.Allows]
  | cons ev tr ih =>
    simp only [List.cons_append, Spec.Allows, ih, and_assoc]
    rfl

/-- What a protocol proves holds where its assumptions do. -/
theorem wp_forget {S : Spec E R G} {I : G → Prop} {p : Prog E R α} {Q : α → G → Prop} {g : G}
    (hstep : ∀ e g r, I g → C ⟨e, r⟩ → S.env e g r ∧ I (S.upd e r g)) (h : wp S p Q g) (hg : I g) :
    wp (assuming C) p (fun a _ => ∃ g', I g' ∧ Q a g') () := by
  induction p generalizing g with
  | ret a => exact ⟨g, hg, h⟩
  | op e k ih =>
    refine ⟨trivial, fun r hr => ?_⟩
    obtain ⟨henv, hI⟩ := hstep e g r hg hr
    exact ih r (h.2 r henv) hI

end

end Effect
