import Onnxcraft.Effect.History

/-!
# What a program is about to run

`Begins body p`: `p` runs `body`, then goes on from what it returns. `leads S A B p Q g`: from the
ghost state `g`, with the answers that `S` allows, what is left of `p` satisfies `B` whenever its
next operation is in `A`, and `p` ends with `Q`. Where a `wp` speaks about single operations, this
speaks about the code that follows them; `leads_runs` reads it off a run.
-/

namespace Effect

variable {E : Type} {R : E → Type} {G α β δ : Type}

/-- `p` runs `body` first. -/
def Begins (body : Prog E R β) (p : Prog E R α) : Prop := ∃ k : β → Prog E R α, p = body >>= k

theorem Begins.bind {body : Prog E R β} {p : Prog E R α} (h : Begins body p) (f : α → Prog E R δ) :
    Begins body (p >>= f) := by
  obtain ⟨k, rfl⟩ := h
  exact ⟨fun b => k b >>= f, Prog.bind_assoc ..⟩

/-- A property of what is left of a program and the ghost state. -/
abbrev Point (E : Type) (R : E → Type) (G : Type) := (γ : Type) → Prog E R γ → G → Prop

/-- The property does not depend on what follows. -/
def Point.Local (B : Point E R G) : Prop :=
  ∀ (γ δ : Type) (p : Prog E R γ) (f : γ → Prog E R δ) (g : G), B γ p g → B δ (p >>= f) g

/-- Every operation in `A` that `p` comes to finds `B` of what is left. -/
def leads (S : Spec E R G) (A : E → Prop) (B : Point E R G) :
    Prog E R α → (α → G → Prop) → G → Prop
  | .ret a, Q, g => Q a g
  | .op e k, Q, g => (A e → B α (.op e k) g) ∧ ∀ r, S.env e g r → leads S A B (k r) Q (S.upd e r g)

section
variable {S : Spec E R G} {A : E → Prop} {B : Point E R G} {g : G}

theorem leads_mono {p : Prog E R α} {Q Q' : α → G → Prop} (h : ∀ a g, Q a g → Q' a g) :
    leads S A B p Q g → leads S A B p Q' g := by
  induction p generalizing g with
  | ret a => exact h a g
  | op e k ih => exact fun hp => ⟨hp.1, fun r hr => ih r (hp.2 r hr)⟩

theorem leads_bind (hB : B.Local) {p : Prog E R α} {f : α → Prog E R β} {Q : β → G → Prop}
    (h : leads S A B p (fun a g' => leads S A B (f a) Q g') g) : leads S A B (p >>= f) Q g := by
  induction p generalizing g with
  | ret a => exact h
  | op e k ih => exact ⟨fun he => hB _ _ _ f g (h.1 he), fun r hr => ih r (h.2 r hr)⟩

/-- Code that does not come to `A`. -/
theorem leads_of_wp {p : Prog E R α} {Q : α → G → Prop} (hp : Uses (fun e => ¬A e) p)
    (h : wp S p Q g) : leads S A B p Q g := by
  induction p generalizing g with
  | ret a => exact h
  | op e k ih => exact ⟨fun he => absurd he hp.1, fun r hr => ih r (hp.2 r) (h.2 r hr)⟩

theorem leads_of_uses {p : Prog E R α} (hp : Uses (fun e => ¬A e) p) :
    leads S A B p (fun _ _ => True) g := by
  induction p generalizing g with
  | ret a => trivial
  | op e k ih => exact ⟨fun he => absurd he hp.1, fun r _ => ih r (hp.2 r)⟩

/-- Code from which on `B` holds anyway. -/
theorem leads_after {p : Prog E R α} {I : G → Prop} (hB : ∀ γ (p : Prog E R γ) g, I g → B γ p g)
    (hI : ∀ g e r, I g → I (S.upd e r g)) (hg : I g) : leads S A B p (fun _ _ => True) g := by
  induction p generalizing g with
  | ret a => trivial
  | op e k ih => exact ⟨fun _ => hB _ _ _ hg, fun r _ => ih r (hI g e r hg)⟩

theorem leads_deferring (hB : B.Local) {cleanup : Prog E R Unit} {body : Prog E R α}
    (hc : Uses (fun e => ¬A e) cleanup) (h : leads S A B body (fun _ _ => True) g) :
    leads S A B (.deferring cleanup body) (fun _ _ => True) g :=
  leads_bind hB (leads_mono (fun _ _ _ => leads_of_uses (hc.bind fun _ => .pure _)) h)

/-- A run of `p` whose answers are allowed has come to `B` when an operation in `A` is next. -/
theorem leads_runs {p q : Prog E R α} {tr : List (Event E R)} {Q : α → G → Prop} (hr : Runs p tr q)
    (h : leads S A B p Q g) (ha : S.Allows tr g) {e : E} (he : q.next = some e) (hA : A e) :
    B α q (S.after tr g) := by
  induction hr generalizing g with
  | nil p =>
    obtain ⟨k, rfl⟩ := Prog.next_eq.1 he
    exact h.1 hA
  | cons _ ih => exact ih (h.2 _ ha.1) ha.2 he

end

end Effect
