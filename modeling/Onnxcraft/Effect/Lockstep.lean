import Onnxcraft.Effect.History

/-!
# Two programs side by side

A `Pairing` says which operations two programs may perform at the same time, and how their answers
are related then. `Lockstep M Q p p'`: performing operations paired by `M`, and answered as it says,
`p` and `p'` go on together and end with results in `Q`. A program with operations that are paired
with themselves keeps step with itself (`Lockstep.self`); `Lockstep.finished` reads the relation off
two runs.
-/

namespace Effect

variable {E : Type} {R : E → Type} {α α' β β' : Type}

/-- The operations that may be performed together, with the relation of their answers. -/
abbrev Pairing (E : Type) (R : E → Type) := (e e' : E) → (R e → R e' → Prop) → Prop

inductive Lockstep (M : Pairing E R) (Q : α → α' → Prop) : Prog E R α → Prog E R α' → Prop
  | ret {a : α} {a' : α'} : Q a a' → Lockstep M Q (.ret a) (.ret a')
  | op {e e' : E} {A : R e → R e' → Prop} {k : R e → Prog E R α} {k' : R e' → Prog E R α'} :
      M e e' A → (∀ r r', A r r' → Lockstep M Q (k r) (k' r')) → Lockstep M Q (.op e k) (.op e' k')

namespace Lockstep

variable {M : Pairing E R} {Q Q' : α → α' → Prop}

theorem pure {a : α} {a' : α'} (h : Q a a') :
    Lockstep M Q (Pure.pure a : Prog E R α) (Pure.pure a') := .ret h

theorem mono {p : Prog E R α} {p' : Prog E R α'} (h : Lockstep M Q p p')
    (hQ : ∀ a a', Q a a' → Q' a a') : Lockstep M Q' p p' := by
  induction h with
  | ret h => exact .ret (hQ _ _ h)
  | op hm _ ih => exact .op hm ih

theorem bind {p : Prog E R α} {p' : Prog E R α'} {f : α → Prog E R β} {f' : α' → Prog E R β'}
    {P : β → β' → Prop} (h : Lockstep M Q p p') (hf : ∀ a a', Q a a' → Lockstep M P (f a) (f' a')) :
    Lockstep M P (p >>= f) (p' >>= f') := by
  induction h with
  | ret h => exact hf _ _ h
  | op hm _ ih => exact .op hm ih

theorem perform {e e' : E} {A : R e → R e' → Prop} (h : M e e' A) :
    Lockstep M A (Prog.perform e) (Prog.perform e') := .op h fun _ _ hr => .ret hr

theorem deferring {cleanup cleanup' : Prog E R Unit} {p : Prog E R α} {p' : Prog E R α'}
    (hc : Lockstep M (fun _ _ => True) cleanup cleanup') (h : Lockstep M Q p p') :
    Lockstep M Q (.deferring cleanup p) (.deferring cleanup' p') :=
  h.bind fun _ _ hq => hc.bind fun _ _ _ => .ret hq

/-- A program keeps step with itself. -/
theorem self {p : Prog E R α} (hp : Uses (fun e => M e e Eq) p) : Lockstep M Eq p p := by
  induction p with
  | ret a => exact .ret rfl
  | op e k ih =>
    refine .op hp.1 ?_
    intro r r' hr
    subst hr
    exact ih r (hp.2 r)

/-! ## Reading two runs -/

/-- Two events in step. -/
def Paired (M : Pairing E R) (ev ev' : Event E R) : Prop := ∃ A, M ev.1 ev'.1 A ∧ A ev.2 ev'.2

/-- The answers of two histories are related wherever their operations are paired. -/
def Answered (M : Pairing E R) (tr tr' : List (Event E R)) : Prop :=
  ∀ (i : Nat) (ev ev' : Event E R) (A : R ev.1 → R ev'.1 → Prop), tr[i]? = some ev →
    tr'[i]? = some ev' → M ev.1 ev'.1 A → A ev.2 ev'.2

theorem Answered.tail {ev ev' : Event E R} {tr tr' : List (Event E R)}
    (h : Answered M (ev :: tr) (ev' :: tr')) : Answered M tr tr' :=
  fun i x x' A hx hx' hm => h (i + 1) x x' A hx hx' hm

/-- **Two runs in step.** They have performed paired operations, and return related results. -/
theorem finished {p : Prog E R α} {p' : Prog E R α'} {tr tr' : List (Event E R)} {a : α} {a' : α'}
    (h : Lockstep M Q p p') (hr : Runs p tr (.ret a)) (hr' : Runs p' tr' (.ret a'))
    (hA : Answered M tr tr') : List.Forall₂ (Paired M) tr tr' ∧ Q a a' := by
  induction h generalizing tr tr' with
  | ret hq =>
    obtain ⟨rfl, h₁⟩ := hr.ret_inv
    obtain ⟨rfl, h₂⟩ := hr'.ret_inv
    obtain rfl := Prog.ret.inj h₁
    obtain rfl := Prog.ret.inj h₂
    exact ⟨.nil, hq⟩
  | op hm _ ih =>
    cases hr with
    | cons hr =>
    cases hr' with
    | cons hr' =>
    have hrel := hA 0 _ _ _ rfl rfl hm
    obtain ⟨htr, hq⟩ := ih _ _ hrel hr hr' hA.tail
    exact ⟨.cons ⟨_, hm, hrel⟩ htr, hq⟩

end Lockstep

end Effect
