import Onnxcraft.Effect.History

/-!
# Success and failure

Code that reports an error by its result. `Upholds S I Q p`: from a ghost state in `I`, `p` ends in
`I` when it succeeds, and in `Q e` when it fails with `e`; `UpholdsCode` is the same for `Code`,
whose failures are jumps to its label. The two postconditions are kept fixed, so that the rules
compose, loops included, without naming what holds in between.

`Spec.Ignores S e`: the protocol asks nothing of `e` and does not change at it. A program of such
operations keeps every ghost state (`wp_ignored`).
-/

namespace Effect

variable {E : Type} {R : E → Type} {G α β σ ε ε' : Type}

/-- What holds of a result: `I` of a success, `Q` of a failure. -/
def Settled (I : G → Prop) (Q : ε → G → Prop) : Except ε α → G → Prop
  | .ok _ => I
  | .error e => Q e

section
variable {I : G → Prop} {Q : ε → G → Prop} {g : G}

@[simp] theorem settled_ok (a : α) : Settled I Q (.ok a : Except ε α) g ↔ I g := Iff.rfl

@[simp] theorem settled_error (e : ε) : Settled I Q (.error e : Except ε α) g ↔ Q e g := Iff.rfl

theorem Settled.mono {Q' : ε → G → Prop} {r : Except ε α} (h : Settled I Q r g)
    (hQ : ∀ e g, Q e g → Q' e g) : Settled I Q' r g := by
  cases r with
  | ok a => exact h
  | error e => exact hQ e g h

end

/-- From `I`, `p` ends in `I`, or fails with an `e` in `Q e`. -/
def Upholds (S : Spec E R G) (I : G → Prop) (Q : ε → G → Prop) (p : Prog E R (Except ε α)) : Prop :=
  ∀ g, I g → wp S p (Settled I Q) g

/-- From `I`, `c` ends in `I`, or jumps to its label with an `e` in `Q e`. -/
def UpholdsCode (S : Spec E R G) (I : G → Prop) (Q : ε → G → Prop) (c : Code E R σ ε α) : Prop :=
  ∀ st g, I g → wpc S c (fun r _ g' => Settled I Q r g') st g

section
variable {S : Spec E R G} {I : G → Prop} {Q : ε → G → Prop}

theorem Upholds.pure (a : α) : Upholds S I Q (pure (.ok a) : Prog E R (Except ε α)) := fun _ h => h

theorem Upholds.error {e : ε} (h : ∀ g, I g → Q e g) :
    Upholds S I Q (Pure.pure (.error e) : Prog E R (Except ε α)) := h

/-- A program before the one that reports. -/
theorem Upholds.after {p : Prog E R β} {f : β → Prog E R (Except ε α)}
    (hp : ∀ g, I g → wp S p (fun _ g' => I g') g) (hf : ∀ b, Upholds S I Q (f b)) :
    Upholds S I Q (p >>= f) := by
  intro g hg
  rw [wp_bind]
  exact wp_mono (fun b g' h => hf b g' h) (hp g hg)

theorem Upholds.perform {e : E} {f : R e → Prog E R (Except ε α)}
    (hp : ∀ g, I g → S.pre e g ∧ ∀ r, S.env e g r → I (S.upd e r g))
    (hf : ∀ r, Upholds S I Q (f r)) : Upholds S I Q (Prog.perform e >>= f) :=
  .after (fun g hg => hp g hg) hf

theorem Upholds.run {c : Code E R σ ε α} (h : UpholdsCode S I Q c) (st : σ) :
    Upholds S I Q (c.run st) := by
  intro g hg
  rw [wp_run]
  exact h st g hg

theorem UpholdsCode.pure (a : α) : UpholdsCode S I Q (pure a : Code E R σ ε α) := fun _ _ h => h

theorem UpholdsCode.get : UpholdsCode S I Q (Code.get : Code E R σ ε σ) := fun _ _ h => h

theorem UpholdsCode.modify (f : σ → σ) :
    UpholdsCode S I Q (Code.modify f : Code E R σ ε Unit) := fun _ _ h => h

theorem UpholdsCode.fail {e : ε} (h : ∀ g, I g → Q e g) :
    UpholdsCode S I Q (Code.fail e : Code E R σ ε α) := fun _ g hg => h g hg

theorem UpholdsCode.lift {p : Prog E R α} (hp : ∀ g, I g → wp S p (fun _ g' => I g') g) :
    UpholdsCode S I Q (Code.lift p : Code E R σ ε α) := by
  intro st g hg
  rw [wpc_lift]
  exact hp g hg

theorem UpholdsCode.check {p : Prog E R (Except ε α)} (hp : Upholds S I Q p) :
    UpholdsCode S I Q (Code.check p : Code E R σ ε α) := by
  intro st g hg
  rw [wpc_check]
  exact hp g hg

theorem UpholdsCode.bind {c : Code E R σ ε α} {f : α → Code E R σ ε β} (hc : UpholdsCode S I Q c)
    (hf : ∀ a, UpholdsCode S I Q (f a)) : UpholdsCode S I Q (c >>= f) := by
  intro st g hg
  rw [wpc_bind]
  refine wpc_mono ?_ (hc st g hg)
  intro r st' g' h
  cases r with
  | ok a => exact hf a st' g' h
  | error e => exact h

/-- The error that a program makes for the failure label. -/
theorem UpholdsCode.failing {p : Prog E R ε} (hp : ∀ g, I g → wp S p Q g) :
    UpholdsCode S I Q (Code.lift p >>= Code.fail : Code E R σ ε α) := by
  intro st g hg
  rw [wpc_bind, wpc_lift]
  exact hp g hg

/-- A program whose error is passed on as another one. -/
theorem UpholdsCode.lift_error {Q' : ε' → G → Prop} {p : Prog E R (Except ε' β)}
    {f : Except ε' β → Code E R σ ε α} (hp : Upholds S I Q' p)
    (hok : ∀ b, UpholdsCode S I Q (f (.ok b)))
    (herr : ∀ e st g, Q' e g → wpc S (f (.error e)) (fun r _ g' => Settled I Q r g') st g) :
    UpholdsCode S I Q (Code.lift p >>= f) := by
  intro st g hg
  rw [wpc_bind, wpc_lift]
  refine wp_mono ?_ (hp g hg)
  intro r g' h
  cases r with
  | ok b => exact hok b st g' h
  | error e => exact herr e st g' h

/-- **Loops.** -/
theorem UpholdsCode.forEach_mem {body : β → Code E R σ ε Unit} {xs : List β}
    (hb : ∀ x ∈ xs, UpholdsCode S I Q (body x)) : UpholdsCode S I Q (Code.forEach body xs) := by
  induction xs with
  | nil => exact .pure ()
  | cons x xs ih =>
    obtain ⟨hx, hxs⟩ := List.forall_mem_cons.1 hb
    exact hx.bind fun _ => ih hxs

theorem UpholdsCode.forEach {body : β → Code E R σ ε Unit} (hb : ∀ x, UpholdsCode S I Q (body x))
    (xs : List β) : UpholdsCode S I Q (Code.forEach body xs) :=
  .forEach_mem fun x _ => hb x

end

/-! ## Operations that a protocol does not see -/

/-- The protocol `S` does not see `e`. -/
structure Spec.Ignores (S : Spec E R G) (e : E) : Prop where
  pre : ∀ g, S.pre e g
  upd : ∀ r g, S.upd e r g = g

section
variable {S : Spec E R G} {g : G}

theorem wp_ignored {p : Prog E R α} {Q : α → G → Prop} (hp : Uses S.Ignores p)
    (hQ : ∀ a, Q a g) : wp S p Q g := by
  induction p with
  | ret a => exact hQ a
  | op e k ih =>
    refine ⟨hp.1.pre g, fun r _ => ?_⟩
    rw [hp.1.upd]
    exact ih r (hp.2 r)

/-- A cleanup that the protocol does not see. -/
theorem Upholds.deferring {I : G → Prop} {Q : ε → G → Prop} {cleanup : Prog E R Unit}
    {body : Prog E R (Except ε α)} (hc : Uses S.Ignores cleanup) (hb : Upholds S I Q body) :
    Upholds S I Q (.deferring cleanup body) := by
  intro g hg
  rw [wp_deferring]
  exact wp_mono (fun r g' h => wp_ignored hc fun _ => h) (hb g hg)

/-- Code that reports an error of its own and does nothing that the protocol sees. -/
theorem UpholdsCode.ignored {I : G → Prop} {Q : ε → G → Prop} {c : Code E R σ ε α}
    (hc : UsesCode S.Ignores c) (hQ : ∀ e g, I g → Q e g) : UpholdsCode S I Q c := by
  intro st g hg
  refine wp_ignored (hc st) ?_
  intro r
  obtain ⟨st', a | e⟩ := r
  · exact hQ _ _ hg
  · exact hg

end

end Effect
