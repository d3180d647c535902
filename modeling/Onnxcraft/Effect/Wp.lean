import Onnxcraft.Effect.Prog
import Mathlib.Data.List.Induction

/-!
# Weakest preconditions over a ghost state

A `Spec E R G` is a protocol for the operations `E`, kept in a ghost state `G`: what a program
must have established before it performs `e` (`pre`), what it may then rely on about the answer
(`env`), and how the ghost state follows (`upd`). `wp S p Q g`: from the ghost state `g` every
operation of `p` meets its `pre`, for every answers allowed by `env`, and `p` ends with `Q`.

`wp_runs` reads a `wp` off a run; `wp_fold` is the rule for loops. `wpc` is the same for `Code`,
whose postcondition also covers the jump to the failure label.
-/

namespace Effect

variable {E : Type} {R : E → Type} {G α β σ ε : Type}

/-- A protocol: obligations, assumptions and bookkeeping of every operation. -/
structure Spec (E : Type) (R : E → Type) (G : Type) where
  pre : E → G → Prop
  env : (e : E) → G → R e → Prop
  upd : (e : E) → R e → G → G

/-- The weakest precondition of `p` for `Q` under the protocol `S`. -/
def wp (S : Spec E R G) : Prog E R α → (α → G → Prop) → G → Prop
  | .ret a, Q, g => Q a g
  | .op e k, Q, g => S.pre e g ∧ ∀ r, S.env e g r → wp S (k r) Q (S.upd e r g)

/-- The ghost state after the events `tr`. -/
def Spec.after (S : Spec E R G) (tr : List (Event E R)) (g : G) : G :=
  tr.foldl (fun g ev => S.upd ev.1 ev.2 g) g

/-- Every answer of `tr` is one the protocol allows. -/
def Spec.Allows (S : Spec E R G) : List (Event E R) → G → Prop
  | [], _ => True
  | ev :: tr, g => S.env ev.1 g ev.2 ∧ S.Allows tr (S.upd ev.1 ev.2 g)

/-- Every event of `tr` meets its obligation, and its answer is one the protocol allows. -/
def Spec.Valid (S : Spec E R G) : List (Event E R) → G → Prop
  | [], _ => True
  | ev :: tr, g => (S.pre ev.1 g ∧ S.env ev.1 g ev.2) ∧ S.Valid tr (S.upd ev.1 ev.2 g)

section
variable {S : Spec E R G} {Q Q' : α → G → Prop} {g : G}

@[simp] theorem wp_ret (a : α) : wp S (.ret a : Prog E R α) Q g ↔ Q a g := Iff.rfl

@[simp] theorem wp_op (e : E) (k : R e → Prog E R α) :
    wp S (.op e k) Q g ↔ S.pre e g ∧ ∀ r, S.env e g r → wp S (k r) Q (S.upd e r g) := Iff.rfl

@[simp] theorem wp_perform {e : E} {Q : R e → G → Prop} :
    wp S (.perform e) Q g ↔ S.pre e g ∧ ∀ r, S.env e g r → Q r (S.upd e r g) := Iff.rfl

theorem wp_mono {p : Prog E R α} (h : ∀ a g, Q a g → Q' a g) :
    wp S p Q g → wp S p Q' g := by
  induction p generalizing g with
  | ret a => exact h a g
  | op e k ih => exact fun ⟨hp, hk⟩ => ⟨hp, fun r hr => ih r (hk r hr)⟩

@[simp] theorem wp_bind {p : Prog E R α} {f : α → Prog E R β} {Q : β → G → Prop} :
    wp S (p >>= f) Q g ↔ wp S p (fun a g' => wp S (f a) Q g') g := by
  induction p generalizing g with
  | ret a => exact Iff.rfl
  | op e k ih =>
    simp only [Prog.op_bind, wp_op]
    exact and_congr_right fun _ => forall₂_congr fun r _ => ih r

@[simp] theorem wp_pure (a : α) : wp S (pure a : Prog E R α) Q g ↔ Q a g := Iff.rfl

@[simp] theorem wp_map {p : Prog E R α} {f : α → β} {Q : β → G → Prop} :
    wp S (f <$> p) Q g ↔ wp S p (fun a g' => Q (f a) g') g :=
  wp_bind

@[simp] theorem wp_deferring {cleanup : Prog E R Unit} {body : Prog E R α} :
    wp S (.deferring cleanup body) Q g ↔
      wp S body (fun a g' => wp S cleanup (fun _ g'' => Q a g'') g') g := by
  simp [Prog.deferring]

theorem wp_and {p : Prog E R α} (h : wp S p Q g) (h' : wp S p Q' g) :
    wp S p (fun a g => Q a g ∧ Q' a g) g := by
  induction p generalizing g with
  | ret a => exact ⟨h, h'⟩
  | op e k ih => exact ⟨h.1, fun r hr => ih r (h.2 r hr) (h'.2 r hr)⟩

/-- **Loops.** `Inv done st` holds before the iteration after the elements `done`. -/
theorem wp_fold {body : α → σ → Prog E R σ} {xs : List α} {Q : σ → G → Prop}
    (Inv : List α → σ → G → Prop)
    (hbody : ∀ done x rest st g, xs = done ++ x :: rest → Inv done st g →
      wp S (body x st) (Inv (done ++ [x])) g)
    (hend : ∀ st g, Inv xs st g → Q st g) {st : σ} (h0 : Inv [] st g) :
    wp S (.fold body xs st) Q g := by
  suffices h : ∀ rest done st g, xs = done ++ rest → Inv done st g →
      wp S (.fold body rest st) Q g from h xs [] st g rfl h0
  intro rest
  induction rest with
  | nil => intro done st g hx hi; exact hend st g (by simpa [hx] using hi)
  | cons x rest ih =>
    intro done st g hx hi
    simp only [Prog.fold, wp_bind]
    refine wp_mono (fun st' g' h' => ?_) (hbody done x rest st g hx hi)
    exact ih (done ++ [x]) st' g' (by simpa using hx) h'

/-- An element of `List.range n` after `done` is `done`'s length. -/
theorem range_split {n i : Nat} {done rest : List Nat} (h : List.range n = done ++ i :: rest) :
    done.length < n ∧ i = done.length := by
  have hget : (List.range n)[done.length]? = some i := by rw [h]; simp
  simp only [List.getElem?_eq_some_iff, List.length_range, List.getElem_range] at hget
  exact ⟨hget.1, hget.2.symm⟩

/-- Loops over `0, …, n - 1`: the invariant is indexed by the next iteration. -/
theorem wp_foldRange {body : Nat → σ → Prog E R σ} {n : Nat} {Q : σ → G → Prop}
    (Inv : Nat → σ → G → Prop)
    (hbody : ∀ i st g, i < n → Inv i st g → wp S (body i st) (Inv (i + 1)) g)
    (hend : ∀ st g, Inv n st g → Q st g) {st : σ} (h0 : Inv 0 st g) :
    wp S (.fold body (List.range n) st) Q g := by
  refine wp_fold (fun done st g => Inv done.length st g) ?_ ?_ h0
  · intro done i rest st g hx hi
    obtain ⟨hlt, rfl⟩ := range_split hx
    simpa using hbody done.length st g hlt hi
  · intro st g hi; exact hend st g (by simpa using hi)

/-! ## Reading a run -/

/-- A run of `p` whose answers the protocol allows ends in a program that meets the rest. -/
theorem wp_runs {p q : Prog E R α} {tr : List (Event E R)} (hr : Runs p tr q)
    (h : wp S p Q g) (ha : S.Allows tr g) : wp S q Q (S.after tr g) := by
  induction hr generalizing g with
  | nil p => exact h
  | cons _ ih => exact ih (h.2 _ ha.1) ha.2

/-- A finished run ends in the postcondition. -/
theorem wp_finished {p : Prog E R α} {a : α} {tr : List (Event E R)} (hr : Runs p tr (.ret a))
    (h : wp S p Q g) (ha : S.Allows tr g) : Q a (S.after tr g) :=
  wp_runs hr h ha

@[simp] theorem after_nil : S.after [] g = g := rfl

@[simp] theorem after_append (tr tr' : List (Event E R)) :
    S.after (tr ++ tr') g = S.after tr' (S.after tr g) := by
  simp [Spec.after, List.foldl_append]

@[simp] theorem after_single (ev : Event E R) : S.after [ev] g = S.upd ev.1 ev.2 g := rfl

theorem Spec.valid_append {tr tr' : List (Event E R)} :
    S.Valid (tr ++ tr') g ↔ S.Valid tr g ∧ S.Valid tr' (S.after tr g) := by
  induction tr generalizing g with
  | nil => simp [Spec.Valid, Spec.after]
  | cons ev tr ih =>
    simp only [List.cons_append, Spec.Valid, ih, and_assoc]
    rfl

@[simp] theorem Spec.valid_single {ev : Event E R} :
    S.Valid [ev] g ↔ S.pre ev.1 g ∧ S.env ev.1 g ev.2 := by
  simp [Spec.Valid]

/-- **Histories.** What every step keeps of the events so far and the ghost state holds of a whole
history. -/
theorem Spec.Valid.history {I : List (Event E R) → G → Prop} {tr : List (Event E R)}
    (h : S.Valid tr g) (h0 : I [] g)
    (hstep : ∀ tr' g' e r, I tr' g' → S.pre e g' → S.env e g' r →
      I (tr' ++ [⟨e, r⟩]) (S.upd e r g')) : I tr (S.after tr g) := by
  induction tr using List.reverseRecOn with
  | nil => exact h0
  | append_singleton tr ev ih =>
    rw [Spec.valid_append, Spec.valid_single] at h
    rw [after_append, after_single]
    exact hstep tr _ ev.1 ev.2 (ih h.1) h.2.1 h.2.2

/-- A history's events meet their obligations in the ghost state before them. -/
theorem Spec.Valid.pre {tr tr' : List (Event E R)} {ev : Event E R}
    (h : S.Valid (tr ++ ev :: tr') g) : S.pre ev.1 (S.after tr g) :=
  (Spec.valid_append.1 h).2.1.1

end

/-! ## Code with local variables and a failure label -/

/-- The weakest precondition of code, from the variables `st` and the ghost state `g`. -/
def wpc (S : Spec E R G) (c : Code E R σ ε α) (Q : Except ε α → σ → G → Prop) (st : σ) (g : G) :
    Prop :=
  wp S (c st) (fun r g' => Q r.2 r.1 g') g

section
variable {S : Spec E R G} {Q Q' : Except ε α → σ → G → Prop} {st : σ} {g : G}

theorem wp_code {c : Code E R σ ε α} {Q : σ × Except ε α → G → Prop} :
    wp S (c st) Q g ↔ wpc S c (fun r st' g' => Q (st', r) g') st g := Iff.rfl

@[simp] theorem wp_run {c : Code E R σ ε α} {Q : Except ε α → G → Prop} :
    wp S (c.run st) Q g ↔ wpc S c (fun r _ g' => Q r g') st g := by
  simp [Code.run, wpc]

theorem wpc_mono {c : Code E R σ ε α} (h : ∀ r st g, Q r st g → Q' r st g) :
    wpc S c Q st g → wpc S c Q' st g :=
  wp_mono fun r g => h r.2 r.1 g

@[simp] theorem wpc_pure (a : α) :
    wpc S (pure a : Code E R σ ε α) Q st g ↔ Q (.ok a) st g := Iff.rfl

@[simp] theorem wpc_bind {c : Code E R σ ε α} {f : α → Code E R σ ε β}
    {Q : Except ε β → σ → G → Prop} :
    wpc S (c >>= f) Q st g ↔ wpc S c (fun r st' g' => match r with
      | .ok a => wpc S (f a) Q st' g'
      | .error e => Q (.error e) st' g') st g := by
  unfold wpc
  show wp S (c st >>= _) _ g ↔ _
  rw [wp_bind]
  constructor <;> refine wp_mono ?_ <;> rintro ⟨st', e | a⟩ g' h <;> exact h

@[simp] theorem wpc_get {Q : Except ε σ → σ → G → Prop} :
    wpc S (Code.get : Code E R σ ε σ) Q st g ↔ Q (.ok st) st g := Iff.rfl

@[simp] theorem wpc_modify {f : σ → σ} {Q : Except ε Unit → σ → G → Prop} :
    wpc S (Code.modify f : Code E R σ ε Unit) Q st g ↔ Q (.ok ()) (f st) g := Iff.rfl

@[simp] theorem wpc_fail (e : ε) :
    wpc S (Code.fail e : Code E R σ ε α) Q st g ↔ Q (.error e) st g := Iff.rfl

@[simp] theorem wpc_lift {p : Prog E R α} :
    wpc S (Code.lift p : Code E R σ ε α) Q st g ↔ wp S p (fun a g' => Q (.ok a) st g') g := by
  simp [wpc, Code.lift]

@[simp] theorem wpc_check {p : Prog E R (Except ε α)} :
    wpc S (Code.check p : Code E R σ ε α) Q st g ↔ wp S p (fun r g' => Q r st g') g := by
  simp [wpc, Code.check]

/-- **Loops of code**: `wp_forEach` with the failure label as the early end. -/
theorem wpc_forEach {body : β → Code E R σ ε Unit} {xs : List β}
    {Q : Except ε Unit → σ → G → Prop} (Inv : List β → σ → G → Prop)
    (hbody : ∀ done x rest st g, xs = done ++ x :: rest → Inv done st g →
      wpc S (body x) (fun r st' g' => match r with
        | .ok _ => Inv (done ++ [x]) st' g'
        | .error e => Q (.error e) st' g') st g)
    (hend : ∀ st g, Inv xs st g → Q (.ok ()) st g) (h0 : Inv [] st g) :
    wpc S (Code.forEach body xs) Q st g := by
  suffices h : ∀ rest done st g, xs = done ++ rest → Inv done st g →
      wpc S (Code.forEach body rest) Q st g from h xs [] st g rfl h0
  intro rest
  induction rest with
  | nil => intro done st g hx hi; exact hend st g (by simpa [hx] using hi)
  | cons x rest ih =>
    intro done st g hx hi
    simp only [Code.forEach, wpc_bind]
    refine wpc_mono ?_ (hbody done x rest st g hx hi)
    rintro (e | _) st' g' h'
    · exact h'
    · exact ih (done ++ [x]) st' g' (by simpa using hx) h'

/-- Loops of code over `0, …, n - 1`. -/
theorem wpc_forRange {body : Nat → Code E R σ ε Unit} {n : Nat}
    {Q : Except ε Unit → σ → G → Prop} (Inv : Nat → σ → G → Prop)
    (hbody : ∀ i st g, i < n → Inv i st g →
      wpc S (body i) (fun r st' g' => match r with
        | .ok _ => Inv (i + 1) st' g'
        | .error e => Q (.error e) st' g') st g)
    (hend : ∀ st g, Inv n st g → Q (.ok ()) st g) (h0 : Inv 0 st g) :
    wpc S (Code.forEach body (List.range n)) Q st g := by
  refine wpc_forEach (fun done st g => Inv done.length st g) ?_ ?_ h0
  · intro done i rest st g hx hi
    obtain ⟨hlt, rfl⟩ := range_split hx
    simpa using hbody done.length st g hlt hi
  · intro st g hi; exact hend st g (by simpa using hi)

end

end Effect
