import Onnxcraft.Effect.Total
import Onnxcraft.Effect.Wp

/-!
# Histories

What a run says about the events before it. `Uses A p`: every operation of `p` is in `A`.
`marks A P` is the protocol that records the events on `A`, each allowed by those before it
(`P`): a `wp` under it describes every history of a program on these operations, finished or not.
`Spec.Valid.balance` relates two counts of a history by what the ghost state holds.
-/

namespace Effect

variable {E : Type} {R : E → Type} {G α β σ ε : Type}

/-! ## The operations of a program -/

/-- Every operation of `p` satisfies `A`, whatever it is answered. -/
def Uses (A : E → Prop) : Prog E R α → Prop
  | .ret _ => True
  | .op e k => A e ∧ ∀ r, Uses A (k r)

/-- `Uses` for code with local variables. -/
def UsesCode (A : E → Prop) (c : Code E R σ ε α) : Prop := ∀ st, Uses A (c st)

section
variable {A B : E → Prop}

theorem Uses.pure (a : α) : Uses A (pure a : Prog E R α) := trivial

theorem Uses.perform {e : E} (h : A e) : Uses A (Prog.perform e : Prog E R (R e)) :=
  ⟨h, fun _ => trivial⟩

theorem Uses.bind {p : Prog E R α} {f : α → Prog E R β} (hp : Uses A p) (hf : ∀ a, Uses A (f a)) :
    Uses A (p >>= f) := by
  induction p with
  | ret a => exact hf a
  | op e k ih => exact ⟨hp.1, fun r => ih r (hp.2 r)⟩

theorem Uses.map {p : Prog E R α} {f : α → β} (hp : Uses A p) : Uses A (f <$> p) :=
  hp.bind fun _ => trivial

theorem Uses.deferring {cleanup : Prog E R Unit} {body : Prog E R α} (hc : Uses A cleanup)
    (hb : Uses A body) : Uses A (Prog.deferring cleanup body) :=
  hb.bind fun _ => hc.bind fun _ => trivial

theorem Uses.fold {body : α → σ → Prog E R σ} (hb : ∀ x st, Uses A (body x st)) (xs : List α)
    (st : σ) : Uses A (Prog.fold body xs st) := by
  induction xs generalizing st with
  | nil => trivial
  | cons x xs ih => exact (hb x st).bind fun st => ih st

theorem Uses.mono {p : Prog E R α} (hp : Uses A p) (h : ∀ e, A e → B e) : Uses B p := by
  induction p with
  | ret a => trivial
  | op e k ih => exact ⟨h e hp.1, fun r => ih r (hp.2 r)⟩

theorem UsesCode.pure (a : α) : UsesCode A (pure a : Code E R σ ε α) := fun _ => trivial

theorem UsesCode.get : UsesCode A (Code.get : Code E R σ ε σ) := fun _ => trivial

theorem UsesCode.modify (f : σ → σ) : UsesCode A (Code.modify f : Code E R σ ε Unit) :=
  fun _ => trivial

theorem UsesCode.fail (e : ε) : UsesCode A (Code.fail e : Code E R σ ε α) := fun _ => trivial

theorem UsesCode.lift {p : Prog E R α} (hp : Uses A p) :
    UsesCode A (Code.lift p : Code E R σ ε α) := fun _ => hp.bind fun _ => trivial

theorem UsesCode.check {p : Prog E R (Except ε α)} (hp : Uses A p) :
    UsesCode A (Code.check p : Code E R σ ε α) := fun _ => hp.bind fun _ => trivial

theorem UsesCode.bind {c : Code E R σ ε α} {f : α → Code E R σ ε β} (hc : UsesCode A c)
    (hf : ∀ a, UsesCode A (f a)) : UsesCode A (c >>= f) := fun st => by
  refine (hc st).bind ?_
  rintro ⟨st', e | a⟩
  · trivial
  · exact hf a st'

theorem UsesCode.forEach {body : β → Code E R σ ε Unit} (hb : ∀ x, UsesCode A (body x))
    (xs : List β) : UsesCode A (Code.forEach body xs) := by
  induction xs with
  | nil => exact .pure ()
  | cons x xs ih => exact (hb x).bind fun _ => ih

theorem UsesCode.run {c : Code E R σ ε α} (hc : UsesCode A c) (st : σ) : Uses A (c.run st) :=
  (hc st).bind fun _ => trivial

theorem Runs.uses {p q : Prog E R α} {tr : List (Event E R)} (hr : Runs p tr q) (hp : Uses A p) :
    ∀ ev ∈ tr, A ev.1 := by
  induction hr with
  | nil p => simp
  | cons hr ih =>
    intro ev hev
    rcases List.mem_cons.1 hev with rfl | hev
    · exact hp.1
    · exact ih (hp.2 _) ev hev

end

/-- A run of `p >>= f` is a run of `p`, or a finished run of `p` followed by one of `f`. -/
theorem Runs.bind_inv {p : Prog E R α} {f : α → Prog E R β} {tr : List (Event E R)}
    {q : Prog E R β} (h : Runs (p >>= f) tr q) :
    (∃ p', Runs p tr p' ∧ q = p' >>= f) ∨
      ∃ tr₁ tr₂ a, tr = tr₁ ++ tr₂ ∧ Runs p tr₁ (.ret a) ∧ Runs (f a) tr₂ q := by
  induction p generalizing tr with
  | ret a => exact .inr ⟨[], tr, a, rfl, .nil _, h⟩
  | op e k ih =>
    cases h with
    | nil => exact .inl ⟨_, .nil _, rfl⟩
    | cons h =>
      rcases ih _ h with ⟨p', hp', rfl⟩ | ⟨tr₁, tr₂, a, rfl, h₁, h₂⟩
      · exact .inl ⟨p', .cons hp', rfl⟩
      · exact .inr ⟨_ :: tr₁, tr₂, a, rfl, .cons h₁, h₂⟩

/-- A run of `f <$> p` is a run of `p`. -/
theorem Runs.map_inv {p : Prog E R α} {f : α → β} {tr : List (Event E R)} {q : Prog E R β}
    (h : Runs (f <$> p) tr q) : ∃ p', Runs p tr p' ∧ q = f <$> p' := by
  rcases Runs.bind_inv h with ⟨p', hp', rfl⟩ | ⟨tr₁, tr₂, a, rfl, h₁, h₂⟩
  · exact ⟨p', hp', rfl⟩
  · obtain ⟨rfl, rfl⟩ := h₂.ret_inv
    exact ⟨.ret a, by simpa using h₁, rfl⟩

/-- What ends as `f <$> p` does is `p` at its end. -/
theorem Prog.map_eq_ret {p : Prog E R α} {f : α → β} {b : β} (h : f <$> p = .ret b) :
    ∃ a, p = .ret a ∧ f a = b := by
  cases p with
  | ret a => exact ⟨a, rfl, Prog.ret.inj h⟩
  | op e k => exact nomatch h

/-! ## Valid histories -/

section
variable {S : Spec E R G} {Q : α → G → Prop} {g : G} {tr : List (Event E R)}

/-- A run from a `wp` whose answers are allowed is valid. -/
theorem wp_valid {p q : Prog E R α} (hr : Runs p tr q) (h : wp S p Q g) (ha : S.Allows tr g) :
    S.Valid tr g := by
  induction hr generalizing g with
  | nil p => trivial
  | cons _ ih => exact ⟨⟨h.1, ha.1⟩, ih (h.2 _ ha.1) ha.2⟩

theorem Spec.Valid.allows (h : S.Valid tr g) : S.Allows tr g := by
  induction tr generalizing g with
  | nil => trivial
  | cons ev tr ih => exact ⟨h.1.2, ih h.2⟩

theorem Spec.Valid.init {tr' : List (Event E R)} (h : S.Valid (tr ++ tr') g) : S.Valid tr g :=
  (Spec.valid_append.1 h).1

/-- **Counting.** When every step adds as much to one side as to the other, the two counts of a
history differ by what the ghost state holds. -/
theorem Spec.Valid.balance {M : Type} [AddCommMonoid M] {a b : Event E R → M} {f : G → M}
    {I : G → Prop} (h : S.Valid tr g) (h0 : I g)
    (hstep : ∀ g e r, I g → S.pre e g → S.env e g r →
      I (S.upd e r g) ∧ a ⟨e, r⟩ + f g = b ⟨e, r⟩ + f (S.upd e r g)) :
    total a tr + f g = total b tr + f (S.after tr g) := by
  induction tr generalizing g with
  | nil => simp
  | cons ev tr ih =>
    obtain ⟨hI, h1⟩ := hstep g ev.1 ev.2 h0 h.1.1 h.1.2
    have h2 := ih h.2 hI
    calc total a (ev :: tr) + f g = (a ev + f g) + total a tr := by rw [total_cons]; abel
      _ = b ev + (total a tr + f (S.upd ev.1 ev.2 g)) := by rw [h1]; abel
      _ = total b (ev :: tr) + f (S.after (ev :: tr) g) := by
        rw [h2, ← add_assoc, total_cons]; rfl

/-- Counting events. -/
theorem Spec.Valid.count {p q : Event E R → Bool} {f : G → Nat} {I : G → Prop} (h : S.Valid tr g)
    (h0 : I g)
    (hstep : ∀ g e r, I g → S.pre e g → S.env e g r → I (S.upd e r g) ∧
      (if p ⟨e, r⟩ then 1 else 0) + f g = (if q ⟨e, r⟩ then 1 else 0) + f (S.upd e r g)) :
    tr.countP p + f g = tr.countP q + f (S.after tr g) := by
  rw [countP_eq_total, countP_eq_total]
  exact h.balance h0 hstep

end

/-! ## Marked events -/

section
variable {A : E → Prop} [DecidablePred A] {P : E → List (Event E R) → Prop}

/-- The protocol that records the events on `A`, each allowed by those before it. -/
def marks (A : E → Prop) [DecidablePred A] (P : E → List (Event E R) → Prop) :
    Spec E R (List (Event E R)) where
  pre e h := A e → P e h
  env _ _ _ := True
  upd e r h := if A e then h ++ [⟨e, r⟩] else h

/-- The events of a history on `A`. -/
def marked (A : E → Prop) [DecidablePred A] (tr : List (Event E R)) : List (Event E R) :=
  tr.filter fun ev => A ev.1

@[simp] theorem marked_nil : marked A ([] : List (Event E R)) = [] := rfl

@[simp] theorem marked_append (tr tr' : List (Event E R)) :
    marked A (tr ++ tr') = marked A tr ++ marked A tr' := List.filter_append ..

theorem mem_marked {tr : List (Event E R)} {ev : Event E R} :
    ev ∈ marked A tr ↔ ev ∈ tr ∧ A ev.1 := by simp [marked]

/-- What concerns marked events only is found among these. -/
theorem filter_marked {p : Event E R → Bool} (hp : ∀ ev, p ev → A ev.1) (tr : List (Event E R)) :
    (marked A tr).filter p = tr.filter p := by
  rw [marked, List.filter_filter]
  apply List.filter_congr
  intro ev _
  rw [Bool.eq_iff_iff, Bool.and_eq_true, decide_eq_true_eq]
  exact ⟨fun h => h.1, fun h => ⟨h, hp ev h⟩⟩

theorem countP_marked {p : Event E R → Bool} (hp : ∀ ev, p ev → A ev.1) (tr : List (Event E R)) :
    (marked A tr).countP p = tr.countP p := by
  rw [List.countP_eq_length_filter, List.countP_eq_length_filter, filter_marked hp]

theorem total_marked {M : Type} [AddCommMonoid M] {f : Event E R → M} (hf : ∀ ev, ¬A ev.1 → f ev = 0)
    (tr : List (Event E R)) : total f (marked A tr) = total f tr := by
  induction tr with
  | nil => rfl
  | cons ev tr ih =>
    rw [total_cons, ← ih]
    by_cases hA : A ev.1
    · rw [show marked A (ev :: tr) = ev :: marked A tr by simp [marked, hA], total_cons]
    · rw [show marked A (ev :: tr) = marked A tr by simp [marked, hA], hf ev hA, zero_add]

theorem marks_allows (tr h : List (Event E R)) : (marks A P).Allows tr h := by
  induction tr generalizing h with
  | nil => trivial
  | cons ev tr ih => exact ⟨trivial, ih _⟩

theorem marks_after (tr h : List (Event E R)) : (marks A P).after tr h = h ++ marked A tr := by
  induction tr generalizing h with
  | nil => simp
  | cons ev tr ih =>
    show (marks A P).after tr (if A ev.1 then h ++ [⟨ev.1, ev.2⟩] else h) = _
    rw [ih]
    by_cases hA : A ev.1 <;> simp [marked, hA]

/-- A marked operation is recorded with its answer. -/
theorem wp_marked {e : E} (he : A e) {Q : R e → List (Event E R) → Prop} {h : List (Event E R)} :
    wp (marks A P) (Prog.perform e) Q h ↔ P e h ∧ ∀ r, Q r (h ++ [⟨e, r⟩]) := by
  simp [marks, he]

/-- A program with no operation in `A` records nothing. -/
theorem wp_unmarked {p : Prog E R α} {Q : α → List (Event E R) → Prop} {h : List (Event E R)}
    (hp : Uses (fun e => ¬A e) p) (hQ : ∀ a, Q a h) : wp (marks A P) p Q h := by
  induction p with
  | ret a => exact hQ a
  | op e k ih =>
    refine ⟨fun hA => absurd hA hp.1, fun r _ => ?_⟩
    have hupd : (marks A P).upd e r h = h := if_neg hp.1
    rw [hupd]
    exact ih r (hp.2 r)

/-- A run's marked events, read off a `wp` that starts without any. -/
theorem marks_runs {p q : Prog E R α} {tr : List (Event E R)} {Q : α → List (Event E R) → Prop}
    (hr : Runs p tr q) (h : wp (marks A P) p Q []) : wp (marks A P) q Q (marked A tr) := by
  have := wp_runs hr h (marks_allows tr [])
  rwa [marks_after, List.nil_append] at this

/-- A marked event of a run is allowed by the marked events before it. -/
theorem marks_allowed {p q : Prog E R α} {tr tr' : List (Event E R)} {ev : Event E R}
    {Q : α → List (Event E R) → Prop} (hr : Runs p (tr ++ ev :: tr') q)
    (h : wp (marks A P) p Q []) (hev : A ev.1) : P ev.1 (marked A tr) := by
  have := (wp_valid hr h (marks_allows _ [])).pre
  rw [marks_after, List.nil_append] at this
  exact this hev

end

/-! ## Recorded events -/

/-- `marks` whose answers may be relied on as far as the events recorded before allow (`N`). -/
def logs (A : E → Prop) [DecidablePred A] (P : E → List (Event E R) → Prop)
    (N : (e : E) → List (Event E R) → R e → Prop) : Spec E R (List (Event E R)) where
  pre e h := A e → P e h
  env e h r := N e h r
  upd e r h := if A e then h ++ [⟨e, r⟩] else h

section
variable {A : E → Prop} [DecidablePred A] {P : E → List (Event E R) → Prop}
  {N : (e : E) → List (Event E R) → R e → Prop} {h : List (Event E R)}

theorem logs_after (tr h : List (Event E R)) : (logs A P N).after tr h = h ++ marked A tr :=
  marks_after (P := P) tr h

/-- A recorded operation. -/
theorem wp_recorded {e : E} (he : A e) {Q : R e → List (Event E R) → Prop} :
    wp (logs A P N) (Prog.perform e) Q h ↔ P e h ∧ ∀ r, N e h r → Q r (h ++ [⟨e, r⟩]) := by
  simp [logs, he]

/-- An operation that is not recorded. -/
theorem wp_passed {e : E} (he : ¬A e) {Q : R e → List (Event E R) → Prop} :
    wp (logs A P N) (Prog.perform e) Q h ↔ ∀ r, N e h r → Q r h := by
  simp [logs, he]

/-- A program of which no operation is recorded. -/
theorem wp_unrecorded {p : Prog E R α} {Q : α → List (Event E R) → Prop}
    (hp : Uses (fun e => ¬A e) p) (hQ : ∀ a, Q a h) : wp (logs A P N) p Q h := by
  induction p with
  | ret a => exact hQ a
  | op e k ih =>
    refine ⟨fun hA => absurd hA hp.1, fun r _ => ?_⟩
    have hupd : (logs A P N).upd e r h = h := if_neg hp.1
    rw [hupd]
    exact ih r (hp.2 r)

/-- A recorded event of a run is allowed by the events recorded before it. -/
theorem logs_allowed {p q : Prog E R α} {tr tr' : List (Event E R)} {ev : Event E R}
    {Q : α → List (Event E R) → Prop} (hr : Runs p (tr ++ ev :: tr') q)
    (h : wp (logs A P N) p Q []) (ha : (logs A P N).Allows (tr ++ ev :: tr') []) (hev : A ev.1) :
    P ev.1 (marked A tr) := by
  have := (wp_valid hr h ha).pre
  rw [logs_after, List.nil_append] at this
  exact this hev

end

/-- The answers of a history that keeps one protocol are answers that another one allows, when what
the two know follows step by step. -/
theorem Spec.Valid.allowed {H : Type} {S : Spec E R G} {T : Spec E R H} {I : G → H → Prop}
    {tr : List (Event E R)} {g : G} {h : H} (hv : S.Valid tr g) (h0 : I g h)
    (hstep : ∀ g h e r, I g h → S.pre e g → S.env e g r →
      T.env e h r ∧ I (S.upd e r g) (T.upd e r h)) : T.Allows tr h := by
  induction tr generalizing g h with
  | nil => trivial
  | cons ev tr ih =>
    obtain ⟨henv, hI⟩ := hstep g h ev.1 ev.2 h0 hv.1.1 hv.1.2
    exact ⟨henv, ih hv.2 hI⟩

/-- The same, for a history whose answers are also in `K`. -/
theorem Spec.Valid.allowed_in {H : Type} {S : Spec E R G} {T : Spec E R H} {I : G → H → Prop}
    {K : Event E R → Prop} {tr : List (Event E R)} {g : G} {h : H} (hv : S.Valid tr g)
    (hK : ∀ ev ∈ tr, K ev) (h0 : I g h)
    (hstep : ∀ g h e r, I g h → S.pre e g → S.env e g r → K ⟨e, r⟩ →
      T.env e h r ∧ I (S.upd e r g) (T.upd e r h)) : T.Allows tr h := by
  induction tr generalizing g h with
  | nil => trivial
  | cons ev tr ih =>
    obtain ⟨henv, hI⟩ := hstep g h ev.1 ev.2 h0 hv.1.1 hv.1.2 (hK ev List.mem_cons_self)
    exact ⟨henv, ih hv.2 (fun ev' hev => hK ev' (List.mem_cons_of_mem _ hev)) hI⟩

end Effect
