import Onnxcraft.Effect.Interleave

/-!
# Linearizability

An `Atomic` object is a sequential specification: a state, and atomic operations that carry their
outcomes. `Linearizes`: the calls of an execution take effect as operations of the object, one
after the other, each in one of the steps of its own thread, and return what their operation says.
As the point of a call lies between its start and its return, this order respects real time.

`Commits` is the rule for fixed points: a ghost state per thread says which operation the call has
performed, every step of a thread performs one or leaves the object alone, and what a call returns
follows from its `wp`.
-/

namespace Effect

variable {W C V E : Type} {R : E → Type} {α G A O : Type}

/-- What each atomic operation does to the state (`none`: it is not possible now). -/
structure Atomic (A O : Type) where
  init : A
  step : O → A → Option A

namespace Atomic

/-- The state after the operations, one after the other. -/
def run (T : Atomic A O) : List O → A → Option A
  | [], a => some a
  | o :: os, a => (T.step o a).bind (T.run os)

/-- The state after the operations from the start. -/
def after (T : Atomic A O) (os : List O) : Option A := T.run os T.init

section
variable {T : Atomic A O} {os os' : List O} {o : O} {a b : A} {I : A → Prop}

theorem run_append (a : A) : T.run (os ++ os') a = (T.run os a).bind (T.run os') := by
  induction os generalizing a with
  | nil => rfl
  | cons o os ih =>
    rw [List.cons_append, run, run, Option.bind_assoc]
    exact congrArg _ (funext ih)

theorem after_snoc (h : T.after os = some a) : T.after (os ++ [o]) = T.step o a := by
  rw [after, run_append, show T.run os T.init = some a from h]
  simp [run]

/-- The state between two stretches of operations. -/
theorem after_append (h : T.after (os ++ os') = some b) :
    ∃ a, T.after os = some a ∧ T.run os' a = some b := by
  rw [after, run_append] at h
  exact Option.bind_eq_some_iff.1 h

/-- What every operation keeps holds at each of them. -/
theorem run_kept (hstep : ∀ o a b, T.step o a = some b → I a → I b) (h : T.run os a = some b)
    (ha : I a) : I b ∧ ∀ o ∈ os, ∃ x y, T.step o x = some y ∧ I x := by
  induction os generalizing a with
  | nil =>
    obtain rfl := Option.some.inj h
    exact ⟨ha, by simp⟩
  | cons o os ih =>
    obtain ⟨a', ho, h⟩ := Option.bind_eq_some_iff.1 h
    obtain ⟨hb, hmem⟩ := ih h (hstep o a a' ho ha)
    refine ⟨hb, fun o' ho' => ?_⟩
    rcases List.mem_cons.1 ho' with rfl | ho'
    · exact ⟨a, a', ho, ha⟩
    · exact hmem o' ho'

/-- What holds in the end and not at the start one of the operations has brought about. -/
theorem run_origin (h : T.run os a = some b) (ha : ¬I a) (hb : I b) :
    ∃ o ∈ os, ∃ x y, T.step o x = some y ∧ ¬I x ∧ I y := by
  induction os generalizing a with
  | nil =>
    obtain rfl := Option.some.inj h
    exact absurd hb ha
  | cons o os ih =>
    obtain ⟨a', ho, h⟩ := Option.bind_eq_some_iff.1 h
    by_cases ha' : I a'
    · exact ⟨o, List.mem_cons_self, a, a', ho, ha, ha'⟩
    · obtain ⟨o', ho', hstep⟩ := ih h ha'
      exact ⟨o', List.mem_cons_of_mem o ho', hstep⟩

/-- What an operation brings about and every operation keeps holds in the end. -/
theorem after_holds (hstep : ∀ o a b, T.step o a = some b → I a → I b)
    (ho : ∀ a b, T.step o a = some b → I b) (h : T.after os = some b) (hmem : o ∈ os) : I b := by
  obtain ⟨os₁, os₂, rfl⟩ := List.append_of_mem hmem
  obtain ⟨a₁, -, h⟩ := after_append h
  obtain ⟨a₂, hdid, h⟩ := Option.bind_eq_some_iff.1 h
  exact (run_kept hstep h (ho a₁ a₂ hdid)).1

/-- It holds at each later operation. -/
theorem after_since (hstep : ∀ o a b, T.step o a = some b → I a → I b)
    (ho : ∀ a b, T.step o a = some b → I b) (h : T.after (os ++ os') = some b) (hmem : o ∈ os) :
    ∀ o' ∈ os', ∃ x y, T.step o' x = some y ∧ I x := by
  obtain ⟨a, h₁, h₂⟩ := after_append h
  exact (run_kept hstep h₂ (after_holds hstep ho h₁ hmem)).2

/-- What does not hold at the start, and does when `o` is performed, was brought about before. -/
theorem after_before (hinit : ¬I T.init) (ho : ∀ a b, T.step o a = some b → I a)
    (h : T.after os = some b) (hmem : o ∈ os) :
    ∃ o' ∈ os, ∃ x y, T.step o' x = some y ∧ ¬I x ∧ I y := by
  obtain ⟨os₁, os₂, rfl⟩ := List.append_of_mem hmem
  obtain ⟨a, h₁, h₂⟩ := after_append h
  obtain ⟨a', hdid, -⟩ := Option.bind_eq_some_iff.1 h₂
  obtain ⟨o', ho', hbrought⟩ := run_origin h₁ hinit (ho a a' hdid)
  exact ⟨o', List.mem_append_left _ ho', hbrought⟩

end

end Atomic

/-- An execution of `S`: the steps taken from the start, and the state reached. -/
inductive System.Execution (S : System W C V E R α) :
    List (Label C V E R) → State W C E R α → Prop
  | init : Execution S [] ⟨S.init, []⟩
  | step {ls : List (Label C V E R)} {σ σ' : State W C E R α} {l : Label C V E R} :
      Execution S ls σ → S.Step σ l σ' → Execution S (ls ++ [l]) σ'

theorem System.Execution.reachable {S : System W C V E R α} {ls : List (Label C V E R)}
    {σ : State W C E R α} (h : S.Execution ls σ) : S.Reachable σ := by
  induction h with
  | init => exact .init
  | step _ hs ih => exact .step ih hs

theorem System.Reachable.execution {S : System W C V E R α} {σ : State W C E R α}
    (h : S.Reachable σ) : ∃ ls, S.Execution ls σ := by
  induction h with
  | init => exact ⟨[], .init⟩
  | step _ hs ih =>
    obtain ⟨ls, hx⟩ := ih
    exact ⟨_, .step hx hs⟩

section
variable {S : System W C V E R α} {ls ls₁ ls₂ : List (Label C V E R)} {l : Label C V E R}
  {σ σ₁ σ₂ : State W C E R α}

theorem System.Execution.snoc_inv (h : S.Execution (ls ++ [l]) σ) :
    ∃ σ', S.Execution ls σ' ∧ S.Step σ' l σ := by
  generalize hls : ls ++ [l] = ls' at h
  cases h with
  | init => simp at hls
  | step hx hs =>
    obtain ⟨rfl, hl⟩ := List.append_inj' hls rfl
    obtain rfl := List.singleton_inj.1 hl
    exact ⟨_, hx, hs⟩

/-- A label says which step is taken. -/
theorem System.Step.unique (h₁ : S.Step σ l σ₁) (h₂ : S.Step σ l σ₂) : σ₁ = σ₂ := by
  cases h₁ with
  | act ht hk ha =>
    cases h₂ with
    | act ht' hk' ha' =>
      rw [ht, Option.some.injEq] at ht'
      subst ht'
      rw [hk] at hk'
      cases hk'
      rw [ha, Option.some.injEq] at ha'
      rw [ha']
  | start hs =>
    cases h₂ with
    | start hs' =>
      rw [hs, Option.some.injEq] at hs'
      rw [hs']
  | move hm =>
    cases h₂ with
    | move hm' =>
      rw [hm, Option.some.injEq] at hm'
      rw [hm']

theorem System.Execution.unique (h₁ : S.Execution ls σ₁) (h₂ : S.Execution ls σ₂) : σ₁ = σ₂ := by
  induction ls using List.reverseRecOn generalizing σ₁ σ₂ with
  | nil =>
    have hinit : ∀ {σ : State W C E R α}, S.Execution [] σ → σ = ⟨S.init, []⟩ := by
      intro σ h
      generalize hls : ([] : List (Label C V E R)) = ls at h
      cases h with
      | init => rfl
      | step => simp at hls
    rw [hinit h₁, hinit h₂]
  | append_singleton ls l ih =>
    obtain ⟨σ₁', hx₁, hs₁⟩ := h₁.snoc_inv
    obtain ⟨σ₂', hx₂, hs₂⟩ := h₂.snoc_inv
    obtain rfl := ih hx₁ hx₂
    exact hs₁.unique hs₂

/-- A thread steps when it has been started. -/
theorem System.Execution.started (h : S.Execution ls σ) {i : Nat} {ev : Event E R}
    (hl : .act i ev ∈ ls) : i < σ.threads.length := by
  induction h with
  | init => cases hl
  | step hx hs ih =>
    rcases List.mem_append.1 hl with hl | hl
    · have hlt := ih hl
      cases hs with
      | act => simpa using hlt
      | start =>
        rw [List.length_append]
        omega
      | move => exact hlt
    · obtain rfl := List.mem_singleton.1 hl
      cases hs with
      | act ht hk ha => simpa using (List.getElem?_eq_some_iff.1 ht).1

/-- A thread that has returned takes no further step. -/
theorem System.Execution.stopped (h : S.Execution (ls₁ ++ ls₂) σ) (h₁ : S.Execution ls₁ σ₁) {i : Nat}
    {t : Thread C E R α} {a : α} (ht : σ₁.threads[i]? = some t) (hret : t.rest = .ret a) :
    σ.threads[i]? = some t ∧ ∀ ev, .act i ev ∉ ls₂ := by
  induction ls₂ using List.reverseRecOn generalizing σ with
  | nil =>
    rw [List.append_nil] at h
    rw [h.unique h₁]
    exact ⟨ht, by simp⟩
  | append_singleton ls₂ l ih =>
    rw [← List.append_assoc] at h
    obtain ⟨σ', hx, hs⟩ := h.snoc_inv
    obtain ⟨ht', hno⟩ := ih hx
    have hne : (∀ ev, l ≠ .act i ev) ∧ σ.threads[i]? = some t := by
      cases hs with
      | @act j u e k r w' hu hk ha =>
        have hij : j ≠ i := by
          rintro rfl
          rw [hu, Option.some.injEq] at ht'
          rw [ht', hret] at hk
          cases hk
        exact ⟨fun ev hev => hij (Label.act.inj hev).1, (List.getElem?_set_ne hij).trans ht'⟩
      | start =>
        exact ⟨fun ev hev => (by cases hev),
          (List.getElem?_append_left (List.getElem?_eq_some_iff.1 ht').1).trans ht'⟩
      | move => exact ⟨fun ev hev => (by cases hev), ht'⟩
    refine ⟨hne.2, fun ev hev => ?_⟩
    rcases List.mem_append.1 hev with hev | hev
    · exact hno ev hev
    · exact hne.1 ev (List.mem_singleton.1 hev).symm

end

/-- Thread `thread` takes effect as `op`, in its step `event`. -/
structure Commit (E : Type) (R : E → Type) (O : Type) where
  thread : Nat
  event : Event E R
  op : O

/-- The step in which a call takes effect. -/
def Commit.label (c : Commit E R O) : Label C V E R := .act c.thread c.event

section
variable (T : Atomic A O) (abs : W → A) (means : C → α → O → Prop) (idle : C → α → Prop)

/-- The execution `ls` to `σ` has taken effect as `cs`. `means c a o`: the call `c` may return `a`
when it has performed `o`; `idle c a`: it may return `a` without an effect. -/
structure Linearizes (ls : List (Label C V E R)) (σ : State W C E R α) (cs : List (Commit E R O)) :
    Prop where
  steps : (cs.map Commit.label).Sublist ls
  once : (cs.map Commit.thread).Nodup
  legal : T.after (cs.map Commit.op) = some (abs σ.world)
  pending : ∀ c ∈ cs, ∃ t, σ.threads[c.thread]? = some t ∧ ∃ a, means t.call a c.op
  returned : ∀ i t a, σ.threads[i]? = some t → t.rest = .ret a →
    (∃ c ∈ cs, c.thread = i ∧ means t.call a c.op) ∨ idle t.call a ∧ i ∉ cs.map Commit.thread

/-- A call that has returned before another one starts takes effect before it. -/
def InTime (S : System W C V E R α) (ls : List (Label C V E R)) (cs : List (Commit E R O)) : Prop :=
  ∀ ls₁ ls₂ σ₁, ls = ls₁ ++ ls₂ → S.Execution ls₁ σ₁ →
    ∃ cs₁ cs₂, cs = cs₁ ++ cs₂ ∧
      (∀ c ∈ cs, ∀ t a, σ₁.threads[c.thread]? = some t → t.rest = .ret a → c ∈ cs₁) ∧
      ∀ c ∈ cs, σ₁.threads.length ≤ c.thread → c ∈ cs₂

/-- What a call may return once it has performed `o`. -/
def Settles (c : C) (a : α) : Option O → Prop
  | some o => means c a o
  | none => idle c a

/-- **Fixed linearization points.** `op` reads off a thread's ghost state what it has performed. -/
structure Commits (S : System W C V E R α) (P : C → Spec E R G) (g0 : C → G) (op : G → Option O) :
    Prop where
  init : abs S.init = T.init
  fresh : ∀ c, op (g0 c) = none
  prog : ∀ c, wp (P c) (S.prog c) (fun a g => Settles means idle c a (op g)) (g0 c)
  act : ∀ {σ : State W C E R α} {i : Nat} {t : Thread C E R α} {e : E} {k : R e → Prog E R α}
    {r : R e} {w' : W} {g : G}, S.Reachable σ → σ.threads[i]? = some t → t.rest = .op e k →
    S.act e r σ.world = some w' → g = t.ghost (P t.call) g0 → (P t.call).pre e g →
    (P t.call).env e g r ∧ (op ((P t.call).upd e r g) = op g ∧ abs w' = abs σ.world ∨
      op g = none ∧ ∃ o a, op ((P t.call).upd e r g) = some o ∧
        T.step o (abs σ.world) = some (abs w') ∧ means t.call a o)
  start : ∀ {w c w'}, S.start c w = some w' → abs w' = abs w
  move : ∀ {w v w'}, S.move v w = some w' → abs w' = abs w

end

section
variable {T : Atomic A O} {abs : W → A} {means : C → α → O → Prop} {idle : C → α → Prop}
  {S : System W C V E R α} {P : C → Spec E R G} {g0 : C → G} {op : G → Option O}

/-- The invariant of the rule: the commits are those that the threads' ghost states tell. -/
structure Linearizing (T : Atomic A O) (abs : W → A) (means : C → α → O → Prop)
    (idle : C → α → Prop) (P : C → Spec E R G) (g0 : C → G) (op : G → Option O)
    (ls : List (Label C V E R)) (σ : State W C E R α) (cs : List (Commit E R O)) : Prop where
  steps : (cs.map Commit.label).Sublist ls
  once : (cs.map Commit.thread).Nodup
  legal : T.after (cs.map Commit.op) = some (abs σ.world)
  pending : ∀ c ∈ cs, ∃ t, σ.threads[c.thread]? = some t ∧ ∃ a, means t.call a c.op
  wp : ∀ t ∈ σ.threads,
    wp (P t.call) t.rest (fun a g => Settles means idle t.call a (op g)) (t.ghost (P t.call) g0)
  told : ∀ i t o, σ.threads[i]? = some t →
    (op (t.ghost (P t.call) g0) = some o ↔ ∃ c ∈ cs, c.thread = i ∧ c.op = o)

variable {ls : List (Label C V E R)} {σ : State W C E R α} {cs : List (Commit E R O)}

theorem Linearizing.linearizes (h : Linearizing T abs means idle P g0 op ls σ cs) :
    Linearizes T abs means idle ls σ cs := by
  refine ⟨h.steps, h.once, h.legal, h.pending, ?_⟩
  intro i t a ht hret
  have hwp := h.wp t (List.mem_of_getElem? ht)
  rw [hret, wp_ret] at hwp
  cases hop : op (t.ghost (P t.call) g0) with
  | some o =>
    rw [hop] at hwp
    obtain ⟨c, hc, hi, rfl⟩ := (h.told i t o ht).1 hop
    exact .inl ⟨c, hc, hi, hwp⟩
  | none =>
    rw [hop] at hwp
    refine .inr ⟨hwp, fun hi => ?_⟩
    obtain ⟨c, hc, hci⟩ := List.mem_map.1 hi
    have hsome := (h.told i t c.op ht).2 ⟨c, hc, hci, rfl⟩
    rw [hop] at hsome
    cases hsome

/-- The order of the effects respects real time. -/
theorem Linearizes.in_time (h : Linearizes T abs means idle ls σ cs) (hx : S.Execution ls σ) :
    InTime S ls cs := by
  intro ls₁ ls₂ σ₁ hls hx₁
  subst hls
  obtain ⟨l₁, l₂, hl, h₁, h₂⟩ := List.sublist_append_iff.1 h.steps
  obtain ⟨cs₁, cs₂, rfl, rfl, rfl⟩ := List.map_eq_append_iff.1 hl
  refine ⟨cs₁, cs₂, rfl, ?_, ?_⟩
  · intro c hc t a ht hret
    rcases List.mem_append.1 hc with hc | hc
    · exact hc
    · exact absurd (h₂.subset (List.mem_map_of_mem hc)) ((hx.stopped hx₁ ht hret).2 c.event)
  · intro c hc hlen
    rcases List.mem_append.1 hc with hc | hc
    · have hlt := hx₁.started (h₁.subset (List.mem_map_of_mem hc))
      omega
    · exact hc

/-- The threads after a step of thread `i`. -/
theorem pending_set {i : Nat} {t t' : Thread C E R α} {w' : W} (ht : σ.threads[i]? = some t)
    (hcall : t'.call = t.call) {c : Commit E R O}
    (h : ∃ u, σ.threads[c.thread]? = some u ∧ ∃ a, means u.call a c.op) :
    ∃ u, (⟨w', σ.threads.set i t'⟩ : State W C E R α).threads[c.thread]? = some u ∧
      ∃ a, means u.call a c.op := by
  obtain ⟨u, hu, ha⟩ := h
  by_cases hi : i = c.thread
  · subst hi
    obtain rfl : t = u := by rw [ht, Option.some.injEq] at hu; exact hu
    exact ⟨t', List.getElem?_set_self (List.getElem?_eq_some_iff.1 ht).1, hcall ▸ ha⟩
  · exact ⟨u, (List.getElem?_set_ne hi).trans hu, ha⟩

theorem Commits.act_step (h : Commits T abs means idle S P g0 op) (hr : S.Reachable σ)
    (hl : Linearizing T abs means idle P g0 op ls σ cs) {i : Nat} {t : Thread C E R α} {e : E}
    {k : R e → Prog E R α} {r : R e} {w' : W} (ht : σ.threads[i]? = some t) (hk : t.rest = .op e k)
    (ha : S.act e r σ.world = some w') :
    ∃ cs', Linearizing T abs means idle P g0 op (ls ++ [.act i ⟨e, r⟩])
      ⟨w', σ.threads.set i (t.next k r)⟩ cs' := by
  have hlt := (List.getElem?_eq_some_iff.1 ht).1
  have hwp := hl.wp t (List.mem_of_getElem? ht)
  rw [hk, wp_op] at hwp
  obtain ⟨henv, hdid⟩ := h.act hr ht hk ha rfl hwp.1
  have hghost : (t.next k r).ghost (P (t.next k r).call) g0 =
      (P t.call).upd e r (t.ghost (P t.call) g0) := t.ghost_next (P t.call) g0 k r
  have hwp' : ∀ u ∈ σ.threads.set i (t.next k r),
      Effect.wp (P u.call) u.rest (fun a g => Settles means idle u.call a (op g))
        (u.ghost (P u.call) g0) := by
    intro u hu
    rcases mem_set_cases hu with rfl | hu
    · rw [hghost]
      exact hwp.2 r henv
    · exact hl.wp u hu
  rcases hdid with ⟨hop, habs⟩ | ⟨hnone, o, a, hop, hstep, hmeans⟩
  · -- the step leaves the object alone
    refine ⟨cs, hl.steps.trans (List.sublist_append_left ..), hl.once, ?_,
      fun c hc => pending_set ht (t.next_call k r) (hl.pending c hc), hwp', ?_⟩
    · rw [hl.legal]
      exact congrArg some habs.symm
    · intro j u o hu
      by_cases hj : i = j
      · subst hj
        obtain rfl : t.next k r = u := by simpa [hlt] using hu
        rw [hghost, hop]
        exact hl.told i t o ht
      · exact hl.told j u o ((List.getElem?_set_ne hj).symm.trans hu)
  · -- the call takes effect
    have hfree : ∀ c ∈ cs, c.thread ≠ i := by
      intro c hc hi
      have := (hl.told i t c.op ht).2 ⟨c, hc, hi, rfl⟩
      rw [hnone] at this
      cases this
    refine ⟨cs ++ [⟨i, ⟨e, r⟩, o⟩], ?_, ?_, ?_, ?_, hwp', ?_⟩
    · rw [List.map_append]
      exact hl.steps.append (List.Sublist.refl _)
    · rw [List.map_append]
      refine List.nodup_append.2 ⟨hl.once, by simp, ?_⟩
      intro x hx y hy
      obtain ⟨c, hc, rfl⟩ := List.mem_map.1 hx
      obtain rfl : y = i := by simpa using hy
      exact hfree c hc
    · rw [List.map_append]
      exact (Atomic.after_snoc hl.legal).trans hstep
    · intro c hc
      rcases List.mem_append.1 hc with hc | hc
      · exact pending_set ht (t.next_call k r) (hl.pending c hc)
      · obtain rfl := List.mem_singleton.1 hc
        exact ⟨t.next k r, List.getElem?_set_self hlt, a, hmeans⟩
    · intro j u o' hu
      by_cases hj : i = j
      · subst hj
        obtain rfl : t.next k r = u := by simpa [hlt] using hu
        rw [hghost, hop, Option.some.injEq]
        constructor
        · rintro rfl
          exact ⟨_, List.mem_append_right _ (List.mem_singleton_self _), rfl, rfl⟩
        · rintro ⟨c, hc, hi, rfl⟩
          rcases List.mem_append.1 hc with hc | hc
          · exact absurd hi (hfree c hc)
          · rw [List.mem_singleton.1 hc]
      · rw [hl.told j u o' ((List.getElem?_set_ne hj).symm.trans hu)]
        constructor
        · rintro ⟨c, hc, hcj, hco⟩
          exact ⟨c, List.mem_append_left _ hc, hcj, hco⟩
        · rintro ⟨c, hc, hcj, hco⟩
          rcases List.mem_append.1 hc with hc | hc
          · exact ⟨c, hc, hcj, hco⟩
          · rw [List.mem_singleton.1 hc] at hcj
            exact absurd hcj hj

theorem Commits.start_step (h : Commits T abs means idle S P g0 op)
    (hl : Linearizing T abs means idle P g0 op ls σ cs) {c : C} {w' : W}
    (hs : S.start c σ.world = some w') :
    Linearizing T abs means idle P g0 op (ls ++ [.start c])
      ⟨w', σ.threads ++ [⟨c, S.prog c, []⟩]⟩ cs := by
  have hlt : ∀ c ∈ cs, c.thread < σ.threads.length := by
    intro c hc
    obtain ⟨t, ht, -⟩ := hl.pending c hc
    exact (List.getElem?_eq_some_iff.1 ht).1
  refine ⟨hl.steps.trans (List.sublist_append_left ..), hl.once, ?_, ?_, ?_, ?_⟩
  · rw [hl.legal]
    exact congrArg some (h.start hs).symm
  · intro c' hc'
    obtain ⟨t, ht, ha⟩ := hl.pending c' hc'
    exact ⟨t, (List.getElem?_append_left (hlt c' hc')).trans ht, ha⟩
  · intro t ht
    rcases List.mem_append.1 ht with ht | ht
    · exact hl.wp t ht
    · rw [List.mem_singleton.1 ht]
      exact h.prog c
  · intro i t o ht
    by_cases hi : i < σ.threads.length
    · exact hl.told i t o ((List.getElem?_append_left hi).symm.trans ht)
    · have hti := List.mem_of_getElem? ((List.getElem?_append_right (Nat.le_of_not_lt hi)).symm.trans ht)
      rw [List.mem_singleton.1 hti]
      constructor
      · intro hop
        have hfresh : op (g0 c) = some o := hop
        rw [h.fresh c] at hfresh
        cases hfresh
      · rintro ⟨c', hc', rfl, -⟩
        exact absurd (hlt c' hc') hi

/-- **The rule.** -/
theorem Commits.linearizes (h : Commits T abs means idle S P g0 op) (hx : S.Execution ls σ) :
    ∃ cs, Linearizes T abs means idle ls σ cs ∧ InTime S ls cs := by
  suffices hl : ∃ cs, Linearizing T abs means idle P g0 op ls σ cs by
    obtain ⟨cs, hl⟩ := hl
    exact ⟨cs, hl.linearizes, hl.linearizes.in_time hx⟩
  induction hx with
  | init =>
    refine ⟨[], by simp, by simp, ?_, by simp, by simp, by simp⟩
    exact congrArg some h.init.symm
  | step hx hs ih =>
    obtain ⟨cs, hl⟩ := ih
    cases hs with
    | act ht hk ha => exact h.act_step hx.reachable hl ht hk ha
    | start hs => exact ⟨cs, h.start_step hl hs⟩
    | move hm =>
      refine ⟨cs, hl.steps.trans (List.sublist_append_left ..), hl.once, ?_, hl.pending, hl.wp,
        hl.told⟩
      rw [hl.legal]
      exact congrArg some (h.move hm).symm

end

end Effect
