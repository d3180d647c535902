import Onnxcraft.Protocol.Steps
import Onnxcraft.Protocol.Uses

/-!
# Waiting

Six operations may wait. `Op.rank` orders them so that the holder of what a call waits for can
itself wait only for something of a lower rank: some call can always go on (`deadlock_free`). A run
whose context is done waits in one place only, at its session's read lock while a writer is pending
or inside (`enabled_unless_locked`), and never where no writer gets in its way
(`run_cancelable`).
-/

namespace Onnxcraft

open Effect

section
variable [Platform] {w : World} {gs : List Held} {σ : Global} {t : Goroutine} {i : Nat}

/-! ## Deadlock freedom -/

/-- The order in which the operations that may wait are waited for. -/
def Op.rank : Op → Nat
  | .cb (.recvDone _) => 1
  | .sess _ (.gateSelect _) => 2
  | .sess _ .lockWait => 3
  | .rt _ .lock => 4
  | .sess _ .rLock | .sess _ .lock => 5
  | _ => 0

/-- A callback never waits. -/
theorem Inv.fire_proceeds (hi : Inv w gs) {g : Held} (hg : g ∈ gs) {id : Nat}
    (hfire : g.fire = some id) {e : Op} (hp : e.Pre g) : ¬w.Waits e := by
  intro hw
  obtain ⟨r, o, hcall⟩ := (hi.wf g hg).fire id hfire
  cases e with
  | sess s o =>
    have hs := hp.2.1
    rw [hcall] at hs
    exact nomatch hs
  | rt r' o =>
    cases o with
    | lock =>
      have hr := hp.2.2.1
      rw [hcall] at hr
      exact nomatch hr
    | _ => exact hw.elim
  | cb o =>
    cases o with
    | recvDone id' =>
      have hread := (hi.wf g hg).watch (by rw [hp.2.1]; rfl)
      obtain ⟨s, hs⟩ := Option.isSome_iff_exists.1 hread
      have := (hi.wf g hg).read s hs
      rw [hcall] at this
      exact nomatch this
    | _ => exact hw.elim
  | _ => exact hw.elim

/-! What a call waits for is of a lower rank than what it holds. -/

theorem rank_of_read {g : Held} {s : Nat} (h : g.read = some s) {e : Op} (hp : e.Pre g) :
    e.rank ≤ 2 := by
  have hno : g.read ≠ none := by simp [h]
  cases e with
  | sess s' o =>
    obtain ⟨-, -, hp⟩ := hp
    cases o with
    | rLock => exact absurd hp.1 hno
    | lock => exact absurd hp.2.2.2.1 hno
    | lockWait => exact absurd hp.2 hno
    | _ =>
      unfold Op.rank
      simp
  | rt r o =>
    cases o with
    | lock => exact absurd hp.2.2.2 hno
    | _ =>
      unfold Op.rank
      simp
  | cb o => cases o <;> unfold Op.rank <;> simp
  | _ =>
    unfold Op.rank
    simp

theorem rank_of_gate {g : Held} {s : Nat} (hwf : g.Wf) (h : g.gate = some s) {e : Op}
    (hp : e.Pre g) : e.rank ≤ 1 := by
  have hle := rank_of_read (hwf.gate s h) hp
  cases e with
  | sess s' o =>
    cases o with
    | gateSelect c =>
      have hfree : g.gate = none := hp.2.2.2.2.2
      rw [hfree] at h
      exact nomatch h
    | rLock | lock | lockWait => exact absurd hle (by unfold Op.rank; simp)
    | _ =>
      unfold Op.rank
      simp
  | rt r o =>
    cases o with
    | lock => exact absurd hle (by unfold Op.rank; simp)
    | _ =>
      unfold Op.rank
      simp
  | cb o => cases o <;> unfold Op.rank <;> simp
  | _ =>
    unfold Op.rank
    simp

theorem rank_of_mu {g : Held} {r : Nat} (h : g.mu = some r) {e : Op} (hp : e.Pre g) :
    e.rank ≤ 3 := by
  have hno : g.mu ≠ none := by simp [h]
  cases e with
  | sess s' o =>
    obtain ⟨-, -, hp⟩ := hp
    cases o with
    | rLock => exact absurd hp.2.2.2 hno
    | lock => exact absurd hp.2.2.2.2 hno
    | _ =>
      unfold Op.rank
      simp
  | rt r o =>
    cases o with
    | lock => exact absurd hp.2.1 hno
    | _ =>
      unfold Op.rank
      simp
  | cb o => cases o <;> unfold Op.rank <;> simp
  | _ =>
    unfold Op.rank
    simp

theorem rank_of_writer {g : Held} {s : Nat} (h : g.pend = some s ∨ g.excl = some s) {e : Op}
    (hp : e.Pre g) : e.rank ≤ 4 := by
  have hno : ¬(g.pend = none ∧ g.excl = none) := by
    rintro ⟨hpend, hexcl⟩
    rw [hpend, hexcl] at h
    exact h.elim nofun nofun
  cases e with
  | sess s' o =>
    obtain ⟨-, -, hp⟩ := hp
    cases o with
    | rLock => exact absurd ⟨hp.2.1, hp.2.2.1⟩ hno
    | lock => exact absurd ⟨hp.1, hp.2.1⟩ hno
    | _ =>
      unfold Op.rank
      simp
  | rt r o => cases o <;> unfold Op.rank <;> simp
  | cb o => cases o <;> unfold Op.rank <;> simp
  | _ =>
    unfold Op.rank
    simp

/-- A writer that keeps the session's lock from being idle. -/
theorem SessionOk.writer {s : Nat} {st : SessionSt} (hok : SessionOk w gs s st)
    (hbusy : st.writer ≠ .idle) :
    ∃ (j : Nat) (g : Held), gs[j]? = some g ∧ (g.pend = some s ∨ g.excl = some s) := by
  cases hwr : st.writer with
  | idle => exact absurd hwr hbusy
  | pending =>
    have hpos : 0 < holders Held.pend gs s := by rw [hok.pending, if_pos hwr]; decide
    obtain ⟨j, g, hg, h⟩ := exists_holder hpos
    exact ⟨j, g, hg, .inl h⟩
  | held =>
    have hpos : 0 < holders Held.excl gs s := by rw [hok.held, if_pos hwr]; decide
    obtain ⟨j, g, hg, h⟩ := exists_holder hpos
    exact ⟨j, g, hg, .inr h⟩

/-- A call waits for a call that has something to give back, and that can wait only for something
of a lower rank. -/
theorem Inv.blocker (hi : Inv w gs) {e : Op} (hw : w.Waits e) :
    ∃ (j : Nat) (g : Held), gs[j]? = some g ∧ ¬g.Idle ∧
      ∀ e', e'.Pre g → w.Waits e' → e'.rank < e.rank := by
  cases e with
  | sess s o =>
    cases o with
    | rLock | lock =>
      obtain ⟨st, hst, hbusy⟩ := hw
      obtain ⟨j, g, hg, hlock⟩ := (hi.sessions s st hst).writer hbusy
      refine ⟨j, g, hg, fun hidle => ?_, fun e' hp _ => Nat.lt_succ_of_le (rank_of_writer hlock hp)⟩
      rw [hidle.pend, hidle.excl] at hlock
      exact hlock.elim nofun nofun
    | lockWait =>
      obtain ⟨st, hst, hpos⟩ := hw
      rw [← (hi.sessions s st hst).readers] at hpos
      obtain ⟨j, g, hg, hread⟩ := exists_holder hpos
      refine ⟨j, g, hg, fun hidle => ?_, fun e' hp _ => Nat.lt_succ_of_le (rank_of_read hread hp)⟩
      exact nomatch hidle.read.symm.trans hread
    | gateSelect c =>
      obtain ⟨st, hst, hpos, -⟩ := hw
      rw [← (hi.sessions s st hst).gate] at hpos
      obtain ⟨j, g, hg, hgate⟩ := exists_holder hpos
      have hwf := hi.wf g (List.mem_of_getElem? hg)
      refine ⟨j, g, hg, fun hidle => ?_,
        fun e' hp _ => Nat.lt_succ_of_le (rank_of_gate hwf hgate hp)⟩
      exact nomatch hidle.gate.symm.trans hgate
    | _ => exact hw.elim
  | rt r o =>
    cases o with
    | lock =>
      obtain ⟨st, hst, hlocked⟩ := hw
      have hpos : 0 < holders Held.mu gs r := by
        rw [(hi.runtimes r st hst).locked, if_pos hlocked]
        decide
      obtain ⟨j, g, hg, hmu⟩ := exists_holder hpos
      refine ⟨j, g, hg, fun hidle => ?_, fun e' hp _ => Nat.lt_succ_of_le (rank_of_mu hmu hp)⟩
      exact nomatch hidle.mu.symm.trans hmu
    | _ => exact hw.elim
  | cb o =>
    cases o with
    | recvDone id =>
      obtain ⟨cb, hcb, hstate⟩ := hw
      have hpos : 0 < holders Held.fire gs id := by
        rw [(hi.callbacks id cb hcb).fire, if_pos hstate]
        decide
      obtain ⟨j, g, hg, hfire⟩ := exists_holder hpos
      refine ⟨j, g, hg, fun hidle => ?_, fun e' hp hw' => ?_⟩
      · exact nomatch hidle.fire.symm.trans hfire
      · exact (hi.fire_proceeds (List.mem_of_getElem? hg) hfire hp hw').elim
    | _ => exact hw.elim
  | _ => exact hw.elim

/-- The call has not returned. -/
def Unfinished (t : Goroutine) : Prop := ∀ res, t.rest ≠ .ret res

/-- What a call does next: an operation that the protocol allows. -/
theorem Reachable.next (hr : system.Reachable σ) (ht : t ∈ σ.threads) (hun : Unfinished t) :
    ∃ e k, t.rest = .op e k ∧ e.Pre (held t) := by
  have hwp := Reachable.wp hr ht
  cases hrest : t.rest with
  | ret res => exact absurd hrest (hun res)
  | op e k =>
    rw [hrest] at hwp
    exact ⟨e, k, rfl, hwp.1⟩

/-- Who holds what a call waits for can go on, or someone that it waits for itself. -/
theorem waits_enabled (hr : system.Reachable σ) {e : Op} (hw : σ.world.Waits e) :
    ∃ j, system.Enabled σ j := by
  induction hn : e.rank using Nat.strong_induction_on generalizing e with
  | _ n ih =>
    obtain ⟨j, g, hg, hbusy, hlower⟩ := (Reachable.inv hr).blocker hw
    rw [List.getElem?_map] at hg
    obtain ⟨u, hu, rfl⟩ := Option.map_eq_some_iff.1 hg
    have hmem := List.mem_of_getElem? hu
    obtain ⟨e', k, hk, hp⟩ := Reachable.next hr hmem fun res hret =>
      hbusy (Reachable.ends hr hmem hret).idle
    by_cases hw' : σ.world.Waits e'
    · exact ih _ (hn ▸ hlower e' hp hw') hw' rfl
    · exact ⟨j, (enabled_iff hr hu hk).2 hw'⟩

/-- **No deadlock.** While a call has not returned, some call or callback can take a step. -/
theorem deadlock_free (hr : system.Reachable σ) (hun : ∃ t ∈ σ.threads, Unfinished t) :
    ∃ (i : Nat) (t : Goroutine), σ.threads[i]? = some t ∧ Unfinished t ∧ system.Enabled σ i := by
  obtain ⟨t, ht, hun⟩ := hun
  obtain ⟨i, hti⟩ := List.mem_iff_getElem?.1 ht
  obtain ⟨e, k, hk, -⟩ := Reachable.next hr ht hun
  have hsome : ∃ j, system.Enabled σ j := by
    by_cases hw : σ.world.Waits e
    · exact waits_enabled hr hw
    · exact ⟨i, (enabled_iff hr hti hk).2 hw⟩
  obtain ⟨j, henabled⟩ := hsome
  obtain ⟨u, e', k', a, w', hu, hk', ha⟩ := System.enabled_iff.1 henabled
  refine ⟨j, u, hu, fun res hret => ?_, henabled⟩
  rw [hret] at hk'
  exact nomatch hk'

/-! ## Cancellation before the native call -/

/-- The operation begins the native execution of a run. -/
def Op.Begins : Op → Prop
  | .enter (.ocRun _) | .enter (.ocRunInto _) => True
  | _ => False

/-- The call has not begun native execution. -/
def NotBegun (t : Goroutine) : Prop := ∀ ev ∈ t.trace, ¬ev.1.Begins

/-- The call is about to take the read lock of `s`. -/
def AtLock (t : Goroutine) (s : Nat) : Prop := ∃ k, t.rest = .op (.sess s .rLock) k

/-- The call waits for a read lock, because of a writer. -/
def LockedOut (w : World) (t : Goroutine) : Prop :=
  ∃ s st, AtLock t s ∧ w.sessions[s]? = some st ∧ st.writer ≠ .idle

/-- The call is a run whose context is done. -/
def Canceled (w : World) (t : Goroutine) : Prop :=
  ∃ ctx, t.call.ctx = some ctx ∧ (w.err ctx).isSome

/-- Every run whose context is done and that has not begun native execution can take a step. -/
def Cancelable (σ : Global) : Prop :=
  ∀ (i : Nat) (t : Goroutine), σ.threads[i]? = some t → Canceled σ.world t → Unfinished t →
    NotBegun t → system.Enabled σ i

omit [Platform] in
/-- A history of one event. -/
theorem snoc_eq_singleton {α : Type} {l : List α} {a b : α} (h : l ++ [a] = [b]) : l = [] ∧ a = b := by
  cases l with
  | nil => exact ⟨rfl, List.singleton_inj.1 h⟩
  | cons x l => simp at h

theorem NotBegun.phase (hr : system.Reachable σ) (ht : t ∈ σ.threads) (h : NotBegun t) :
    (held t).phase = .before := by
  have hphase := (Reachable.valid hr ht).history
    (I := fun tr g => g.Wf ∧ ((∀ ev ∈ tr, ¬ev.1.Begins) → g.phase = .before))
    ⟨.start _, fun _ => rfl⟩ ?_
  · exact hphase.2 h
  rintro tr g e a ⟨hwf, hbefore⟩ hp -
  refine ⟨hwf.step hp, fun hall => ?_⟩
  have hbefore := hbefore fun ev hev => hall ev (List.mem_append_left _ hev)
  have he : ¬e.Begins := hall ⟨e, a⟩ (by simp)
  rw [protocol_upd, (e.changes g a).phase]
  unfold Held.phaseAfter
  cases e with
  | enter f =>
    cases f with
    | ocRun n | ocRunInto n => exact absurd trivial he
    | ocOutputsFree n => exact nomatch hbefore.symm.trans hp.2.2.2
    | _ => exact hbefore
  | leave f =>
    cases f with
    | ocRun n | ocRunInto n => exact nomatch hbefore.symm.trans (hwf.inside _ hp).2.2.1
    | _ => exact hbefore
  | _ => exact hbefore

/-- A run takes its read lock after one look at its context. -/
theorem AtLock.trace (hr : system.Reachable σ) (ht : t ∈ σ.threads) {ctx : Ctx}
    (hctx : t.call.ctx = some ctx) {s : Nat} (h : AtLock t s) :
    t.trace = [⟨.ctxErr ctx, none⟩] := by
  obtain ⟨k, hk⟩ := h
  have hrun := hr.runs t ht
  rw [hk] at hrun
  obtain ⟨ss, inputs, outputs, into, q, -, h, -⟩ := Call.run_inv hctx (hrun.snoc ())
  rcases ss.run_cases ctx inputs outputs into h with (htr | ⟨e, htr⟩) |
    ⟨tr', q', htr, ⟨-, hbody⟩ | ⟨tr'', res, rfl, -, -, -⟩⟩
  · simp at htr
  · obtain ⟨-, h⟩ := snoc_eq_singleton htr
    exact nomatch h
  · rcases List.eq_nil_or_concat' tr' with rfl | ⟨tr₁, ev, rfl⟩
    · exact (List.append_singleton_inj.1 (htr.trans (List.singleton_append (l := [_])).symm)).1
    · rw [← List.cons_append, ← List.cons_append] at htr
      obtain ⟨-, rfl⟩ := List.append_singleton_inj.1 htr
      have hno : Op.Body (.sess s .rLock) := hbody ⟨.sess s .rLock, ()⟩ (by simp)
      exact hno.elim
  · rw [← List.cons_append, ← List.cons_append] at htr
    obtain ⟨-, h⟩ := List.append_singleton_inj.1 htr
    exact nomatch h

/-- A canceled run before its native call can go on, except where a writer keeps it out. -/
theorem enabled_unless_locked (hr : system.Reachable σ) (ht : σ.threads[i]? = some t)
    (hc : Canceled σ.world t) (hun : Unfinished t) (hnot : NotBegun t) :
    system.Enabled σ i ↔ ¬LockedOut σ.world t := by
  have hmem := List.mem_of_getElem? ht
  obtain ⟨ctx, hctx, hdone⟩ := hc
  obtain ⟨e, k, hk, hp⟩ := Reachable.next hr hmem hun
  have hcall : (held t).call = t.call := ((Reachable.valid hr hmem).history
    (I := fun _ g => Along t.call g) (.start _) fun _ _ _ _ hg hp _ => hg.step hp).call
  have hphase := hnot.phase hr hmem
  have hrt : (held t).call.runtime = none := by
    rw [hcall]
    cases htc : t.call <;> rw [htc] at hctx <;> first | rfl | exact nomatch hctx
  have hcloses : ¬(held t).call.Closes := by
    rw [hcall]
    cases htc : t.call <;> rw [htc] at hctx <;> first | exact id | exact nomatch hctx
  rw [enabled_iff hr ht hk, not_iff_not]
  constructor
  · intro hw
    cases e with
    | sess s o =>
      cases o with
      | rLock =>
        obtain ⟨st, hst, hbusy⟩ := hw
        exact ⟨s, st, ⟨k, hk⟩, hst, hbusy⟩
      | lock => exact absurd hp.2.2.2.2.1 hcloses
      | lockWait =>
        have hpend := hp.2.2.1
        rcases ((Reachable.inv hr).wf _ (Reachable.held_mem hmem)).closes with h | h
        · exact absurd h hcloses
        · rw [h.1] at hpend
          exact nomatch hpend
      | gateSelect c =>
        -- the context of the select is the run's own
        obtain ⟨st, -, -, hnone⟩ := hw
        have hown := hp.2.2.1
        rw [hcall, hctx, Option.some.injEq] at hown
        rw [← hown] at hnone
        rw [hnone] at hdone
        exact nomatch hdone
      | _ => exact hw.elim
    | rt r o =>
      cases o with
      | lock =>
        have hr' := hp.2.2.1
        rw [hrt] at hr'
        exact nomatch hr'
      | _ => exact hw.elim
    | cb o =>
      cases o with
      | recvDone id => exact absurd hphase hp.2.2.2
      | _ => exact hw.elim
    | _ => exact hw.elim
  · rintro ⟨s, st, ⟨k', hk'⟩, hst, hbusy⟩
    obtain ⟨rfl, -⟩ := Prog.op.inj (hk.symm.trans hk')
    exact ⟨st, hst, hbusy⟩

/-- Where a run of the session waits, it has done nothing that a writer could wait for. -/
theorem LockedOut.unbegun (hr : system.Reachable σ) (ht : t ∈ σ.threads)
    (hc : Canceled σ.world t) (hlock : LockedOut σ.world t) : Unfinished t ∧ NotBegun t := by
  obtain ⟨ctx, hctx, -⟩ := hc
  obtain ⟨s, st, hat, -⟩ := hlock
  refine ⟨fun res hret => ?_, fun ev hev => ?_⟩
  · obtain ⟨k, hk⟩ := hat
    exact nomatch hret.symm.trans hk
  · rw [hat.trace hr ht hctx] at hev
    obtain rfl := List.mem_singleton.1 hev
    exact id

theorem cancelable_iff (hr : system.Reachable σ) :
    Cancelable σ ↔ ∀ t ∈ σ.threads, Canceled σ.world t → ¬LockedOut σ.world t := by
  constructor
  · intro h t ht hc hlock
    obtain ⟨i, hti⟩ := List.mem_iff_getElem?.1 ht
    obtain ⟨hun, hnot⟩ := hlock.unbegun hr ht hc
    exact (enabled_unless_locked hr hti hc hun hnot).1 (h i t hti hc hun hnot) hlock
  · intro h i t hti hc hun hnot
    exact (enabled_unless_locked hr hti hc hun hnot).2 (h t (List.mem_of_getElem? hti) hc)

/-- The step makes a canceled run wait: `Close` asks for the write lock of its session, or its
context ends while a writer keeps it out. -/
def Delays (σ : Global) : Label Call Move Op Op.Resp → Prop
  | .act _ ⟨.sess s .lock, _⟩ => ∃ t ∈ σ.threads, Canceled σ.world t ∧ AtLock t s
  | .move (.done c _) => ∃ t ∈ σ.threads, LockedOut σ.world t ∧ t.call.ctx = some ⟨c, true⟩
  | _ => False

/-- Who is locked out after a step was so before it, or the step was a `lock`. -/
theorem LockedOut.before (hr : system.Reachable σ) {w' : World} {e : Op} {a : e.Resp}
    (ha : σ.world.act e a = some w') (ht : t ∈ σ.threads) (h : LockedOut w' t) :
    LockedOut σ.world t ∨ ∃ s, e = .sess s .lock ∧ AtLock t s := by
  obtain ⟨s, st', hat, hst', hbusy⟩ := h
  obtain ⟨k, hk⟩ := hat
  have hpre := Reachable.wp hr ht
  rw [hk] at hpre
  obtain ⟨st, hst, -⟩ := (Reachable.inv hr).session_get (Reachable.held_mem ht) hpre.1.2.1
  by_cases hidle : st.writer = .idle
  · obtain ⟨st₁, hst₁, hafter⟩ := World.act_session ha hst
    obtain rfl : st' = st₁ := by rw [hst', Option.some.injEq] at hst₁; exact hst₁
    have hstay : st' = st → False := fun heq => hbusy (heq ▸ hidle)
    right
    cases e with
    | sess s' o =>
      rw [World.SessionAfter] at hafter
      split at hafter
      · next hs =>
        subst hs
        have hcases := SessionSt.act_cases hafter
        cases o with
        | lock => exact ⟨s', rfl, k, hk⟩
        | lockWait => cases hidle.symm.trans hcases.1.1
        | unlock => cases hidle.symm.trans hcases.1
        | clearNative => exact (hbusy (hcases ▸ hidle)).elim
        | getNative => exact (hstay hcases.2).elim
        | gateSelect c =>
          rcases hcases with ⟨-, -, h⟩ | ⟨-, -, h⟩
          · exact (hbusy (h ▸ hidle)).elim
          · exact (hstay h).elim
        | _ => exact (hbusy (hcases.2 ▸ hidle)).elim
      · exact (hstay hafter).elim
    | rt r o =>
      cases o with
      | decRefs owner =>
        cases owner with
        | none => exact (hstay hafter).elim
        | some s' =>
          simp only [World.SessionAfter] at hafter
          split at hafter
          · exact (hbusy (hafter ▸ hidle)).elim
          · exact (hstay hafter).elim
      | _ => exact (hstay hafter).elim
    | _ => exact (hstay hafter).elim
  · exact .inl ⟨s, st, ⟨k, hk⟩, hst, hidle⟩

/-- A step keeps every canceled run going iff it delays none. -/
theorem cancelable_step (hr : system.Reachable σ) (hc : Cancelable σ)
    {l : Label Call Move Op Op.Resp} {σ' : Global} (hs : system.Step σ l σ') :
    Cancelable σ' ↔ ¬Delays σ l := by
  have hr' := hr.step hs
  rw [cancelable_iff hr] at hc
  rw [cancelable_iff hr']
  cases hs with
  | @act i t e k a w' ht hk ha =>
    have herr : ∀ u, Canceled w' u ↔ Canceled σ.world u := fun u => by
      simp only [Canceled, World.act_err ha]
    constructor
    · intro h hdelay
      cases e with
      | sess s o =>
        cases o with
        | lock =>
          obtain ⟨u, hu, hcu, hat⟩ := hdelay
          obtain ⟨j, hj⟩ := List.mem_iff_getElem?.1 hu
          have hji : i ≠ j := by
            rintro rfl
            obtain rfl : t = u := by rw [ht, Option.some.injEq] at hj; exact hj
            obtain ⟨k', hk'⟩ := hat
            cases hk.symm.trans hk'
          have hu' : u ∈ σ.threads.set i (t.next k a) :=
            List.mem_of_getElem? ((List.getElem?_set_ne hji).trans hj)
          obtain ⟨st, st', hst, hst', rfl⟩ := World.sess_cases ha
          obtain ⟨-, rfl⟩ := SessionSt.act_cases hst'
          refine h u hu' ((herr u).2 hcu) ⟨s, { st with writer := .pending }, hat, ?_, by simp⟩
          rw [List.getElem?_set_self (List.getElem?_eq_some_iff.1 hst).1]
        | _ => exact hdelay
      | _ => exact hdelay
    · intro hnot u hu hcu hlock
      rcases mem_set_cases hu with rfl | hu'
      · -- the call itself has just found its context not done
        obtain ⟨ctx, hctx, hdone⟩ := hcu
        obtain ⟨s, st, hat, -⟩ := hlock
        have htr := hat.trace hr' hu hctx
        rw [Thread.next_trace] at htr
        obtain ⟨-, hev⟩ := snoc_eq_singleton htr
        cases hev
        simp only [system, World.act, Option.ite_none_right_eq_some, Option.some.injEq] at ha
        obtain ⟨hnone, rfl⟩ := ha
        rw [← hnone] at hdone
        cases hdone
      · rcases hlock.before hr ha hu' with hlock' | ⟨s, rfl, hat⟩
        · exact hc u hu' ((herr u).1 hcu) hlock'
        · exact hnot ⟨u, hu', (herr u).1 hcu, hat⟩
  | @start c w' hstart =>
    obtain ⟨cbs, rfl⟩ := World.start_rest hstart
    refine iff_of_true (fun u hu hcu hlock => ?_) id
    rcases List.mem_append.1 hu with hu' | hu'
    · exact hc u hu' hcu hlock
    · obtain ⟨ctx, hctx, -⟩ := hcu
      obtain ⟨s, st, hat, -⟩ := hlock
      have htr := hat.trace hr' hu hctx
      rw [List.mem_singleton.1 hu'] at htr
      cases htr
  | @move v w' hmove =>
    cases v with
    | drop n =>
      cases hmove
      exact iff_of_true hc id
    | done c err =>
      simp only [system, Move.apply, Option.ite_none_right_eq_some, Option.some.injEq] at hmove
      obtain ⟨hnone, rfl⟩ := hmove
      constructor
      · rintro h ⟨u, hu, hlock, hctx⟩
        refine h u hu ⟨_, hctx, ?_⟩ hlock
        simp [World.err]
      · rintro hnot u hu ⟨ctx, hctx, hdone⟩ hlock
        by_cases hid : ctx = ⟨c, true⟩
        · exact hnot ⟨u, hu, hlock, hid ▸ hctx⟩
        · refine hc u hu ⟨ctx, hctx, ?_⟩ hlock
          unfold World.err at hdone ⊢
          split at hdone
          · next hcan =>
            have hne : ctx.id ≠ c := by
              rintro rfl
              exact hid (by cases ctx; simp_all)
            rw [if_pos hcan]
            simpa [Function.update_of_ne hne] using hdone
          · cases hdone

/-- **When a run that has not started is cancelable.** A step delays no canceled run iff every run
whose context is done can still go on after it, and so in every run of such steps; such a run waits
only for a read lock that a writer keeps it from. -/
theorem run_cancelable :
    (∀ σ, system.Path (fun σ l => ¬Delays σ l) ⟨system.init, []⟩ σ → Cancelable σ) ∧
    (∀ σ l σ', system.Reachable σ → Cancelable σ → system.Step σ l σ' →
      (Cancelable σ' ↔ ¬Delays σ l)) ∧
    ∀ σ : Global, system.Reachable σ →
      (Cancelable σ ↔ ∀ t ∈ σ.threads, Canceled σ.world t → ¬LockedOut σ.world t) := by
  refine ⟨fun σ hpath => ?_, fun σ l σ' hr hc hs => cancelable_step hr hc hs,
    fun σ hr => cancelable_iff hr⟩
  induction hpath with
  | nil => exact fun i t ht => by simp at ht
  | snoc hpath hnot hs ih =>
    exact (cancelable_step (hpath.reachable .init) ih hs).2 hnot

end

namespace Sample

/-- Goroutine 2 is in its native call, `Close` waits for it, and goroutine 4, whose context is done,
waits for `Close`. -/
def delayed : List Cue :=
  loaded false ++ [.start (.run (session false) ctx [scalar 8192]), go 2 14,
    .start (.closeSession (session false)), go 3 1,
    .start (.run (session false) ⟨8, true⟩ [scalar 8192]), go 4 1, .move (.done 8 .canceled)]

/-- The run in its native call, and the one that waits. -/
def executing : Goroutine := (system.played delayed).threads.get ⟨2, by decide +kernel⟩

def waiting : Goroutine := (system.played delayed).threads.get ⟨4, by decide +kernel⟩

/-- The session while `Close` waits. -/
def closing : SessionSt := (system.played delayed).world.sessions.get ⟨0, by decide +kernel⟩

end Sample

open Sample in
theorem run_not_cancelable : ¬∀ σ, system.Reachable σ → Cancelable σ := by
  intro h
  have hr : system.Reachable (system.played delayed) := System.played_reachable _
  have hcanceled : Canceled (system.played delayed).world waiting :=
    ⟨⟨8, true⟩, by decide +kernel, by decide +kernel⟩
  have hclosing : (system.played delayed).world.sessions[0]? = some closing :=
    List.getElem?_eq_getElem _
  have hlocked : LockedOut (system.played delayed).world waiting :=
    ⟨0, closing, Prog.next_eq.1 (by decide +kernel), hclosing, by decide +kernel⟩
  exact (cancelable_iff hr).1 (h _ hr) waiting (List.get_mem _ _) hcanceled hlocked

open Sample in
theorem deadlock_free_sample :
    ∃ (i : Nat) (t : Goroutine), (system.played delayed).threads[i]? = some t ∧ Unfinished t ∧
      system.Enabled (system.played delayed) i := by
  have hun : Unfinished executing := fun res hret => by
    have hvalue : executing.rest.value = none := by decide +kernel
    rw [hret] at hvalue
    exact nomatch hvalue
  exact deadlock_free (System.played_reachable _) ⟨executing, List.get_mem _ _, hun⟩

end Onnxcraft
