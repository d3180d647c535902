import Onnxcraft.Properties.Pool
import Onnxcraft.Protocol.Reports

/-!
# Isolation of cancellations

The terminate flag of a run is set only when its own context is done, and a run that ORT has
aborted returns its context's error (`abort_reported`). A run whose context is never done does not
notice the other runs: whatever becomes of them, it returns what ORT's answers make it return
(`run_isolated`).
-/

namespace Onnxcraft

open Effect

/-! ## Contexts stay done -/

section
variable [Platform] {w w' : World} {c : Ctx}

omit [Platform] in
theorem move_err {v : Move} (h : v.apply w = some w') (hc : (w.err c).isSome) :
    (w'.err c).isSome := by
  cases v with
  | drop n =>
    cases h
    exact hc
  | done ctx e =>
    simp only [Move.apply, Option.ite_none_right_eq_some, Option.some.injEq] at h
    obtain ⟨-, rfl⟩ := h
    unfold World.err at hc ⊢
    split
    next hcancel =>
      rw [if_pos hcancel] at hc
      show (Function.update w.ctxs ctx (some e) c.id).isSome
      by_cases hid : c.id = ctx
      · rw [hid, Function.update_self]
        rfl
      · rw [Function.update_of_ne hid]
        exact hc
    next hcancel => rwa [if_neg hcancel] at hc

theorem step_err {σ σ' : Global} {l : Label Call Move Op Op.Resp} (h : system.Step σ l σ')
    (hc : (σ.world.err c).isSome) : (σ'.world.err c).isSome := by
  cases h with
  | act ht hk ha => rwa [World.act_err ha]
  | start hs =>
    obtain ⟨cbs, rfl⟩ := World.start_rest hs
    exact hc
  | move hm => exact move_err hm hc

end

section
variable [Platform] {σ : Global} {t : Goroutine} {q : Request}

/-- `stop` fails only when the context is done. -/
theorem stop_failed (hr : system.Reachable σ) : ∀ t ∈ σ.threads, ∀ id,
    ⟨.cb (.stop id), false⟩ ∈ t.trace → ∃ c, t.call.ctx = some c ∧ (σ.world.err c).isSome := by
  induction hr with
  | init => simp
  | @step σ σ' l hr hs ih =>
    have hkeep : ∀ t ∈ σ.threads, ∀ id, ⟨.cb (.stop id), false⟩ ∈ t.trace →
        ∃ c, t.call.ctx = some c ∧ (σ'.world.err c).isSome := fun t ht id h => by
      obtain ⟨c, hc, herr⟩ := ih t ht id h
      exact ⟨c, hc, step_err hs herr⟩
    cases hs with
    | @act i t e k r w' ht hk ha =>
      intro u hu id h
      rcases mem_set_cases hu with rfl | hu
      · have hmem := List.mem_of_getElem? ht
        rcases List.mem_append.1 h with h | h
        · exact hkeep t hmem id h
        have hev : (⟨e, r⟩ : Event Op Op.Resp) = ⟨.cb (.stop id), false⟩ :=
          (List.mem_singleton.1 h).symm
        cases hev
        -- the callback has started
        have hpre := Reachable.wp hr hmem
        rw [hk] at hpre
        obtain ⟨-, hwatch, -⟩ := hpre.1
        have hi := Reachable.inv hr
        obtain ⟨cb, hcb, hctx, -⟩ := (hi.knows _ (Reachable.held_mem hmem)).watch id hwatch
        rw [Reachable.call hr hmem] at hctx
        refine ⟨cb.ctx, hctx, ?_⟩
        have hok := hi.callbacks id cb hcb
        have hpos := holders_pos (Reachable.held_get ht) hwatch
        have hact' : σ.world.act (.cb (.stop id)) false = some w' := ha
        have hact : σ.world.callback (.stop id) false = some w' := ha
        simp only [World.callback, hcb, Option.bind_eq_bind, Option.bind_some] at hact
        rw [World.act_err hact']
        cases hst : cb.state with
        | registered => simp [hst] at hact
        | running => exact hok.done (.inl hst)
        | finished => exact hok.done (.inr hst)
        | stopped =>
          have hw := hok.watch
          rw [hst] at hw
          dsimp only at hw
          omega
      · exact hkeep u hu id h
    | start hs' =>
      intro u hu id h
      rcases List.mem_append.1 hu with hu | hu
      · exact hkeep u hu id h
      · rw [List.mem_singleton.1 hu] at h
        cases h
    | move hm => exact hkeep

/-- A call that has seen its context done, it is done. -/
theorem canceled_err (hr : system.Reachable σ) (ht : t ∈ σ.threads) {ev : Event Op Op.Resp}
    (hev : ev ∈ t.trace) (hcan : cancels ev = true) {c : Ctx} (hc : t.call.ctx = some c) :
    (σ.world.err c).isSome := by
  have hv := Reachable.valid hr ht
  have hany : t.trace.any cancels → (held t).canceled := by
    refine hv.history (I := fun tr g => tr.any cancels → g.canceled) (by simp) ?_
    intro tr g e a hg _ henv h
    rw [List.any_append, Bool.or_eq_true] at h
    exact canceled_upd henv (h.imp hg fun h => by simpa using h)
  refine ((Reachable.inv hr).knows _ (Reachable.held_mem ht)).canceled c ?_ ?_
  · exact hany (List.any_eq_true.2 ⟨ev, hev, hcan⟩)
  · rw [Reachable.call hr ht]
    exact hc

/-- Run options that a call has made and not freed are its to free. -/
theorem option_live (hr : system.Reachable σ) (ht : t ∈ σ.threads) (hrun : t.call.ctx.isSome)
    {o : Handle} (hmade : ⟨.nat .createRunOptions, .ok o⟩ ∈ t.trace)
    (hfree : ⟨.nat (.releaseRunOptions o), ()⟩ ∉ t.trace) : .runOptions o ∈ (held t).live := by
  have heq := run_acquired hr ht hrun (List.append_nil _).symm
  have hin : .runOptions o ∈ acquired t.trace := by
    obtain ⟨tr, tr', htr⟩ := List.append_of_mem hmade
    rw [htr, acquired, total_append, total_cons, Multiset.mem_add, Multiset.mem_add]
    exact .inr (.inl (Multiset.mem_singleton_self _))
  rw [heq, Multiset.mem_add] at hin
  refine hin.resolve_left fun hrel => ?_
  have hzero : ∀ tr : Trace, (∀ ev ∈ tr, ev.1 ≠ .nat (.releaseRunOptions o)) →
      (released tr).count (.runOptions o) = 0 := fun tr h => by
    induction tr with
    | nil => rfl
    | cons ev tr ih =>
      rw [released, total_cons, Multiset.count_add, ← released,
        ih fun ev hev => h ev (List.mem_cons_of_mem _ hev)]
      obtain ⟨e, a⟩ := ev
      cases e with
      | nat o' =>
        exact NativeOp.releases_count fun he => h _ List.mem_cons_self (congrArg Op.nat he)
      | _ => rfl
  have := hzero t.trace fun ev hev he => by
    obtain ⟨e, a⟩ := ev
    subst he
    exact hfree hev
  exact absurd (Multiset.count_pos.2 hrel) (by omega)

omit [Platform] in
/-- That ORT has aborted a run is not forgotten. -/
theorem aborted_upd {g : Held} {e : Op} {a : e.Resp} (h : g.aborted = true) :
    (e.upd g a).aborted = true := by
  cases e with
  | sess s o =>
    obtain ⟨_, _, _, _, _, _, _, _, _, hupd⟩ := o.upd_shape g s a
    exact (congrArg Held.aborted hupd).trans h
  | rt r o =>
    obtain ⟨_, _, _, _, _, _, hupd⟩ := o.upd_shape g r a
    exact (congrArg Held.aborted hupd).trans h
  | cb o =>
    obtain ⟨_, _, _, hupd⟩ := o.upd_shape g a
    exact (congrArg Held.aborted hupd).trans h
  | nat o =>
    show (o.upd g a).aborted = true
    cases o with
    | run =>
      simp only [NativeOp.upd]
      split
      · rfl
      · exact h
    | _ => exact h
  | pool o => cases o <;> exact h
  | fault => exact a.elim
  | _ => exact h

/-- ORT has aborted the run. -/
def aborts : Event Op Op.Resp → Bool
  | ⟨.nat (.run _ _ _ _ _ _), reply⟩ => reply.aborted
  | _ => false

/-- A run that ORT has aborted knows it, and that its context is done. -/
theorem aborted_held {c : Call} {tr : Trace} (hv : protocol.Valid tr (Held.start c))
    (h : tr.any aborts = true) : (protocol.after tr (Held.start c)).aborted = true ∧
      (protocol.after tr (Held.start c)).canceled = true := by
  refine hv.history (I := fun tr g => tr.any aborts = true →
    g.aborted = true ∧ g.canceled = true) (fun h => by cases h) ?_ h
  intro tr g e a hg _ henv h
  rw [List.any_append, Bool.or_eq_true] at h
  rcases h with h | h
  · exact ⟨aborted_upd (hg h).1, canceled_upd henv (.inl (hg h).2)⟩
  · have hev : aborts ⟨e, a⟩ = true := by simpa using h
    unfold aborts at hev
    split at hev
    next s o xs vs ys us reply heq =>
      cases heq
      show (NativeOp.upd g (.run s o xs vs ys us) reply).aborted = true ∧
        (NativeOp.upd g (.run s o xs vs ys us) reply).canceled = true
      simp only [NativeOp.upd, hev, if_true, and_self]
    · cases hev

omit [Platform] in
theorem Call.request_own {c : Call} (h : c.request = some q) : c.ctx = some q.ctx := by
  cases c with
  | run s ctx inputs =>
    obtain rfl := Option.some.inj h
    rfl
  | runInto s ctx outputs inputs =>
    obtain rfl := Option.some.inj h
    rfl
  | _ => cases h

/-- **Cancellations.** In every reachable state the terminate flag of run options that a run has
made and not freed is set only if the run's own context is done; and a run that ORT has aborted
because of the flag returns the error of its own context. -/
theorem abort_reported (hr : system.Reachable σ) (ht : t ∈ σ.threads)
    (hc : t.call.request = some q) :
    (∀ o, ⟨.nat .createRunOptions, .ok o⟩ ∈ t.trace →
      ⟨.nat (.releaseRunOptions o), ()⟩ ∉ t.trace → σ.world.options o = some true →
      (σ.world.err q.ctx).isSome) ∧
    (t.trace.any aborts = true → (σ.world.err q.ctx).isSome ∧
      ∀ ret, t.rest = .ret ret →
        ∃ e, σ.world.err q.ctx = some e ∧ ret.error = some (.ctx e)) := by
  have hctx := Call.request_own hc
  have hknows := (Reachable.inv hr).knows _ (Reachable.held_mem ht)
  have hcall := Reachable.call hr ht
  refine ⟨fun o hmade hfree hflag => ?_, fun hab => ?_⟩
  · obtain ⟨c, hcc, herr⟩ := hknows.flag o
      (option_live hr ht (by rw [hctx]; rfl) hmade hfree) hflag
    rw [hcall, hctx, Option.some.injEq] at hcc
    rwa [hcc]
  · obtain ⟨haborted, hcanceled⟩ : (held t).aborted = true ∧ (held t).canceled = true :=
      aborted_held (Reachable.valid hr ht) hab
    refine ⟨hknows.canceled q.ctx hcanceled (by rw [hcall]; exact hctx), fun ret hret => ?_⟩
    obtain ⟨e, hdone, hres⟩ := (Reachable.ends hr ht hret).aborted haborted
    refine ⟨e, hknows.done e q.ctx hdone (by rw [hcall]; exact hctx), ?_⟩
    rcases hres with rfl | rfl <;> rfl

/-! ## Two executions -/

/-- What a run asks of ORT, of the C heap, of memory, and of the native fields. -/
def Op.Asks : Op → Prop
  | .nat _ | .mem _ | .sess _ .getNative | .rt _ .getNative => True
  | _ => False

instance : DecidablePred Op.Asks
  | .nat _ | .mem _ | .sess _ .getNative | .rt _ .getNative => isTrue trivial
  | .sess _ .rLock | .sess _ .rUnlock | .sess _ .lock | .sess _ .lockWait | .sess _ .unlock
  | .sess _ .clearNative | .sess _ (.gateSelect _) | .sess _ .gateRecv | .rt _ .lock | .rt _ .unlock
  | .rt _ .getClosed | .rt _ .setClosed | .rt _ .clearNative | .rt _ .incRefs | .rt _ (.decRefs _)
  | .newRuntime _ | .newSession _ _ _ _ _ | .ctxErr _ | .filepathAbs _ | .pool _ | .cb _ | .enter _
  | .leave _ | .fault _ => isFalse id

/-- Where two traces ask the same at the same place, they are given the same reply. -/
def Replied (tr tr' : Trace) : Prop :=
  ∀ p ∈ tr.zip tr', ∀ h : p.1.1 = p.2.1, p.1.1.Asks → h ▸ p.1.2 = p.2.2

instance (tr tr' : Trace) : Decidable (Replied tr tr') :=
  inferInstanceAs (Decidable (∀ p ∈ tr.zip tr', ∀ h : p.1.1 = p.2.1, p.1.1.Asks → h ▸ p.1.2 = p.2.2))

/-- What a run does. -/
theorem run_ops (hr : system.Reachable σ) (ht : t ∈ σ.threads) (hc : t.call.request = some q) :
    ∀ ev ∈ t.trace, ev.1.Body ∨ ev.1 = .sess q.s.id .rLock ∨ ev.1 = .sess q.s.id .rUnlock := by
  obtain ⟨p, hruns, -, -⟩ := Call.request_inv hc (hr.runs t ht)
  intro ev hev
  rcases Session.run_cases q.s q.ctx q.inputs q.outputs q.into hruns with (htr | ⟨e, htr⟩) |
    ⟨tr', q', htr, ⟨-, huses⟩ | ⟨tr'', res, rfl, -, -, huses⟩⟩ <;> rw [htr] at hev
  · cases hev
  · rw [List.mem_singleton.1 hev]
    exact .inl trivial
  · rcases List.mem_cons.1 hev with rfl | hev
    · exact .inl trivial
    rcases List.mem_cons.1 hev with rfl | hev
    · exact .inr (.inl rfl)
    exact .inl (huses ev hev)
  · rcases List.mem_cons.1 hev with rfl | hev
    · exact .inl trivial
    rcases List.mem_cons.1 hev with rfl | hev
    · exact .inr (.inl rfl)
    rcases List.mem_append.1 hev with hev | hev
    · exact .inl (huses ev hev)
    · rw [List.mem_singleton.1 hev]
      exact .inr (.inr rfl)

/-- Two runs whose contexts are not done are answered alike when ORT replies alike. -/
theorem alike_of_replied {σ' : Global} {t' : Goroutine} (hr : system.Reachable σ)
    (hr' : system.Reachable σ') (ht : t ∈ σ.threads) (ht' : t' ∈ σ'.threads)
    (hc : t.call.request = some q) (hc' : t'.call.request = some q)
    (hw : σ.world.err q.ctx = none) (hw' : σ'.world.err q.ctx = none)
    (h : Replied t.trace t'.trace) : Alike t.trace t'.trace := by
  have hctx := Call.request_own hc
  have hctx' := Call.request_own hc'
  have hquiet : ∀ ev ∈ t.trace, cancels ev = false := fun ev hev => by
    refine Bool.eq_false_iff.2 fun hcan => ?_
    have := canceled_err hr ht hev hcan hctx
    rw [hw] at this
    cases this
  have hquiet' : ∀ ev ∈ t'.trace, cancels ev = false := fun ev hev => by
    refine Bool.eq_false_iff.2 fun hcan => ?_
    have := canceled_err hr' ht' hev hcan hctx'
    rw [hw'] at this
    cases this
  have hstops : ∀ id b, ⟨.cb (.stop id), b⟩ ∈ t.trace → b = true := fun id b hb => by
    cases b with
    | true => rfl
    | false =>
      obtain ⟨c, hcc, herr⟩ := stop_failed hr t ht id hb
      rw [hctx, Option.some.injEq] at hcc
      rw [← hcc, hw] at herr
      cases herr
  have hstops' : ∀ id b, ⟨.cb (.stop id), b⟩ ∈ t'.trace → b = true := fun id b hb => by
    cases b with
    | true => rfl
    | false =>
      obtain ⟨c, hcc, herr⟩ := stop_failed hr' t' ht' id hb
      rw [hctx', Option.some.injEq] at hcc
      rw [← hcc, hw'] at herr
      cases herr
  intro p hp
  obtain ⟨⟨e, a⟩, ⟨e', a'⟩⟩ := p
  have hmem : ⟨e, a⟩ ∈ t.trace := (List.of_mem_zip hp).1
  have hmem' : ⟨e', a'⟩ ∈ t'.trace := (List.of_mem_zip hp).2
  refine ⟨fun he hshared => ?_, ?_⟩
  · dsimp only at he
    subst he
    have hasked : e.Asks → a = a' := fun hasks => h _ hp rfl hasks
    rcases run_ops hr ht hc _ hmem with hbody | rfl | rfl
    · cases e with
      | sess s o =>
        cases o with
        | getNative => exact hasked trivial
        | gateSelect c =>
          have h1 : (!a) = false := hquiet _ hmem
          have h2 : (!a') = false := hquiet' _ hmem'
          show a = a'
          rw [Bool.not_eq_false'] at h1 h2
          rw [h1, h2]
        | _ => rfl
      | rt r o =>
        cases o with
        | getNative => exact hasked trivial
        | _ => exact hbody.elim
      | ctxErr c =>
        have h1 : Option.isSome a = false := hquiet _ hmem
        have h2 : Option.isSome a' = false := hquiet' _ hmem'
        show a = a'
        rw [Option.isSome_eq_false_iff, Option.isNone_iff_eq_none] at h1 h2
        rw [h1, h2]
      | pool o => exact absurd trivial hshared
      | cb o => exact absurd trivial hshared
      | mem o => exact hasked trivial
      | nat o => exact hasked trivial
      | enter f => rfl
      | leave f => rfl
      | fault f => exact a.elim
      | _ => exact hbody.elim
    · rfl
    · rfl
  · intro b hb b' hb'
    obtain ⟨id, heq⟩ := stopAnswer_eq hb
    obtain ⟨id', heq'⟩ := stopAnswer_eq hb'
    rw [hstops id b (heq ▸ hmem), hstops' id' b' (heq' ▸ hmem')]

/-- **Isolation.** Two runs of one request whose contexts are not done return the same, whatever
the other goroutines of their executions do, cancel or close, when ORT, the heap and memory reply
to them alike. -/
theorem run_isolated {σ' : Global} {t' : Goroutine} {ret ret' : Ret} (hr : system.Reachable σ)
    (hr' : system.Reachable σ') (ht : t ∈ σ.threads) (ht' : t' ∈ σ'.threads)
    (hc : t.call.request = some q) (hc' : t'.call.request = some q)
    (hw : σ.world.err q.ctx = none) (hw' : σ'.world.err q.ctx = none)
    (hret : t.rest = .ret ret) (hret' : t'.rest = .ret ret') (h : Replied t.trace t'.trace) :
    ret = ret' :=
  (Reachable.twins hr hr' ht ht' hc hc' hret hret'
    (alike_of_replied hr hr' ht ht' hc hc' hw hw' h)).2

end

namespace Sample

/-- A run that is about to call ORT's `Run` when its context is canceled. -/
def canceled : List Cue :=
  loaded false ++ [.start (.run (session false) ctx [scalar 8192]), go 2 13,
    .move (.done 7 .canceled)]

/-- The callback of its context. -/
def registered : CbSt := (system.played canceled).world.callbacks.get ⟨0, by decide +kernel⟩

/-- ORT's `Run` is aborted. -/
def abort (σ : Global) (i : Nat) (e : Op) : Option e.Resp :=
  match e with
  | .nat (.run _ _ _ _ _ _) => some ⟨some ⟨900, 1, ascii "terminated"⟩, [none], true, []⟩
  | e => reply σ i e

/-- The callback sets the flag, and ORT aborts the run. -/
def aborted : List Cue :=
  canceled ++ [.start (.callback registered.r registered.options 0), go 3 4, .steps 2 25 abort]


/-- Another run is canceled in between. -/
def disturbed : List Cue :=
  loaded false ++ [.start (.run (session false) ⟨8, true⟩ [scalar 4096]), .steps 2 13 (answers 9),
    .move (.done 8 .canceled), .start (.run (session false) ctx [scalar 8192]),
    .steps 3 36 (answers 3)]

def victim : Goroutine := (system.played aborted).threads.get ⟨2, by decide +kernel⟩

theorem victim_mem : victim ∈ (system.played aborted).threads := List.get_mem _ _

def victimDone : Returned victim (.run (session false) ctx [scalar 8192]) := .of (by decide +kernel)

def untouched : Goroutine := (system.played disturbed).threads.get ⟨3, by decide +kernel⟩

theorem untouched_mem : untouched ∈ (system.played disturbed).threads := List.get_mem _ _

def untouchedDone : Returned untouched (.run (session false) ctx [scalar 8192]) :=
  .of (by decide +kernel)

end Sample

open Sample in
theorem abort_reported_sample : ∃ ret e, victim.rest = .ret ret ∧ ret.error = some (.ctx e) := by
  obtain ⟨hcall, ret, hret⟩ := victimDone
  obtain ⟨-, hends⟩ := (abort_reported (q := asked) (System.played_reachable aborted) victim_mem
    (by rw [hcall]; rfl)).2 (by decide +kernel)
  obtain ⟨e, -, he⟩ := hends ret hret
  exact ⟨ret, e, hret, he⟩

open Sample in
theorem run_isolated_sample : ∃ ret, once.rest = .ret ret ∧ untouched.rest = .ret ret := by
  obtain ⟨hcall, ret, hret⟩ := onceDone
  obtain ⟨hcall', ret', hret'⟩ := untouchedDone
  obtain rfl := run_isolated (q := asked) (System.played_reachable (ran false))
    (System.played_reachable disturbed) once_mem untouched_mem (by rw [hcall]; rfl)
    (by rw [hcall']; rfl) (by decide +kernel) (by decide +kernel) hret hret' (by decide +kernel)
  exact ⟨ret, hret, hret'⟩

end Onnxcraft
