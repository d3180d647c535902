import Onnxcraft.Properties.Closing
import Onnxcraft.Properties.References
import Onnxcraft.Protocol.Options

/-!
# The cancellation handle

`cancellation_handle`: the run options of a run are freed once, after its callback can no longer use
them; `oc_terminate` is applied to options that exist, while their run holds its read lock; and
`finish` waits only for a callback that has started.
-/

namespace Onnxcraft

open Effect

/-- The callback that a run watches after the events of a trace. -/
def watching (tr : Trace) : Option Nat :=
  tr.foldl (fun w ev => match ev with
    | ⟨.cb (.afterFunc _ _ _), id⟩ => some id
    | ⟨.cb (.stop _), stopped⟩ => if stopped then none else w
    | ⟨.cb (.recvDone _), _⟩ => none
    | _ => w) none

/-- How often a trace makes run options, and frees them. -/
def optionsMade (tr : Trace) : Nat :=
  tr.countP fun ev => match ev with | ⟨.nat .createRunOptions, .ok _⟩ => true | _ => false

def optionsFreed (tr : Trace) : Nat :=
  tr.countP fun ev => match ev.1 with | .enter (.ocRunOptionsFree _) => true | _ => false

/-- A goroutine is about to call `oc_terminate`, is in it, or is about to set the flag. -/
def Terminating (t : Goroutine) (o : Handle) : Prop :=
  (∃ r, t.rest.next = some (.enter (.ocTerminate r o)) ∨ inC t.trace = some (.ocTerminate r o)) ∨
    t.rest.next = some (.nat (.runOptionsSetTerminate o))

section
variable {tr l : Trace} {ctx : Ctx}

theorem watching_snoc (tr : Trace) (ev : Event Op Op.Resp) :
    watching (tr ++ [ev]) = match ev with
      | ⟨.cb (.afterFunc _ _ _), id⟩ => some id
      | ⟨.cb (.stop _), stopped⟩ => if stopped then none else watching tr
      | ⟨.cb (.recvDone _), _⟩ => none
      | _ => watching tr := by
  unfold watching
  rw [List.foldl_append]
  rfl

theorem optionsMade_marked (tr : Trace) : optionsMade (marked Op.OnOptions tr) = optionsMade tr := by
  apply countP_marked
  intro ev h
  split at h
  · trivial
  · cases h

theorem optionsFreed_marked (tr : Trace) : optionsFreed (marked Op.OnOptions tr) = optionsFreed tr := by
  apply countP_marked
  rintro ⟨e, a⟩ h
  split at h
  next he => rw [he]; trivial
  · cases h

/-- A story frees what it has made, at most once, and only when no callback is watched. -/
theorem OptionsLog.counts (h : OptionsLog ctx l) : optionsMade l ≤ 1 ∧ optionsFreed l ≤ optionsMade l ∧
    (0 < optionsFreed l → watching l = none) := by
  rcases h with ⟨st, rfl⟩ | ⟨r, o, id, stopped, h⟩
  · exact ⟨Nat.zero_le _, le_rfl, fun h => absurd h (by simp [optionsFreed, failedOptions])⟩
  · obtain ⟨n, hn⟩ : ∃ n, l = (freedOptions ctx r o id stopped).take n := ⟨_, List.prefix_iff_eq_take.1 h⟩
    rw [hn]
    cases stopped with
    | true =>
      rcases n with _ | _ | _ | _ | _ | n <;>
        simp [freedOptions, usedOptions, optionsMade, optionsFreed, watching]
    | false =>
      rcases n with _ | _ | _ | _ | _ | _ | n <;>
        simp [freedOptions, usedOptions, optionsMade, optionsFreed, watching]

theorem OptionsDone.counts (h : OptionsDone ctx l) : optionsFreed l = optionsMade l := by
  rcases h with rfl | ⟨st, rfl⟩ | ⟨r, o, id, stopped, rfl⟩
  · rfl
  · rfl
  · cases stopped <;> rfl

end

section
variable [Platform] {σ : Global} {t : Goroutine} {q : Request}

/-- The callback that a call watches. -/
theorem watch_eq {tr : Trace} {c : Call} (h : protocol.Valid tr (Held.start c)) :
    (protocol.after tr (Held.start c)).watch = watching (marked Op.OnOptions tr) := by
  refine h.history (I := fun tr g => g.watch = watching (marked Op.OnOptions tr)) rfl ?_
  intro tr g e a hg _ _
  rw [marked_append, protocol_upd]
  have hskip : ¬e.OnOptions → marked Op.OnOptions [(⟨e, a⟩ : Event Op Op.Resp)] = [] := by
    intro he
    simp [marked, he]
  have hkeep : e.OnOptions → marked Op.OnOptions [(⟨e, a⟩ : Event Op Op.Resp)] = [⟨e, a⟩] := by
    intro he
    simp [marked, he]
  cases e with
  | sess s o =>
    obtain ⟨_, _, _, _, _, _, _, _, _, hupd⟩ := o.upd_shape g s a
    rw [hskip not_false, List.append_nil]
    exact (congrArg Held.watch hupd).trans hg
  | rt r o =>
    obtain ⟨_, _, _, _, _, _, hupd⟩ := o.upd_shape g r a
    rw [hskip not_false, List.append_nil]
    exact (congrArg Held.watch hupd).trans hg
  | cb o =>
    rw [hkeep (by trivial), watching_snoc]
    cases o with
    | stop id => cases a <;> first | exact hg | rfl
    | closeDone id => exact hg
    | _ => rfl
  | nat o =>
    obtain ⟨_, _, hupd⟩ := Held.nat_upd g o a
    refine ((congrArg Held.watch hupd).trans hg).trans ?_
    by_cases he : (Op.nat o).OnOptions
    · rw [hkeep he, watching_snoc]
    · rw [hskip he, List.append_nil]
  | enter f =>
    refine hg.trans ?_
    by_cases he : (Op.enter f).OnOptions
    · rw [hkeep he, watching_snoc]
    · rw [hskip he, List.append_nil]
  | pool o =>
    rw [hskip not_false, List.append_nil, ← hg]
    cases o <;> rfl
  | fault f => exact a.elim
  | _ => rw [hskip not_false, List.append_nil]; exact hg

omit [Platform] in
/-- Run options are acquired where they are made. -/
theorem mem_acquired_options {o : Handle} {tr : Trace} (h : .runOptions o ∈ acquired tr) :
    ⟨.nat .createRunOptions, .ok o⟩ ∈ tr := by
  induction tr with
  | nil => cases h
  | cons ev tr ih =>
    rw [acquired, total_cons, Multiset.mem_add] at h
    rcases h with h | h
    · obtain ⟨e, a⟩ := ev
      cases e with
      | nat op =>
        by_cases hop : op = .createRunOptions
        · subst hop
          cases a with
          | error st =>
            unfold Op.acquires NativeOp.acquires at h
            simp at h
          | ok o' =>
            unfold Op.acquires NativeOp.acquires at h
            obtain rfl : o = o' := by simpa using h
            exact List.mem_cons_self
        · exact absurd (Multiset.count_pos.2 h) (by simp [Op.acquires, NativeOp.acquires_count hop])
      | _ => cases h
    · exact List.mem_cons_of_mem _ (ih h)

/-- Whose options `oc_terminate` is applied to: those of a run that holds its read lock and has not
freed them. -/
theorem Reachable.terminated (hr : system.Reachable σ) (ht : t ∈ σ.threads) {r : OcRuntime}
    {o : Handle} {id : Nat} (hcall : t.call = .callback r o id) (hfire : (held t).fire = some id) :
    ∃ u ∈ σ.threads, ∃ (q : Request) (st : SessionSt) (n : OcSession) (rst : RuntimeSt),
      u.call.request = some q ∧ ⟨.nat .createRunOptions, .ok o⟩ ∈ u.trace ∧
      optionsFreed u.trace = 0 ∧ (σ.world.options o).isSome ∧
      rLocks q.s.id u.trace = rUnlocks q.s.id u.trace + 1 ∧
      σ.world.sessions[q.s.id]? = some st ∧ st.native = some n ∧ n.runtime = r ∧
      σ.world.runtimes[q.s.runtime]? = some rst ∧ rst.native = some r ∧ 0 < rst.refs := by
  have hi := Reachable.inv hr
  obtain ⟨i, hgi⟩ := List.mem_iff_getElem?.1 (Reachable.held_mem ht)
  obtain ⟨cb, j, g, -, -, hcall', -, hgj, hwatch, hctx, hseen, hlive⟩ := hi.callback_owner hgi hfire
  rw [Reachable.call hr ht, hcall] at hcall'
  obtain ⟨rfl, rfl, -⟩ := Call.callback.inj hcall'
  rw [List.getElem?_map] at hgj
  obtain ⟨u, hu, rfl⟩ := Option.map_eq_some_iff.1 hgj
  have hmem := List.mem_of_getElem? hu
  rw [Reachable.call hr hmem] at hctx
  obtain ⟨q, hc, -⟩ := Call.request_ctx hctx
  -- the run holds its read lock, and has not freed the options
  have hread := (hi.wf _ (Reachable.held_mem hmem)).watch (by rw [hwatch]; rfl)
  obtain ⟨n, hn, hrun⟩ := Option.map_eq_some_iff.1 hseen
  obtain ⟨s, st, hs, hst, hnat, hread, -⟩ := Reachable.reader hr hmem hn hread
  obtain rfl : q.s = s := by
    rw [Call.request_session hc] at hs
    exact Option.some.inj hs
  have hok := hi.sessions _ st hst
  obtain ⟨st', hst', hsess⟩ := (hi.knows _ (Reachable.held_mem hmem)).session q.s
    (by rw [Reachable.call hr hmem, hs])
  obtain rfl : st = st' := by
    rw [hst] at hst'
    exact Option.some.inj hst'
  have hlive' := (hok.native n hnat).2.2
  obtain ⟨rst, hrst, hrnat⟩ := Option.bind_eq_some_iff.1 hlive'
  rw [hsess] at hrst
  have hlocks := rLocks_eq (Reachable.valid hr hmem) q.s.id
  rw [show protocol.after u.trace (Held.start u.call) = held u from rfl, hread, if_pos rfl] at hlocks
  have hfreed : optionsFreed u.trace = 0 := by
    have hcounts := (Reachable.optionsLog hr hmem hc).counts.2.2
    rw [← watch_eq (Reachable.valid hr hmem),
      show protocol.after u.trace (Held.start u.call) = held u from rfl, hwatch,
      optionsFreed_marked] at hcounts
    by_contra hne
    cases hcounts (Nat.pos_of_ne_zero hne)
  have hacquired := run_acquired hr hmem (by rw [hctx]; rfl) (List.append_nil _).symm
  have hmade : ⟨.nat .createRunOptions, .ok cb.options⟩ ∈ u.trace := by
    apply mem_acquired_options
    rw [hacquired, Multiset.mem_add]
    exact .inr hlive
  exact ⟨u, hmem, q, st, n, rst, hc, hmade, hfreed, hi.option_exists (Reachable.held_get hu) hlive,
    hlocks, hst, hnat, hrun, hrst, by rw [hrnat, hrun],
    hi.counted hrst hst (by rw [hsess]) (by rw [hnat]; rfl)⟩

/-- **The cancellation handle.** -/
theorem cancellation_handle (hr : system.Reachable σ) :
    (∀ t ∈ σ.threads, ∀ o, Terminating t o →
      ∃ u ∈ σ.threads, ∃ (q : Request) (st : SessionSt) (n : OcSession) (rst : RuntimeSt),
        u.call.request = some q ∧ ⟨.nat .createRunOptions, .ok o⟩ ∈ u.trace ∧
        optionsFreed u.trace = 0 ∧ (σ.world.options o).isSome ∧
        rLocks q.s.id u.trace = rUnlocks q.s.id u.trace + 1 ∧
        σ.world.sessions[q.s.id]? = some st ∧ st.native = some n ∧
        σ.world.runtimes[q.s.runtime]? = some rst ∧ rst.native = some n.runtime ∧ 0 < rst.refs ∧
        ∃ id, t.call = .callback n.runtime o id) ∧
    (∀ t ∈ σ.threads, ∀ q, t.call.request = some q →
      optionsMade t.trace ≤ 1 ∧ optionsFreed t.trace ≤ optionsMade t.trace ∧
      OptionsLog q.ctx (marked Op.OnOptions t.trace) ∧
      ∀ ret, t.rest = .ret ret → optionsFreed t.trace = optionsMade t.trace ∧
        OptionsDone q.ctx (marked Op.OnOptions t.trace)) ∧
    ∀ (i : Nat) (t : Goroutine) (id : Nat), σ.threads[i]? = some t →
      t.rest.next = some (.cb (.recvDone id)) →
      ∃ cb, σ.world.callbacks[id]? = some cb ∧
        (cb.state = .finished ∧ system.Enabled σ i ∨
          cb.state = .running ∧ ∃ (j : Nat) (u : Goroutine), σ.threads[j]? = some u ∧
            u.call = .callback cb.r cb.options id ∧ Unfinished u ∧ system.Enabled σ j) := by
  have hi := Reachable.inv hr
  refine ⟨?_, ?_, ?_⟩
  · intro t ht o h
    have hwp := Reachable.wp hr ht
    have hterm : ∃ r id, (held t).call = .callback r o id ∧ (held t).fire = some id := by
      rcases h with ⟨r, h | h⟩ | h
      · obtain ⟨k, hk⟩ := Prog.next_eq.1 h
        rw [hk] at hwp
        exact ⟨r, hwp.1.2⟩
      · rw [← inC_eq (Reachable.valid hr ht)] at h
        exact ⟨r, (hi.wf _ (Reachable.held_mem ht)).inside _ h⟩
      · obtain ⟨k, hk⟩ := Prog.next_eq.1 h
        rw [hk] at hwp
        exact hwp.1.2
    obtain ⟨r, id, hcall, hfire⟩ := hterm
    rw [Reachable.call hr ht] at hcall
    obtain ⟨u, hu, q, st, n, rst, hc, hmade, hfreed, hlive, hlocks, hst, hnat, rfl, hrst, hrnat, hpos⟩ :=
      Reachable.terminated hr ht hcall hfire
    exact ⟨u, hu, q, st, n, rst, hc, hmade, hfreed, hlive, hlocks, hst, hnat, hrst, hrnat, hpos, id,
      hcall⟩
  · intro t ht q hc
    have hlog := Reachable.optionsLog hr ht hc
    have hcounts := hlog.counts
    rw [optionsMade_marked, optionsFreed_marked] at hcounts
    refine ⟨hcounts.1, hcounts.2.1, hlog, ?_⟩
    intro ret hret
    have hdone := Reachable.optionsDone hr ht hc hret
    have hend := hdone.counts
    rw [optionsMade_marked, optionsFreed_marked] at hend
    exact ⟨hend, hdone⟩
  · intro i t id ht hnext
    have hmem := List.mem_of_getElem? ht
    obtain ⟨k, hk⟩ := Prog.next_eq.1 hnext
    have hwp := Reachable.wp hr hmem
    rw [hk] at hwp
    obtain ⟨-, hwatch, hjoin, -⟩ := hwp.1
    obtain ⟨cb, hcb, -, -, -, hstate⟩ := (hi.knows _ (Reachable.held_mem hmem)).watch id hwatch
    have hok := hi.callbacks id cb hcb
    have hpos := holders_pos (Reachable.held_get ht) hwatch
    refine ⟨cb, hcb, ?_⟩
    cases hs : cb.state with
    | registered => exact absurd hs (hstate hjoin)
    | stopped =>
      -- a callback that was kept from starting is no longer watched
      have := hok.watch
      rw [hs] at this
      dsimp only at this
      omega
    | finished =>
      refine .inl ⟨rfl, (enabled_iff hr ht hk).2 ?_⟩
      intro hw
      obtain ⟨cb', hcb', hrun⟩ := hw
      obtain rfl : cb = cb' := by
        rw [hcb] at hcb'
        exact Option.some.inj hcb'
      rw [hs] at hrun
      cases hrun
    | running =>
      refine .inr ⟨rfl, ?_⟩
      have hfire := hok.fire
      rw [hs, if_pos rfl] at hfire
      obtain ⟨j, g, hg, hgf⟩ := exists_holder (f := Held.fire) (l := σ.threads.map held) (x := id)
        (by omega)
      rw [List.getElem?_map] at hg
      obtain ⟨u, hu, rfl⟩ := Option.map_eq_some_iff.1 hg
      have humem := List.mem_of_getElem? hu
      have hun : Unfinished u := by
        intro res hret
        have := (Reachable.ends hr humem hret).idle.fire
        rw [hgf] at this
        cases this
      obtain ⟨r, o, hcall⟩ := (hi.wf _ (Reachable.held_mem humem)).fire id hgf
      obtain ⟨cb', hcb', hr', ho'⟩ := (hi.knows _ (Reachable.held_mem humem)).callback r o id hcall
      obtain rfl : cb = cb' := by
        rw [hcb] at hcb'
        exact Option.some.inj hcb'
      obtain ⟨e, k', hk', hp⟩ := Reachable.next hr humem hun
      rw [Reachable.call hr humem] at hcall
      refine ⟨j, u, hu, by rw [hcall, hr', ho'], hun, (enabled_iff hr hu hk').2 ?_⟩
      exact hi.fire_proceeds (Reachable.held_mem humem) hgf hp

end

open Sample in
theorem cancellation_handle_sample : optionsFreed runner.trace = 1 := by
  obtain ⟨hcall, ret, hret⟩ := runnerDone
  have hc : runner.call.request = some ⟨session true, ctx, [scalar 8192], [], false, fun _ => rfl⟩ := by
    rw [hcall]
    rfl
  have h := (cancellation_handle (System.played_reachable (ran true))).2.1 runner runner_mem _ hc
  have hmade : optionsMade runner.trace = 1 := by decide +kernel
  rw [(h.2.2.2 ret hret).1, hmade]

end Onnxcraft
