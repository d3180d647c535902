import Onnxcraft.Protocol.RunLog
import Onnxcraft.Protocol.Trace

/-!
# The outcome of a run

`Reachable.outcome` and `Reachable.may` read the log of a run off any reachable state: a run's
answers are those that its log's protocol allows (`logged_allows`), whatever the other goroutines do.
-/

namespace Onnxcraft

open Effect

section
variable [Platform] {c : Call} {q : Request} {g : Held} {tr : Trace}

omit [Platform] in
theorem Call.request_session (h : c.request = some q) : c.session = some q.s := by
  cases c with
  | run s ctx inputs =>
    obtain rfl := Option.some.inj h
    rfl
  | runInto s ctx outputs inputs =>
    obtain rfl := Option.some.inj h
    rfl
  | _ => cases h

omit [Platform] in
theorem Call.request_ctx {ctx : Ctx} (h : c.ctx = some ctx) : ∃ q, c.request = some q ∧ q.ctx = ctx := by
  cases c with
  | run s ctx' inputs =>
    obtain rfl := Option.some.inj h
    exact ⟨_, rfl, rfl⟩
  | runInto s ctx' outputs inputs =>
    obtain rfl := Option.some.inj h
    exact ⟨_, rfl, rfl⟩
  | _ => cases h

/-- The events of a call of `Run` or `RunInto` are those of its request. -/
theorem Call.request_inv (hc : c.request = some q) {p : Act Ret} (h : Runs c.prog tr p) :
    ∃ p', Runs q.prog tr p' ∧ p.next = p'.next ∧
      ∀ ret, p = .ret ret → ∃ res, p' = .ret res ∧ ret = .ofRun q.into res := by
  cases c with
  | run s ctx inputs =>
    obtain rfl := Option.some.inj hc
    obtain ⟨p', h', rfl⟩ := Runs.map_inv h
    refine ⟨p', h', by simp, fun ret hret => ?_⟩
    obtain ⟨res, rfl, rfl⟩ := Prog.map_eq_ret hret
    exact ⟨res, rfl, rfl⟩
  | runInto s ctx outputs inputs =>
    obtain rfl := Option.some.inj hc
    obtain ⟨p₁, h₁, rfl⟩ := Runs.map_inv h
    obtain ⟨p', h', rfl⟩ := Runs.map_inv
      (show Runs (_ <$> s.run ctx inputs outputs true) tr p₁ from h₁)
    refine ⟨p', h', by simp, fun ret hret => ?_⟩
    obtain ⟨r, hr, rfl⟩ := Prog.map_eq_ret hret
    obtain ⟨res, rfl, rfl⟩ := Prog.map_eq_ret hr
    exact ⟨res, rfl, rfl⟩
  | _ => cases hc

/-- A run that has seen its context done knows it from then on. -/
theorem canceled_upd {e : Op} {a : e.Resp} (henv : e.Env g a)
    (h : g.canceled ∨ cancels ⟨e, a⟩ = true) : (e.upd g a).canceled := by
  cases e with
  | ctxErr c =>
    rcases h with h | h
    · exact henv.2 h
    · exact h
  | sess s o =>
    have hstill : cancels ⟨.sess s o, a⟩ = false → g.canceled := fun hf => by simpa [hf] using h
    cases o with
    | gateSelect c =>
      cases a with
      | true => exact hstill rfl
      | false => rfl
    | _ => exact hstill rfl
  | rt r o =>
    obtain ⟨_, _, _, _, _, _, hupd⟩ := o.upd_shape g r a
    have hupd : (Op.rt r o).upd g a = _ := hupd
    rw [hupd]
    simpa [cancels] using h
  | cb o =>
    obtain ⟨_, _, _, hupd⟩ := o.upd_shape g a
    have hupd : (Op.cb o).upd g a = _ := hupd
    rw [hupd]
    simpa [cancels] using h
  | nat o =>
    have hcan : g.canceled := by simpa [cancels] using h
    clear h
    show (o.upd g a).canceled
    cases o with
    | run =>
      simp only [NativeOp.upd]
      split
      · rfl
      · exact hcan
    | _ => exact hcan
  | pool o =>
    have hcan : g.canceled := by simpa [cancels] using h
    cases o <;> exact hcan
  | fault f => exact a.elim
  | _ =>
    have hcan : g.canceled := by simpa [cancels] using h
    exact hcan

/-- The answers of a run are those its log's protocol allows. -/
theorem logged_allows (hv : protocol.Valid tr (Held.start c)) (hc : c.request = some q) :
    q.logged.Allows tr [] := by
  refine Spec.Valid.allowed (I := fun g l => g.call = c ∧ (l.any cancels → g.canceled)) hv
    ⟨rfl, by simp⟩ ?_
  rintro g l e a ⟨hcall, hl⟩ hp henv
  have hsession := Call.request_session hc
  refine ⟨?_, ((e.changes g a).call).trans hcall, fun hany => ?_⟩
  · show q.Knows e l a
    cases e with
    | sess s o =>
      cases o with
      | getNative =>
        intro n hn
        obtain ⟨s', hs', hfits⟩ := henv.2 n hn
        rw [hcall, hsession, Option.some.injEq] at hs'
        rw [hs']
        exact hfits
      | _ => trivial
    | ctxErr c' => exact fun h => henv.2 (hl h)
    | pool o =>
      cases o with
      | get => exact henv
      | put b => trivial
    | mem o =>
      cases o with
      | load p n => exact henv
      | _ => trivial
    | nat o => exact henv
    | _ => trivial
  · refine canceled_upd henv ?_
    change (if e.Noted then l ++ [⟨e, a⟩] else l).any cancels = true at hany
    split at hany
    · rw [List.any_append, Bool.or_eq_true] at hany
      rcases hany with h | h
      · exact .inl (hl h)
      · exact .inr (by simpa using h)
    · exact .inl (hl hany)

end

section
variable [Platform] {σ : Global} {t : Goroutine} {q : Request}

/-- What a run does is what its protocol allows after what it has done. -/
theorem Reachable.may (hr : system.Reachable σ) (ht : t ∈ σ.threads) (hc : t.call.request = some q)
    {tr tr' : Trace} {ev : Event Op Op.Resp} (htr : t.trace = tr ++ ev :: tr') (hev : ev.1.Noted) :
    q.May ev.1 (marked Op.Noted tr) := by
  obtain ⟨p, hruns, -, -⟩ := Call.request_inv hc (hr.runs t ht)
  have hallows := logged_allows (Reachable.valid hr ht) hc
  rw [htr] at hruns hallows
  exact logs_allowed hruns (run_log q) hallows hev

/-- A run that has entered native execution. -/
theorem Reachable.ready (hr : system.Reachable σ) (ht : t ∈ σ.threads) (hc : t.call.request = some q)
    {ev : Event Op Op.Resp} (hev : ev ∈ t.trace) (hnote : ev.1.note = some .entry) : q.Ready := by
  obtain ⟨pre, post, htr⟩ := List.append_of_mem hev
  have hmay := Reachable.may hr ht hc htr (by simp [Op.Noted, hnote])
  obtain ⟨e, a⟩ := ev
  cases e with
  | enter f =>
    cases f with
    | ocRun n => exact hmay.2.1
    | ocRunInto n => exact hmay.2.1
    | _ => cases hnote
  | mem o => cases o <;> cases hnote
  | nat o => cases o <;> cases hnote
  | sess s o => cases o <;> cases hnote
  | _ => cases hnote

/-- What a run is about to do is what its protocol allows. -/
theorem Reachable.may_next (hr : system.Reachable σ) (ht : t ∈ σ.threads)
    (hc : t.call.request = some q) {e : Op} (he : t.rest.next = some e) (hev : e.Noted) :
    q.May e (marked Op.Noted t.trace) := by
  obtain ⟨p, hruns, hnext, -⟩ := Call.request_inv hc (hr.runs t ht)
  rw [he] at hnext
  obtain ⟨k, rfl⟩ := Prog.next_eq.1 hnext.symm
  have := (wp_runs hruns (run_log q) (logged_allows (Reachable.valid hr ht) hc)).1 hev
  unfold Request.logged at this
  rwa [logs_after, List.nil_append] at this

/-- A run that has returned. -/
theorem Reachable.outcome (hr : system.Reachable σ) (ht : t ∈ σ.threads)
    (hc : t.call.request = some q) {ret : Ret} (hret : t.rest = .ret ret) :
    ∃ res, ret = .ofRun q.into res ∧ q.Outcome res (marked Op.Noted t.trace) := by
  obtain ⟨p, hruns, -, hend⟩ := Call.request_inv hc (hr.runs t ht)
  obtain ⟨res, rfl, hres⟩ := hend ret hret
  refine ⟨res, hres, ?_⟩
  have := wp_finished hruns (run_log q) (logged_allows (Reachable.valid hr ht) hc)
  unfold Request.logged at this
  rwa [logs_after, List.nil_append] at this

end

end Onnxcraft
