import Onnxcraft.Protocol.Progress
import Onnxcraft.Protocol.Reports

/-!
# Native errors

The first status that a call gets is the one it reports: after it the call cleans up, reads its
code and its message, releases it, and returns an error that says the same. No status is lost or
released twice, whatever the answers of ORT and of the C heap.
-/

namespace Onnxcraft

open Effect

section
variable [Platform] {σ : Global} {t : Goroutine}

/-- An answer that is scripted: `strdup` succeeds, and a status has a positive code. -/
def Op.Script : (e : Op) → e.Resp → Prop
  | .nat o, a => o.Script a
  | _, _ => True

instance : (e : Op) → (a : e.Resp) → Decidable (e.Script a)
  | .nat o, a => inferInstanceAs (Decidable (o.Script a))
  | .sess _ _, _ | .rt _ _, _ | .newRuntime _, _ | .newSession _ _ _ _ _, _ | .ctxErr _, _
  | .filepathAbs _, _ | .pool _, _ | .cb _, _ | .mem _, _ | .enter _, _ | .leave _, _ | .fault _, _ =>
    isTrue trivial

def Scripted (tr : Trace) : Prop := ∀ ev ∈ tr, ev.1.Script ev.2

instance (tr : Trace) : Decidable (Scripted tr) :=
  inferInstanceAs (Decidable (∀ ev ∈ tr, ev.1.Script ev.2))

/-- The code or the message of a status is read, or the status is released. -/
def Op.Looks : Op → Prop
  | .nat (.getErrorCode _) | .nat (.getErrorMessage _) | .nat (.releaseStatus _) => True
  | _ => False

instance : DecidablePred Op.Looks := fun e => by
  unfold Op.Looks
  split <;> infer_instance

/-- How a status is reported: its code and its message are read, then it is released. -/
def reporting (st : OrtStatus) : Trace :=
  [⟨.nat (.getErrorCode st), st.code⟩, ⟨.nat (.getErrorMessage st), st.message⟩,
    ⟨.nat (.releaseStatus st), ()⟩]

/-! ## The fate of a status -/

/-- What has been read of the status so far. -/
def Fate.looks : Fate → Trace
  | .fine | .raised _ => []
  | .coded st => (reporting st).take 1
  | .told st => (reporting st).take 2
  | .gone st => reporting st

omit [Platform] in
theorem Fate.looks_prefix {f : Fate} {st : OrtStatus} (h : f.status = some st) :
    f.looks <+: reporting st := by
  cases f with
  | fine => cases h
  | raised st' => exact List.nil_prefix
  | coded st' =>
    obtain rfl := Option.some.inj h
    exact List.take_prefix ..
  | told st' =>
    obtain rfl := Option.some.inj h
    exact List.take_prefix ..
  | gone st' =>
    obtain rfl := Option.some.inj h
    exact List.prefix_rfl

omit [Platform] in
/-- Cleaning up raises no status. -/
theorem NativeOp.Cleanup.status {o : NativeOp} (h : o.Cleanup) (a : o.Resp) : o.status a = none := by
  cases o <;> first | rfl | exact h.elim

/-- An event that raises a status finds none. -/
theorem raises_fine {g : Errors} {x : Event Op Op.Resp} {st : OrtStatus} (hst : raises x = some st)
    (hp : errors.pre x.1 g) : g.Fine := by
  obtain ⟨e, a⟩ := x
  cases e with
  | nat o =>
    refine hp.1 fun hclean => ?_
    rw [show raises ⟨.nat o, a⟩ = none from hclean.status a] at hst
    cases hst
  | _ => cases hst

theorem raises_upd {g : Errors} {x : Event Op Op.Resp} {st : OrtStatus}
    (hst : raises x = some st) : errors.upd x.1 x.2 g = ⟨.raised st, none⟩ := by
  obtain ⟨e, a⟩ := x
  cases e with
  | nat o =>
    have hst : o.status a = some st := hst
    show o.track g a = _
    unfold NativeOp.track
    rw [hst]
    rfl
  | _ => cases hst

/-- What is read of the status is recorded, in order. -/
theorem upd_looks {g : Errors} {x : Event Op Op.Resp} (hp : errors.pre x.1 g)
    (ha : errors.env x.1 g x.2) :
    (errors.upd x.1 x.2 g).fate.looks = g.fate.looks ++ marked Op.Looks [x] := by
  obtain ⟨e, a⟩ := x
  cases e with
  | nat o =>
    have hdue : o.Due g := hp.2
    have hallows : o.Allows a := ha.1
    cases hst : o.status a with
    | some st =>
      have hfine : g.fate = .fine := raises_fine (x := ⟨.nat o, a⟩) hst hp
      have hupd : errors.upd (.nat o) a g = _ := raises_upd (x := ⟨.nat o, a⟩) hst
      rw [hupd, hfine]
      cases o <;> first | rfl | cases hst
    | none =>
      show (o.track g a).fate.looks = _
      unfold NativeOp.track
      rw [hst]
      cases o with
      | getErrorCode st =>
        obtain rfl : a = st.code := hallows
        rw [show g.fate = .raised st from hdue]
        rfl
      | getErrorMessage st =>
        obtain rfl : a = st.message := hallows
        rw [show g.fate = .coded st from hdue]
        rfl
      | releaseStatus st =>
        rw [show g.fate = .told st from hdue]
        rfl
      | _ => exact (List.append_nil _).symm
  | _ => exact (List.append_nil _).symm

/-- A status that has been raised stays the one that is reported. -/
theorem upd_status {g : Errors} {x : Event Op Op.Resp} {st : OrtStatus} (hp : errors.pre x.1 g)
    (h : g.fate.status = some st) : (errors.upd x.1 x.2 g).fate.status = some st := by
  obtain ⟨e, a⟩ := x
  cases e with
  | nat o =>
    have hdue : o.Due g := hp.2
    cases hst : o.status a with
    | some st' =>
      have hfine : g.fate = .fine := raises_fine (x := ⟨.nat o, a⟩) hst hp
      rw [hfine] at h
      cases h
    | none =>
      show (o.track g a).fate.status = _
      unfold NativeOp.track
      rw [hst]
      cases o with
      | getErrorCode st' =>
        rw [show g.fate = .raised st' from hdue] at h
        exact h
      | getErrorMessage st' =>
        rw [show g.fate = .coded st' from hdue] at h
        exact h
      | releaseStatus st' =>
        rw [show g.fate = .told st' from hdue] at h
        exact h
      | _ => exact h
  | _ => exact h

/-- An event that raises no status does not change whether there is one. -/
theorem upd_fine {g : Errors} {x : Event Op Op.Resp} (hp : errors.pre x.1 g)
    (h : (errors.upd x.1 x.2 g).Fine) : g.Fine ∧ raises x = none := by
  refine ⟨?_, ?_⟩
  · cases hg : g.fate.status with
    | none =>
      unfold Errors.Fine
      cases hf : g.fate <;> first | rfl | (rw [hf] at hg; cases hg)
    | some st =>
      have := upd_status hp hg
      rw [show (errors.upd x.1 x.2 g).fate = .fine from h] at this
      cases this
  · cases hst : raises x with
    | none => rfl
    | some st =>
      have hr : (errors.upd x.1 x.2 g).fate = .fine := h
      rw [raises_upd hst] at hr
      cases hr

/-- Without a status nothing has been raised, and nothing read. -/
theorem fine_history {tr : Trace} (hv : errors.Valid tr Errors.start)
    (h : (errors.after tr Errors.start).Fine) :
    (∀ ev ∈ tr, raises ev = none) ∧ marked Op.Looks tr = [] := by
  have hhist := hv.history
    (I := fun tr g => marked Op.Looks tr = g.fate.looks ∧ (g.Fine → ∀ ev ∈ tr, raises ev = none))
    ⟨rfl, by simp⟩ ?_
  · refine ⟨hhist.2 h, ?_⟩
    rw [hhist.1, show (errors.after tr Errors.start).fate = .fine from h]
    rfl
  intro tr g e a hg hp ha
  refine ⟨?_, fun hfine ev hev => ?_⟩
  · rw [marked_append, hg.1]
    exact (upd_looks (x := ⟨e, a⟩) hp ha).symm
  · obtain ⟨hf, hr⟩ := upd_fine (x := ⟨e, a⟩) hp hfine
    rcases List.mem_append.1 hev with hev | hev
    · exact hg.2 hf ev hev
    · rw [List.mem_singleton.1 hev]
      exact hr

/-- After a status has been raised. -/
theorem raised_history {tr : Trace} {st : OrtStatus} (hv : errors.Valid tr ⟨.raised st, none⟩) :
    (∀ ev ∈ tr, ¬ev.1.Proceeds) ∧
      (errors.after tr ⟨.raised st, none⟩).fate.status = some st ∧
      (errors.after tr ⟨.raised st, none⟩).fate.looks = marked Op.Looks tr ∧
      ∀ e, (errors.after tr ⟨.raised st, none⟩).seen = some e →
        ∃ ctx, ⟨.ctxErr ctx, some e⟩ ∈ tr := by
  refine hv.history (I := fun tr g => (∀ ev ∈ tr, ¬ev.1.Proceeds) ∧ g.fate.status = some st ∧
    g.fate.looks = marked Op.Looks tr ∧ ∀ e, g.seen = some e → ∃ ctx, ⟨.ctxErr ctx, some e⟩ ∈ tr)
    ⟨by simp, rfl, rfl, fun e h => by cases h⟩ ?_
  intro tr g e a hg hp ha
  obtain ⟨hclean, hstatus, hlooks, hseen⟩ := hg
  refine ⟨fun ev hev hproceeds => ?_, upd_status (x := ⟨e, a⟩) hp hstatus, ?_, fun x hx => ?_⟩
  · rcases List.mem_append.1 hev with hev | hev
    · exact hclean ev hev hproceeds
    · rw [List.mem_singleton.1 hev] at hproceeds
      rw [show g.fate = .fine from hp.1 hproceeds] at hstatus
      cases hstatus
  · rw [marked_append, ← hlooks]
    exact upd_looks (x := ⟨e, a⟩) hp ha
  · have hold : g.seen = some x → ∃ ctx, ⟨.ctxErr ctx, some x⟩ ∈ tr ++ [⟨e, a⟩] := fun h => by
      obtain ⟨ctx, hctx⟩ := hseen x h
      exact ⟨ctx, List.mem_append_left _ hctx⟩
    cases e with
    | ctxErr c =>
      obtain rfl : a = some x := hx
      exact ⟨c, List.mem_append_right _ (List.mem_singleton_self _)⟩
    | nat o =>
      refine hold ?_
      have hx : (o.track g a).seen = some x := hx
      unfold NativeOp.track at hx
      cases hst : o.status a with
      | some st' =>
        rw [hst] at hx
        cases hx
      | none =>
        rw [hst] at hx
        cases o <;> exact hx
    | _ => exact hold hx

/-! ## Reachable states -/

omit [Platform] in
/-- What a call knows of its context, it has asked it. -/
theorem done_upd (g : Held) (e : Op) (a : e.Resp) (he : ∀ c, e ≠ .ctxErr c) :
    (e.upd g a).done = g.done := by
  cases e with
  | ctxErr c => exact absurd rfl (he c)
  | sess s o =>
    obtain ⟨_, _, _, _, _, _, _, _, _, h⟩ := o.upd_shape g s a
    have h : (Op.sess s o).upd g a = _ := h
    rw [h]
  | rt r o =>
    obtain ⟨_, _, _, _, _, _, h⟩ := o.upd_shape g r a
    have h : (Op.rt r o).upd g a = _ := h
    rw [h]
  | cb o =>
    obtain ⟨_, _, _, h⟩ := o.upd_shape g a
    have h : (Op.cb o).upd g a = _ := h
    rw [h]
  | nat o =>
    obtain ⟨_, _, h⟩ := Held.nat_upd g o a
    have h : (Op.nat o).upd g a = _ := h
    rw [h]
  | pool o => cases o <;> rfl
  | fault => exact a.elim
  | _ => rfl

/-- The answers of a call are those that the protocol of native errors allows. -/
theorem errors_allows {c : Call} {tr : Trace} (hv : protocol.Valid tr (Held.start c))
    (hs : Scripted tr) : errors.Allows tr Errors.start := by
  refine hv.allowed_in (I := fun g h => ∀ e, h.seen = some e → g.done = some e) hs
    (fun e h => by cases h) ?_
  intro g h e a hI hp henv hscript
  have hkept : (∀ c, e ≠ .ctxErr c) → ∀ x, h.seen = some x → (e.upd g a).done = some x :=
    fun he x hx => (done_upd g e a he).trans (hI x hx)
  cases e with
  | nat o =>
    refine ⟨⟨henv, hscript⟩, fun x hx => hkept (fun c h => by cases h) x ?_⟩
    have hx : (o.track h a).seen = some x := hx
    unfold NativeOp.track at hx
    cases hst : o.status a with
    | some st' =>
      rw [hst] at hx
      cases hx
    | none =>
      rw [hst] at hx
      cases o <;> exact hx
  | ctxErr c => exact ⟨fun x hx => henv.1 x (hI x hx), fun x hx => hx⟩
  | _ => exact ⟨trivial, hkept fun c h => by cases h⟩

omit [Platform] in
/-- What a `Close` takes over, and what a call hands over, is no status. -/
theorem takes_status (g : Held) (f : CFunc) (p : Handle) : (g.takes f).count (.status p) = 0 := by
  cases f with
  | ocClose r =>
    cases r with
    | none => rfl
    | some x => exact x.resources_count not_false
  | ocSessionFree n =>
    cases n with
    | none => rfl
    | some n =>
      simp only [Held.takes]
      split
      · exact n.resources_count not_false
      · rfl
  | _ => rfl

/-- A call has released the statuses that it has got, but those it must release. -/
theorem statuses_eq {c : Call} {tr : Trace} (hv : protocol.Valid tr (Held.start c)) (p : Handle) :
    (acquired tr).count (.status p) =
      (released tr).count (.status p) +
        (protocol.after tr (Held.start c)).live.count (.status p) := by
  have hcount : ∀ f : Event Op Op.Resp → Multiset Resource, ∀ l : Trace,
      (total f l).count (.status p) = total (fun ev => (f ev).count (.status p)) l := fun f l => by
    induction l with
    | nil => rfl
    | cons ev l ih => rw [total_cons, total_cons, Multiset.count_add, ih]
  have := hv.balance (f := fun g => g.live.count (.status p)) (I := fun _ => True)
    (a := fun ev => (ev.1.acquires ev.2).count (.status p))
    (b := fun ev => ev.1.releases.count (.status p)) trivial ?_
  · rw [acquired, released, hcount, hcount, ← this]
    exact (add_zero _).symm
  intro g e a _ hp _
  refine ⟨trivial, ?_⟩
  rw [protocol_upd, (e.changes g a).live]
  unfold Held.liveAfter
  cases e with
  | newRuntime n =>
    simp only [Op.acquires, Op.releases, Multiset.count_zero, zero_add, Multiset.count_sub,
      n.resources_count (x := .status p) not_false, tsub_zero]
  | newSession r gated n ins outs =>
    simp only [Op.acquires, Op.releases, Multiset.count_zero, zero_add, Multiset.count_sub,
      n.resources_count (x := .status p) not_false, tsub_zero]
  | enter f =>
    simp only [Op.acquires, Op.releases, Multiset.count_zero, zero_add, Multiset.count_add,
      takes_status]
  | nat o =>
    have hle : o.releases.count (.status p) ≤ g.live.count (.status p) :=
      Multiset.count_le_of_le _ hp.1
    simp only [Op.acquires, Op.releases, Multiset.count_add, Multiset.count_sub]
    omega
  | _ => simp only [Op.acquires, Op.releases, Multiset.count_zero, zero_add]

theorem call_after {c : Call} {tr : Trace} (hv : protocol.Valid tr (Held.start c)) :
    (protocol.after tr (Held.start c)).call = c :=
  (hv.history (I := fun _ g => Along c g) (.start c) fun _ _ _ _ hg hp _ => hg.step hp).call

/-- **Native errors.** Every status that a finished call has got it has released. The first status
that a call gets is the only one: what follows is cleanup, in which its code and its message are
read before it is released, and the call returns an error that says the same, or that of its
context. -/
theorem native_errors (hr : system.Reachable σ) (ht : t ∈ σ.threads) :
    (∀ p ret, t.rest = .ret ret →
      (released t.trace).count (.status p) = (acquired t.trace).count (.status p)) ∧
    (t.call.MayFail → Scripted t.trace →
      (∀ tr ev tr' st, t.trace = tr ++ ev :: tr' → raises ev = some st →
        (∀ ev' ∈ tr, raises ev' = none) ∧ marked Op.Looks tr = [] ∧
        (∀ ev' ∈ tr', ¬ev'.1.Proceeds ∧ raises ev' = none) ∧
        marked Op.Looks tr' <+: reporting st ∧
        ∀ ret, t.rest = .ret ret → marked Op.Looks tr' = reporting st ∧
          ∃ err, ret.error = some err ∧ (err.asNative = some ⟨st.code, st.message⟩ ∨
            ∃ ctx e, t.call.ctx = some ctx ∧ err = .ctx e ∧ ⟨.ctxErr ctx, some e⟩ ∈ tr')) ∧
      ∀ ret, t.rest = .ret ret → ret.error = none → ∀ ev ∈ t.trace, raises ev = none) := by
  have hv := Reachable.valid hr ht
  refine ⟨fun p ret hret => ?_, fun hc hs => ?_⟩
  · have hlive : (protocol.after t.trace (Held.start t.call)).live = 0 :=
      (Reachable.ends hr ht hret).idle.live
    rw [statuses_eq hv p, hlive, Multiset.count_zero, add_zero]
  have hallows := errors_allows hv hs
  have hvalid : errors.Valid t.trace Errors.start :=
    wp_valid (hr.runs t ht) (prog_reports hc) hallows
  -- how a call that has returned has ended
  have hends : ∀ ret, t.rest = .ret ret →
      ret.error.elim (errors.after t.trace Errors.start).Fine
        (errors.after t.trace Errors.start).Reports := fun ret hret =>
    wp_finished (hret ▸ hr.runs t ht) (prog_reports hc) hallows
  refine ⟨fun tr ev tr' st htr hst => ?_, fun ret hret hok => ?_⟩
  · rw [htr] at hvalid hends
    obtain ⟨htr₀, hev, htr'⟩ := Spec.valid_append.1 hvalid
    obtain ⟨hnone, hunread⟩ := fine_history htr₀ (raises_fine hst hev.1)
    rw [raises_upd hst] at htr'
    obtain ⟨hclean, hstatus, hlooks, hseen⟩ := raised_history htr'
    have hafter : errors.after (tr ++ ev :: tr') Errors.start =
        errors.after tr' ⟨.raised st, none⟩ := by
      rw [after_append, show ev :: tr' = [ev] ++ tr' from rfl, after_append, after_single,
        raises_upd hst]
    refine ⟨hnone, hunread, fun ev' hev' => ⟨hclean ev' hev', ?_⟩, ?_, fun ret hret => ?_⟩
    · obtain ⟨e, a⟩ := ev'
      cases e with
      | nat o =>
        have hcl : o.Cleanup := not_not.1 (hclean _ hev')
        exact hcl.status a
      | _ => rfl
    · rw [← hlooks]
      exact Fate.looks_prefix hstatus
    · have hend := hends ret hret
      rw [hafter] at hend
      cases herr : ret.error with
      | none =>
        rw [herr] at hend
        rw [show (errors.after tr' ⟨.raised st, none⟩).fate = .fine from hend] at hstatus
        cases hstatus
      | some err =>
        rw [herr] at hend
        rcases hend with hfine | ⟨st', hover, hreport⟩
        · rw [show (errors.after tr' ⟨.raised st, none⟩).fate = .fine from hfine] at hstatus
          cases hstatus
        rw [hover] at hstatus hlooks
        obtain rfl : st' = st := Option.some.inj hstatus
        refine ⟨hlooks.symm, err, rfl, hreport.imp id ?_⟩
        intro h
        obtain ⟨e, rfl, he⟩ := h
        obtain ⟨ctx, hctx⟩ := hseen e he
        refine ⟨ctx, e, ?_, rfl, hctx⟩
        obtain ⟨mid, post, rfl⟩ := List.append_of_mem hctx
        rw [htr, show tr ++ ev :: (mid ++ ⟨.ctxErr ctx, some e⟩ :: post) =
          (tr ++ ev :: mid) ++ ⟨.ctxErr ctx, some e⟩ :: post by simp] at hv
        have hasks : (protocol.after (tr ++ ev :: mid) (Held.start t.call)).call.ctx = some ctx :=
          hv.pre
        rwa [call_after hv.init] at hasks
  · have hend := hends ret hret
    rw [hok] at hend
    exact (fine_history hvalid hend).1

end

namespace Sample

/-- ORT's `Run` fails. -/
def refuse (σ : Global) (i : Nat) (e : Op) : Option e.Resp :=
  match e with
  | .nat (.run _ _ _ _ _ _) => some ⟨some ⟨900, 1, ascii "bad"⟩, [none], false, []⟩
  | e => reply σ i e

def refused : List Cue :=
  loaded false ++ [.start (.run (session false) ctx [scalar 8192]), .steps 2 36 refuse]

/-- The run that ORT fails. -/
def failed : Goroutine := (system.played refused).threads.get ⟨2, by decide +kernel⟩

/-- The answer of ORT's `Run`. -/
def blamed : Event Op Op.Resp := failed.trace.get ⟨13, by decide +kernel⟩

theorem failed_mem : failed ∈ (system.played refused).threads := List.get_mem _ _

theorem blamed_mem : blamed ∈ failed.trace := List.get_mem _ _

def failedDone : Returned failed (.run (session false) ctx [scalar 8192]) := .of (by decide +kernel)

end Sample

open Sample in
theorem native_errors_sample : ∃ ret err, failed.rest = .ret ret ∧ ret.error = some err ∧
    (err.asNative = some ⟨1, ascii "bad"⟩ ∨
      ∃ c e, err = .ctx e ∧ ⟨.ctxErr c, some e⟩ ∈ failed.trace) := by
  obtain ⟨hcall, ret, hret⟩ := failedDone
  obtain ⟨tr, tr', htr⟩ := List.append_of_mem blamed_mem
  have hfirst := ((native_errors (System.played_reachable refused) failed_mem).2
    (by rw [hcall]; trivial) (by decide +kernel)).1
  obtain ⟨-, err, herr, hreport⟩ :=
    (hfirst tr blamed tr' ⟨900, 1, ascii "bad"⟩ htr (by decide +kernel)).2.2.2.2 ret hret
  refine ⟨ret, err, hret, herr, hreport.imp id ?_⟩
  intro h
  obtain ⟨c, e, -, he, hmem⟩ := h
  exact ⟨c, e, he, by rw [htr]; simp [hmem]⟩

end Onnxcraft
