import Onnxcraft.Protocol.Outcome

/-!
# The run options of a run

`Reachable.optionsLog`: what a run does with its run options, at any time, is the beginning of one
of two stories. Either they could not be made, or they are made, watched, no longer watched (`stop`,
and `recvDone` when the callback has started) and then freed, once.
-/

namespace Onnxcraft

open Effect

instance : DecidablePred Op.OnOptions := fun e => by
  unfold Op.OnOptions
  split <;> infer_instance

/-- What a run has done with its options `o` when it is about to free them: `id` is the callback that
might use them, `stopped` whether it was kept from starting. -/
def usedOptions (ctx : Ctx) (r : OcRuntime) (o : Handle) (id : Nat) (stopped : Bool) : Trace :=
  [⟨.nat .createRunOptions, .ok o⟩, ⟨.cb (.afterFunc ctx r o), id⟩, ⟨.cb (.stop id), stopped⟩] ++
    if stopped then [] else [⟨.cb (.recvDone id), ()⟩]

/-- The whole life of the options `o`. -/
def freedOptions (ctx : Ctx) (r : OcRuntime) (o : Handle) (id : Nat) (stopped : Bool) : Trace :=
  usedOptions ctx r o id stopped ++ [⟨.enter (.ocRunOptionsFree r), ()⟩, ⟨.nat (.releaseRunOptions o), ()⟩]

/-- The options could not be made. -/
def failedOptions (st : OrtStatus) : Trace := [⟨.nat .createRunOptions, .error st⟩]

/-- What a run may do with its options after what it has done with them. -/
def OptionsMay (ctx : Ctx) : Op → Trace → Prop
  | .nat .createRunOptions, l => l = []
  | .cb (.afterFunc c _ o), l => c = ctx ∧ l = [⟨.nat .createRunOptions, .ok o⟩]
  | .cb (.stop id), l => ∃ r o,
      l = [⟨.nat .createRunOptions, .ok o⟩, ⟨.cb (.afterFunc ctx r o), id⟩]
  | .cb (.recvDone id), l => ∃ r o, l = [⟨.nat .createRunOptions, .ok o⟩,
      ⟨.cb (.afterFunc ctx r o), id⟩, ⟨.cb (.stop id), false⟩]
  | .enter (.ocRunOptionsFree r), l => ∃ o id stopped, l = usedOptions ctx r o id stopped
  | .nat (.releaseRunOptions o), l => ∃ r id stopped,
      l = usedOptions ctx r o id stopped ++ [⟨.enter (.ocRunOptionsFree r), ()⟩]
  | _, _ => False

/-- What a run that has returned has done with its options. -/
def OptionsDone (ctx : Ctx) (l : Trace) : Prop :=
  l = [] ∨ (∃ st, l = failedOptions st) ∨ ∃ r o id stopped, l = freedOptions ctx r o id stopped

/-- The protocol of the run options. -/
def onOptions (ctx : Ctx) : Spec Op Op.Resp Trace := marks Op.OnOptions (OptionsMay ctx)

section
variable {ctx : Ctx} {l : Trace} {α β : Type}

theorem wp_option {e : Op} (he : e.OnOptions) {Q : e.Resp → Trace → Prop} :
    wp (onOptions ctx) (Prog.perform e) Q l ↔ OptionsMay ctx e l ∧ ∀ a, Q a (l ++ [⟨e, a⟩]) :=
  wp_marked he

/-- Code that does not touch the options. -/
theorem wp_apart {p : Act α} (hp : Uses Op.Inner p) {Q : α → Trace → Prop} (hQ : ∀ a, Q a l) :
    wp (onOptions ctx) p Q l :=
  wp_unmarked (hp.mono fun _ h => h.apart) hQ

theorem wp_beside {e : Op} (he : ¬e.OnOptions) {Q : e.Resp → Trace → Prop} (hQ : ∀ a, Q a l) :
    wp (onOptions ctx) (Prog.perform e) Q l :=
  wp_unmarked (.perform he) hQ

/-- `finish`: the options are freed when no callback can use them any more. -/
theorem finish_options {r : OcRuntime} {o : Handle} {id : Nat} :
    wp (onOptions ctx) (finish r o id) (fun _ l' => OptionsDone ctx l')
      [⟨.nat .createRunOptions, .ok o⟩, ⟨.cb (.afterFunc ctx r o), id⟩] := by
  simp only [finish, wp_bind]
  refine (wp_option (e := .cb (.stop id)) (by trivial)).2 ⟨⟨r, o, rfl⟩, fun stopped => ?_⟩
  -- both ways lead to the same point
  have hfree : wp (onOptions ctx) (cgo (.ocRunOptionsFree r) (Bridge.ocRunOptionsFree o))
      (fun _ l' => OptionsDone ctx l') (usedOptions ctx r o id stopped) := by
    simp only [cgo, Bridge.ocRunOptionsFree, wp_bind]
    refine (wp_option (e := .enter (.ocRunOptionsFree r)) (by trivial)).2
      ⟨⟨o, id, stopped, rfl⟩, fun _ => ?_⟩
    refine (wp_option (e := .nat (.releaseRunOptions o)) (by trivial)).2
      ⟨⟨r, id, stopped, rfl⟩, fun _ => ?_⟩
    refine wp_beside (e := .leave (.ocRunOptionsFree r)) not_false fun _ => ?_
    exact .inr (.inr ⟨r, o, id, stopped, by simp [freedOptions]⟩)
  cases stopped with
  | true => exact hfree
  | false => exact (wp_option (e := .cb (.recvDone id)) (by trivial)).2 ⟨⟨r, o, rfl⟩, fun _ => hfree⟩

end

section
variable [Platform] {s : Session} {ctx : Ctx} {inputs outputs : List Tensor} {into : Bool}

omit [Platform] in
/-- `watchContext`: the options are made and watched, or could not be made. -/
theorem watchContext_options {r : Option OcRuntime} :
    wp (onOptions ctx) (watchContext ctx r) (fun res l => match res with
      | .error _ => OptionsDone ctx l
      | .ok (o, fin) => ∃ r id, fin = finish r o id ∧
        l = [⟨.nat .createRunOptions, .ok o⟩, ⟨.cb (.afterFunc ctx r o), id⟩]) [] := by
  cases r with
  | none => exact ⟨fun h => absurd h not_false, fun a => a.elim⟩
  | some r =>
    simp only [watchContext, deref, cgo, Bridge.ocRunOptions, wp_bind, wp_pure]
    refine wp_beside (e := .enter (.ocRunOptions r)) not_false fun _ => ?_
    refine (wp_option (e := .nat .createRunOptions) (by trivial)).2 ⟨rfl, fun a => ?_⟩
    refine wp_beside (e := .leave (.ocRunOptions r)) not_false fun _ => ?_
    cases a with
    | error st =>
      have hread : ∀ f : CFunc, f.Tidy → ∀ {o : NativeOp}, (Op.nat o).Tidy →
          Uses Op.Inner (cgo f (nat o)) := fun f hf o ho =>
        (cgo_uses (A := Op.Tidy) hf hf (.perform ho)).mono fun _ h => h.inner
      simp only [nativeError, deref, wp_bind, wp_pure]
      refine wp_apart (hread _ (by trivial) (by trivial)) fun _ => ?_
      refine wp_apart (hread _ (by trivial) (by trivial)) fun _ => ?_
      exact wp_apart (hread _ (by trivial) (by trivial)) fun _ => .inr (.inl ⟨st, rfl⟩)
    | ok o =>
      simp only [nativeError, wp_bind, wp_pure]
      exact (wp_option (e := .cb (.afterFunc ctx r o)) (by trivial)).2
        ⟨⟨rfl, rfl⟩, fun id => ⟨r, id, rfl, rfl⟩⟩

namespace Session

theorem runPinned_options {descs : List OcTensor} :
    wp (onOptions ctx) (s.runPinned ctx inputs outputs into descs)
      (fun _ l => OptionsDone ctx l) [] := by
  simp only [runPinned, wp_bind]
  refine wp_apart ((UsesCode.forEach fillDescriptor_uses _ _).mono fun _ h => h.inner) ?_
  rintro ⟨⟨descs, index⟩, err | _⟩
  · exact .inl rfl
  simp only [wp_bind]
  refine wp_beside (e := .rt s.runtime .getNative) not_false fun r => ?_
  split
  · simp only [wp_bind]
    refine wp_mono ?_ watchContext_options
    rintro (err | ⟨o, fin⟩) l h
    · exact h
    · obtain ⟨r', id, rfl, rfl⟩ := h
      simp only [wp_deferring]
      exact wp_apart (runNative_uses ..) fun _ => finish_options
  · exact wp_apart (runNative_uses ..) fun _ => .inl rfl

theorem runGated_options :
    wp (onOptions ctx) (s.runGated ctx inputs outputs into) (fun _ l => OptionsDone ctx l) [] := by
  unfold runGated
  split
  · exact .inl rfl
  split
  · exact .inl rfl
  split
  · exact .inl rfl
  · simp only [runBuffered, wp_bind, wp_deferring]
    refine wp_beside (e := .pool .get) not_false fun b => wp_mono ?_ runPinned_options
    intro res l h
    refine wp_beside (e := .mem .unpin) not_false fun _ => ?_
    exact wp_beside (e := .pool (.put _)) not_false fun _ => h

theorem runLocked_options :
    wp (onOptions ctx) (s.runLocked ctx inputs outputs into) (fun _ l => OptionsDone ctx l) [] := by
  simp only [runLocked, wp_bind]
  refine wp_beside (e := .sess s.id .getNative) not_false fun n => ?_
  cases n with
  | none => exact .inl rfl
  | some n =>
  dsimp only
  split
  · simp only [wp_bind]
    refine wp_beside (e := .sess s.id (.gateSelect ctx)) not_false fun sent => ?_
    cases sent with
    | true =>
      simp only [if_true, wp_deferring, wp_bind]
      refine wp_beside (e := .ctxErr ctx) not_false fun e => ?_
      cases e with
      | some e => exact wp_beside (e := .sess s.id .gateRecv) not_false fun _ => .inl rfl
      | none =>
        refine wp_mono ?_ runGated_options
        intro res l h
        exact wp_beside (e := .sess s.id .gateRecv) not_false fun _ => h
    | false =>
      simp only [Bool.false_eq_true, if_false, wp_bind]
      refine wp_beside (e := .ctxErr ctx) not_false fun e => ?_
      cases e <;> exact .inl rfl
  · exact runGated_options

/-- **The run options of a run.** -/
theorem run_options :
    wp (onOptions ctx) (s.run ctx inputs outputs into) (fun _ l => OptionsDone ctx l) [] := by
  simp only [run, wp_bind]
  refine wp_beside (e := .ctxErr ctx) not_false fun e => ?_
  cases e with
  | some e => exact .inl rfl
  | none =>
    simp only [wp_bind, wp_deferring]
    refine wp_beside (e := .sess s.id .rLock) not_false fun _ => wp_mono ?_ runLocked_options
    intro res l h
    exact wp_beside (e := .sess s.id .rUnlock) not_false fun _ => h

end Session

/-! ## Reading a run -/

/-- What a run has done with its options so far. -/
def OptionsLog (ctx : Ctx) (l : Trace) : Prop :=
  (∃ st, l = failedOptions st) ∨ ∃ r o id stopped, l <+: freedOptions ctx r o id stopped

omit [Platform] in
/-- What a run may do continues its story. -/
theorem OptionsMay.log {e : Op} {l : Trace} (h : OptionsMay ctx e l) (a : e.Resp) :
    OptionsLog ctx (l ++ [⟨e, a⟩]) := by
  cases e with
  | nat o =>
    cases o with
    | createRunOptions =>
      obtain rfl : l = [] := h
      cases a with
      | error st => exact .inl ⟨st, rfl⟩
      | ok o => exact .inr ⟨⟨0, none, none, none, none, none, []⟩, o, 0, true, by simp [freedOptions, usedOptions]⟩
    | releaseRunOptions o =>
      obtain ⟨r, id, stopped, rfl⟩ := h
      exact .inr ⟨r, o, id, stopped, by simp [freedOptions]⟩
    | _ => exact h.elim
  | enter f =>
    cases f with
    | ocRunOptionsFree r =>
      obtain ⟨o, id, stopped, rfl⟩ := h
      exact .inr ⟨r, o, id, stopped, by simp [freedOptions]⟩
    | _ => exact h.elim
  | cb o =>
    cases o with
    | afterFunc c r o =>
      obtain ⟨rfl, rfl⟩ := h
      exact .inr ⟨r, o, a, true, by simp [freedOptions, usedOptions]⟩
    | stop id =>
      obtain ⟨r, o, rfl⟩ := h
      exact .inr ⟨r, o, id, a, by simp [freedOptions, usedOptions]⟩
    | recvDone id =>
      obtain ⟨r, o, rfl⟩ := h
      exact .inr ⟨r, o, id, false, by simp [freedOptions, usedOptions]⟩
    | closeDone id => exact h.elim
  | _ => exact h.elim

end

section
variable [Platform] {σ : Global} {t : Goroutine} {q : Request}

/-- What a run does with its options is what it may do after what it has done with them. -/
theorem Reachable.optionsMay (hr : system.Reachable σ) (ht : t ∈ σ.threads)
    (hc : t.call.request = some q) {tr tr' : Trace} {ev : Event Op Op.Resp}
    (htr : t.trace = tr ++ ev :: tr') (hev : ev.1.OnOptions) :
    OptionsMay q.ctx ev.1 (marked Op.OnOptions tr) := by
  obtain ⟨p, hruns, -, -⟩ := Call.request_inv hc (hr.runs t ht)
  rw [htr] at hruns
  exact marks_allowed hruns Session.run_options hev

/-- What a run that has returned has done with its options. -/
theorem Reachable.optionsDone (hr : system.Reachable σ) (ht : t ∈ σ.threads)
    (hc : t.call.request = some q) {ret : Ret} (hret : t.rest = .ret ret) :
    OptionsDone q.ctx (marked Op.OnOptions t.trace) := by
  obtain ⟨p, hruns, -, hend⟩ := Call.request_inv hc (hr.runs t ht)
  obtain ⟨res, rfl, -⟩ := hend ret hret
  exact marks_runs hruns Session.run_options

/-- **What a run has done with its options.** -/
theorem Reachable.optionsLog (hr : system.Reachable σ) (ht : t ∈ σ.threads)
    (hc : t.call.request = some q) : OptionsLog q.ctx (marked Op.OnOptions t.trace) := by
  rcases List.eq_nil_or_concat' (marked Op.OnOptions t.trace) with hnil | ⟨l, ev, hl⟩
  · rw [hnil]
    exact .inr ⟨⟨0, none, none, none, none, none, []⟩, 0, 0, true, List.nil_prefix⟩
  · obtain ⟨tr₁, tr₂, htr, hfirst, hlast⟩ := List.filter_eq_append_iff.1 hl
    obtain ⟨tr₃, tr₄, rfl, hno, hev, hrest⟩ := List.filter_eq_cons_iff.1 hlast
    have hsplit : t.trace = (tr₁ ++ tr₃) ++ ev :: tr₄ := by
      rw [htr, List.append_assoc]
    have hmay := Reachable.optionsMay hr ht hc hsplit (by simpa using hev)
    have hl' : marked Op.OnOptions (tr₁ ++ tr₃) = l := by
      rw [marked_append, show marked Op.OnOptions tr₁ = l from hfirst,
        show marked Op.OnOptions tr₃ = [] from List.filter_eq_nil_iff.2 hno, List.append_nil]
    rw [hl'] at hmay
    rw [hl]
    exact hmay.log ev.2

end

end Onnxcraft
