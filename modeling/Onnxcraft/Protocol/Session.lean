import Onnxcraft.Protocol.Run
import Onnxcraft.Protocol.Runtime
import Onnxcraft.Tensor.Size

/-!
# The functions of session.go keep the protocol

`run_spec`, `close_spec` and `callback_spec`: on every path the locks, the gate's token, the run
options, the descriptor buffer and every native object are given back, in an order that the
protocol allows; a run that ORT has aborted returns its context's error.
-/

namespace Onnxcraft

open Effect

section
variable [Platform] {g : Held} {L : Multiset Resource}

namespace Held

/-- `g` later in the same run. -/
@[simps] def later (g : Held) (p : Phase) (c : Bool) (d : Option CtxError) (a : Bool) : Held :=
  { g with phase := p, canceled := c, done := d, aborted := a }

/-- `g` in another phase. -/
@[simps] def inPhase (g : Held) (p : Phase) : Held := { g with phase := p }

/-- The call is a run of `s` that has found the native session `n` under the read lock. -/
structure Running (g : Held) (s : Session) (ctx : Ctx) (n : OcSession) : Prop where
  session : g.call.session = some s
  ctx : g.call.ctx = some ctx
  read : g.read = some s.id
  seen : g.seen = some n
  fits : n.Matches s.inputs s.outputs
  inC : g.inC = none
  mu : g.mu = none
  rt : g.rt = none
  gate : s.gated → g.gate.isSome

variable {s : Session} {ctx : Ctx} {n : OcSession}

theorem Running.withLive (h : g.Running s ctx n) : (g.withLive L).Running s ctx n :=
  ⟨h.session, h.ctx, h.read, h.seen, h.fits, h.inC, h.mu, h.rt, h.gate⟩

theorem Running.runtime (h : g.Running s ctx n) : g.runtime = some n.runtime := by
  simp [Held.runtime, h.rt, h.seen]

theorem Running.later (h : g.Running s ctx n) {p : Phase} {c : Bool} {d : Option CtxError}
    {a : Bool} : (g.later p c d a).Running s ctx n :=
  ⟨h.session, h.ctx, h.read, h.seen, h.fits, h.inC, h.mu, h.rt, h.gate⟩

end Held

/-- A run that ORT has aborted reports its context's error. -/
def Reports (res : Except GoError (List Tensor)) (g : Held) : Prop :=
  g.aborted → ∃ e, g.done = some e ∧ res = .error (.ctx e)

namespace Session

variable {s : Session} {ctx : Ctx} {n : OcSession}

/-! ## Results -/

/-- Go memory is touched only after the native call. -/
theorem wp_mem {o : MemOp} {Q : o.Resp → Held → Prop} (hp : g.phase = .after)
    (hQ : ∀ a, Q a g) : wp protocol (mem o) Q g := by
  refine ⟨?_, fun a _ => ?_⟩
  · cases o <;> first | exact hp | trivial
  · cases o <;> exact hQ a

/-- One output: it is copied, or rejected. -/
theorem collectOutput_spec {output : OcTensor} (ho : output.Ranked) (hp : g.phase = .after)
    {result : List Tensor} :
    wpc protocol (collectOutput output) (fun _ _ g' => g' = g) result g := by
  simp only [collectOutput, wpc_bind, wpc_lift]
  rw [toInt_eq ho.2]
  refine wp_goSlice ho.1.le ?_
  split
  · rfl
  next length hlength =>
  obtain ⟨-, h0, hmax⟩ := tensorSize_bounds (DataType.size_nonneg _) hlength
  rw [wrapInt_eq h0 hmax]
  simp only [wpc_bind, wpc_get]
  split
  · rfl
  rw [if_neg (Int.not_lt.2 (words_nonneg h0 hmax))]
  simp only [wpc_bind, wpc_lift, wpc_pure, wpc_modify]
  exact wp_mem hp fun _ => wp_mem hp fun _ => wp_mem hp fun _ => rfl

/-- The status of a run, NULL or not. -/
theorem nativeError_status {r : OcRuntime} (hr : g.runtime = some r) (hin : g.inC = none)
    {status : Option OrtStatus} :
    wp protocol (nativeError (some r)
        (match status with | none => .ok () | some status => .error status : Fallible Unit))
      (fun res g' => (res.isOk → status = none) ∧ g' = g.withLive L)
      (g.withLive (owned (.status ·.addr) status + L)) := by
  cases status with
  | none =>
    rw [owned_none, zero_add]
    exact ⟨fun _ => rfl, rfl⟩
  | some st =>
    refine wp_mono ?_ (nativeError_error hr hin)
    rintro _ _ ⟨rfl, rfl⟩
    exact ⟨nofun, rfl⟩

/-- `run` after the native call. -/
theorem collect_spec (hg : g.Running s ctx n) (hp : g.phase = .after)
    (ha : g.aborted → g.canceled) {into : Bool} {status : Option OrtStatus} {outs : List OcTensor}
    (houts : status = none → ∀ t ∈ outs, t.Ranked) :
    wp protocol (collect ctx (some n.runtime) into status outs)
      (fun res g' => ∃ c d, g' = (g.later .after c d g.aborted).withLive L ∧ Reports res g')
      (g.withLive (owned (.status ·.addr) status + L)) := by
  simp only [collect, wp_bind]
  refine wp_mono ?_ (nativeError_status hg.runtime hg.inC)
  rintro err _ ⟨hok, rfl⟩
  refine wp_ctxErr.2 ⟨hg.ctx, ?_⟩
  rintro (_ | e) ⟨hdone, hcanceled⟩
  · have hna : g.aborted = false := by
      cases h : g.aborted with
      | false => rfl
      | true => exact absurd (hcanceled (ha h)) (by simp)
    have hend : ∀ res : Except GoError (List Tensor), ∃ c d,
        ({ g.withLive L with canceled := false, done := none } : Held) =
          (g.later .after c d g.aborted).withLive L ∧
        Reports res { g.withLive L with canceled := false, done := none } := fun res =>
      ⟨false, none, by simp only [Held.later, Held.withLive, hp], fun h => by
        rw [show ({ g.withLive L with canceled := false, done := none } : Held).aborted =
          g.aborted from rfl, hna] at h
        exact nomatch h⟩
    rcases err with err | _
    · exact hend _
    dsimp only
    split
    · exact hend _
    simp only [wp_bind, wp_code]
    refine wpc_forEach (fun _ _ g' => g' = { g.withLive L with canceled := false, done := none })
      ?_ ?_ rfl
    · rintro _ output _ _ _ hsplit rfl
      refine wpc_mono ?_ (collectOutput_spec (houts (hok rfl) output (by simp [hsplit]))
        (by exact hp))
      rintro (err | _) _ _ rfl
      · exact hend _
      · rfl
    · rintro _ _ rfl
      exact hend _
  · simp only [wp_bind]
    refine wp_ctxErr.2 ⟨hg.ctx, fun e' he' => ?_⟩
    obtain rfl : e' = some e := he'.1 e rfl
    exact ⟨true, some e, by simp only [Held.later, Held.withLive, hp, Option.isSome], fun _ => ⟨e, rfl, rfl⟩⟩

/-! ## The native call -/

/-- Reading `native` again under the read lock. -/
theorem wp_getNative (hg : g.Running s ctx n) {Q : Option OcSession → Held → Prop}
    (hQ : Q (some n) g) : wp protocol (sess s.id .getNative) Q g := by
  refine wp_sess.2 ⟨⟨hg.inC, by rw [hg.session]; rfl, .inl hg.read⟩, fun a ha => ?_⟩
  obtain rfl : a = some n := ha.1 n hg.seen
  have : SessOp.upd g s.id .getNative (some n) = g := by
    show ({ g with seen := some n } : Held) = g
    rw [← hg.seen]
  rwa [this]

/-- A call of `oc_run` or `oc_run_into`. -/
theorem wp_cgo_run {α : Type} {f : CFunc} {body : Act α} {Q : α → Held → Prop}
    (hf : f = .ocRun n ∨ f = .ocRunInto n) (hg : g.Running s ctx n) (hp : g.phase = .before)
    (h : wp protocol body (fun a g' => ∃ b L',
        g' = (((g.within f).inPhase .native).ran b).withLive L' ∧
        Q a (((g.inPhase .after).ran b).withLive L'))
      (((g.within f).inPhase .native).withLive L)) :
    wp protocol (cgo f body) Q (g.withLive L) := by
  have hmay : (g.withLive L).MayEnter f := by
    rcases hf with rfl | rfl <;>
      exact ⟨hg.seen, by simp [hg.read], hp, fun s' hs' hgated => by
        obtain rfl : s = s' := by simpa [hg.session] using hs'
        exact hg.gate hgated⟩
  simp only [cgo, wp_bind, wp_perform, wp_pure, protocol_pre, protocol_env, protocol_upd]
  refine ⟨⟨by simpa using hg.inC, hmay⟩, fun _ _ => ?_⟩
  have he : (Op.enter f).upd (g.withLive L) () = ((g.within f).inPhase .native).withLive L := by
    rcases hf with rfl | rfl <;>
      simp [Op.upd, Held.enterPhase, Held.takes, Held.shuts, Held.frees, Held.withLive, Held.within,
        Held.inPhase]
  rw [he]
  refine wp_mono ?_ h
  rintro a _ ⟨b, L', rfl, hQ⟩
  refine ⟨by cases b <;> rfl, fun _ _ => ?_⟩
  have hl : (Op.leave f).upd ((((g.within f).inPhase .native).ran b).withLive L') () =
      ((g.inPhase .after).ran b).withLive L' := by
    rcases hf with rfl | rfl <;> cases b <;>
      simp [Op.upd, Held.leavePhase, Held.ran, Held.shuts, Held.frees, Held.withLive, Held.within,
        Held.inPhase, hg.inC]
  rw [hl]
  exact hQ

/-- The outputs are freed when the results have been copied. -/
theorem wp_outputsFree (hg : g.Running s ctx n) (hp : g.phase = .after) {outs : List OcTensor}
    (hlen : outs.length = n.outputs) {Q : Unit → Held → Prop}
    (hQ : Q () ((g.inPhase .freeing).withLive L)) :
    wp protocol (cgo (.ocOutputsFree n) do let _ ← Bridge.ocOutputsFree n outs) Q
      (g.withLive (outputValues outs + L)) := by
  have hmay : (g.withLive (outputValues outs + L)).MayEnter (.ocOutputsFree n) :=
    ⟨hg.seen, by simp [hg.read], hp⟩
  simp only [cgo, wp_bind, wp_perform, wp_pure, protocol_pre, protocol_env, protocol_upd]
  refine ⟨⟨by simpa using hg.inC, hmay⟩, fun _ _ => ?_⟩
  have he : (Op.enter (.ocOutputsFree n)).upd (g.withLive (outputValues outs + L)) () =
      ((g.within (.ocOutputsFree n)).inPhase .freeing).withLive (outputValues outs + L) := by
    simp [Op.upd, Held.enterPhase, Held.takes, Held.shuts, Held.frees, Held.withLive, Held.within,
        Held.inPhase]
  rw [he]
  refine wp_mono ?_ (Bridge.ocOutputsFree_spec (.inr rfl) hlen)
  rintro _ _ ⟨-, rfl⟩
  refine ⟨rfl, fun _ _ => ?_⟩
  have hl : (Op.leave (.ocOutputsFree n)).upd
      (((g.within (.ocOutputsFree n)).inPhase .freeing).withLive L) () =
      (g.inPhase .freeing).withLive L := by
    simp [Op.upd, Held.leavePhase, Held.shuts, Held.frees, Held.withLive, Held.within, Held.inPhase,
      hg.inC]
  rw [hl]
  exact hQ

/-- What a part of a run ends with: everything it has acquired is released, and the error of an
aborted run is reported. -/
def Finishes (g : Held) (L : Multiset Resource) (res : Except GoError (List Tensor)) (g' : Held) :
    Prop :=
  ∃ p c d a, g' = (g.later p c d a).withLive L ∧ Reports res g'

theorem runArgs (hg : g.Running s ctx n) {descriptors : List OcTensor}
    (hlen : descriptors.length = s.inputs.length + s.outputs.length)
    (hnone : ∀ t ∈ descriptors, t.value = none) (into : Bool) :
    Bridge.RunArgs n descriptors
      (if into then some (descriptors.drop s.inputs.length) else none)
      (if into then none else some (descriptors.drop s.inputs.length)) where
  either := by cases into <;> rfl
  bound := by
    rw [hg.fits.inputs, hg.fits.outputs]
    exact Nat.mod_eq_of_lt hg.fits.bound
  names := by
    obtain ⟨ports, names, -, hnames, hinfo, hns, -⟩ := hg.fits.ports
    have := congrArg List.length hinfo
    simp only [List.length_map, List.length_append] at this
    exact ⟨names, hnames, by rw [hns, List.length_map, this, hg.fits.inputs, hg.fits.outputs]⟩
  inputs := by rw [hg.fits.inputs]; omega
  preallocated := by
    cases into <;> rintro _ ⟨⟩
    simp [hlen, hg.fits.outputs]
  outputs := by
    cases into <;> rintro _ ⟨⟩
    exact ⟨by simp [hlen, hg.fits.outputs], fun t ht => hnone t (List.mem_of_mem_drop ht)⟩

/-- `run` from the native call on. -/
theorem runNative_spec (hg : g.Running s ctx n) (hp : g.phase = .before) (ha : g.aborted = false)
    {options : Option Handle} (hopt : ∀ o, options = some o → .runOptions o ∈ L) {into : Bool}
    {descriptors : List OcTensor} (hlen : descriptors.length = s.inputs.length + s.outputs.length)
    (hnone : ∀ t ∈ descriptors, t.value = none) :
    wp protocol (s.runNative ctx (some n.runtime) options into descriptors)
      (fun res g' => Finishes g L res g' ∧ g'.phase ≠ .before) (g.withLive L) := by
  have hpos := hg.fits.pos
  have hargs := runArgs hg hlen hnone into
  have hrunning : ∀ b, ((g.inPhase .after).ran b).Running s ctx n := by
    rintro (_ | _) <;>
      exact ⟨hg.session, hg.ctx, hg.read, hg.seen, hg.fits, hg.inC, hg.mu, hg.rt, hg.gate⟩
  have hphase : ∀ b, ((g.inPhase .after).ran b).phase = .after := by
    rintro (_ | _) <;> rfl
  have haborted : ∀ b, ((g.inPhase .after).ran b).aborted →
      ((g.inPhase .after).ran b).canceled := by
    rintro (_ | _)
    · simp [Held.ran, ha]
    · simp [Held.ran]
  have hlater : ∀ b p c d, ((g.inPhase .after).ran b).later p c d
      ((g.inPhase .after).ran b).aborted = g.later p c d
      ((g.inPhase .after).ran b).aborted := by
    rintro (_ | _) p c d <;> rfl
  unfold runNative
  rw [if_neg (by omega)]
  simp only [wp_bind]
  refine wp_getNative hg.withLive (wp_deref rfl ?_)
  cases into
  · simp only [Bool.false_eq_true, if_false, wp_bind] at hargs ⊢
    refine wp_cgo_run (.inl rfl) hg hp ?_
    simp only [Bridge.ocRun, wp_bind, wp_pure]
    refine wp_mono ?_ (Bridge.run_spec hargs rfl (by simp [hg.ctx]) hopt)
    rintro ⟨status, outs⟩ _ hres
    obtain ⟨o, b, rfl, hlen', hranked, rfl⟩ := hres.given
    refine wp_deref rfl ⟨b, _, rfl, ?_⟩
    simp only [wp_deferring]
    refine wp_getNative (hrunning b).withLive (wp_deref rfl ?_)
    refine wp_mono ?_ (collect_spec (hrunning b) (hphase b) (haborted b) hranked)
    rintro res _ ⟨c, d, rfl, hreports⟩
    refine wp_outputsFree (hrunning b).later rfl hlen'
      ⟨⟨.freeing, c, d, ((g.inPhase .after).ran b).aborted, ?_, hreports⟩, fun h => (by cases h)⟩
    rw [← hlater b]
    rfl
  · simp only [if_true, wp_bind] at hargs ⊢
    refine wp_cgo_run (.inr rfl) hg hp ?_
    simp only [Bridge.ocRunInto, wp_bind, wp_pure]
    refine wp_mono ?_ (Bridge.run_spec hargs rfl (by simp [hg.ctx]) hopt)
    rintro ⟨status, outs⟩ _ hres
    obtain ⟨b, rfl⟩ := hres.none
    refine ⟨b, _, rfl, ?_⟩
    refine wp_mono ?_ (collect_spec (hrunning b) (hphase b) (haborted b) fun _ t ht => (by cases ht))
    rintro res _ ⟨c, d, rfl, hreports⟩
    exact ⟨⟨.after, c, d, ((g.inPhase .after).ran b).aborted, by rw [← hlater b], hreports⟩, fun h => (by cases h)⟩

end Session

/-! ## Cancellation -/

namespace Held

/-- `g` with the callback `id` registered, or with none. -/
@[simps] def watching (g : Held) (id : Option Nat) : Held :=
  { g with watch := id, joining := false }

theorem Running.watching {s : Session} {ctx : Ctx} {n : OcSession} (h : g.Running s ctx n)
    {id : Option Nat} : (g.watching id).Running s ctx n :=
  ⟨h.session, h.ctx, h.read, h.seen, h.fits, h.inC, h.mu, h.rt, h.gate⟩

end Held

section
variable {s : Session} {ctx : Ctx} {n : OcSession}

theorem wp_releaseRunOptions {o : Handle} (hw : g.watch = none) {Q : Unit → Held → Prop}
    (hQ : Q () (g.withLive L)) :
    wp protocol (nat (.releaseRunOptions o)) Q (g.withLive ({.runOptions o} + L)) := by
  refine ⟨⟨Multiset.le_add_right _ _, hw⟩, fun _ _ => ?_⟩
  show Q () (g.withLive (0 + ({.runOptions o} + L - {.runOptions o})))
  rwa [add_tsub_cancel_left, zero_add]

/-- `finish` frees the options once the callback cannot use them any more. -/
theorem finish_spec (hg : g.Running s ctx n) (hp : g.phase ≠ .before) {o : Handle} {id : Nat} :
    wp protocol (finish n.runtime o id) (fun _ g' => g' = (g.watching none).withLive L)
      ((g.watching (some id)).withLive ({.runOptions o} + L)) := by
  have hfree : wp protocol (cgo (.ocRunOptionsFree n.runtime) (Bridge.ocRunOptionsFree o))
      (fun _ g' => g' = (g.watching none).withLive L)
      ((g.watching none).withLive ({.runOptions o} + L)) :=
    wp_cgo (by trivial) hg.inC ⟨hg.watching.runtime, rfl⟩
      (wp_releaseRunOptions rfl ⟨L, rfl, rfl⟩)
  simp only [finish, wp_bind]
  refine wp_cb.2 ⟨⟨hg.inC, rfl, rfl⟩, ?_⟩
  rintro (_ | _)
  · exact wp_cb.2 ⟨⟨hg.inC, rfl, rfl, hp⟩, fun _ => hfree⟩
  · exact hfree

/-- `watchContext` makes the options and registers the callback, or fails and leaves nothing. -/
theorem watchContext_spec (hg : g.Running s ctx n) (hc : ctx.cancelable) (hw : g.watch = none) :
    wp protocol (watchContext ctx (some n.runtime))
      (fun res g' => match res with
        | .ok (o, fin) => ∃ id, fin = finish n.runtime o id ∧
          g' = (g.watching (some id)).withLive ({.runOptions o} + L)
        | .error _ => g' = g.withLive L) (g.withLive L) := by
  simp only [watchContext, wp_bind]
  refine wp_deref rfl (wp_cgo (by trivial) hg.inC hg.runtime ?_)
  refine wp_mono ?_ (wp_native (by trivial) rfl)
  rintro (st | o) _ rfl
  · refine ⟨_, rfl, wp_mono ?_ (nativeError_error hg.runtime hg.inC)⟩
    rintro _ _ ⟨rfl, rfl⟩
    rfl
  · refine ⟨_, rfl, ?_⟩
    simp only [nativeError, wp_pure, wp_bind]
    refine wp_cb.2 ⟨⟨hg.inC, hg.ctx, hc, hw, by simp [hg.read], by simp [hg.seen],
      Multiset.mem_add.2 (.inl (Multiset.mem_singleton_self _))⟩, fun id => ?_⟩
    exact ⟨id, rfl, rfl⟩

end

namespace Session

variable {s : Session} {ctx : Ctx} {n : OcSession}

/-- Pinning needs nothing. -/
theorem wp_pin {p : Act Unit}
    (hp : (∃ t, p = mem (.pinShape t)) ∨ (∃ a, p = mem (.pin a)) ∨ p = mem .unpin)
    {Q : Unit → Held → Prop} (hQ : Q () g) : wp protocol p Q g := by
  rcases hp with ⟨t, rfl⟩ | ⟨a, rfl⟩ | rfl <;> exact ⟨trivial, fun _ _ => hQ⟩

theorem wpc_pin {σ : Type} {c : Prop} [Decidable c] {p : Act Unit}
    (hp : (∃ t, p = mem (.pinShape t)) ∨ (∃ a, p = mem (.pin a)) ∨ p = mem .unpin) {v : σ}
    {Q : Except GoError Unit → σ → Held → Prop} (hQ : Q (.ok ()) v g) :
    wpc protocol (if c then pure () else .lift p) Q v g := by
  split
  · exact hQ
  · rw [wpc_lift]
    exact wp_pin hp hQ

/-- One tensor: its descriptor holds no value. -/
theorem fillDescriptor_spec {t : Tensor} {st : List OcTensor × Nat} (hi : st.2 < st.1.length)
    (hnone : ∀ t ∈ st.1, t.value = none) :
    wpc protocol (fillDescriptor t)
      (fun res st' g' => g' = g ∧ (res.isOk → st'.2 = st.2 + 1 ∧ st'.1.length = st.1.length ∧
        ∀ t ∈ st'.1, t.value = none)) st g := by
  simp only [fillDescriptor, wpc_bind, wpc_get]
  split
  · exact ⟨rfl, fun h => (by cases h)⟩
  simp only [wpc_bind, wpc_lift, wpc_modify]
  refine wpc_pin (.inl ⟨_, rfl⟩) (wpc_pin (.inr (.inl ⟨_, rfl⟩)) ?_)
  refine wp_wr hi ⟨rfl, fun _ => ⟨trivial, by simp, fun t' ht' => ?_⟩⟩
  rcases mem_set_cases ht' with rfl | ht'
  · rfl
  · exact hnone t' ht'

/-- `run` once the descriptor buffer is to be put back. -/
theorem runPinned_spec (hg : g.Running s ctx n) (hp : g.phase = .before) (ha : g.aborted = false)
    (hw : g.watch = none) (hj : g.joining = false) {inputs outputs : List Tensor} {into : Bool}
    {descriptors : List OcTensor} (hlen : descriptors.length = s.inputs.length + s.outputs.length)
    (hcount : (inputs ++ outputs).length ≤ descriptors.length)
    (hnone : ∀ t ∈ descriptors, t.value = none) :
    wp protocol (s.runPinned ctx inputs outputs into descriptors) (Finishes g L) (g.withLive L) := by
  have hstay : ∀ err, Finishes g L (.error err) (g.withLive L) := fun err =>
    ⟨g.phase, g.canceled, g.done, g.aborted, rfl, fun h => by
      rw [Held.withLive_aborted, ha] at h
      exact nomatch h⟩
  simp only [runPinned, wp_bind, wp_code]
  refine wpc_forEach (fun done st g' => st.2 = done.length ∧
    st.1.length = s.inputs.length + s.outputs.length ∧ (∀ t ∈ st.1, t.value = none) ∧
    g' = g.withLive L) ?_ ?_ ⟨rfl, hlen, hnone, rfl⟩
  · rintro done t rest st _ hsplit ⟨hi, hl, hnone', rfl⟩
    have hlt : st.2 < st.1.length := by
      have := congrArg List.length hsplit
      simp only [List.length_append, List.length_cons] at this hcount
      omega
    refine wpc_mono ?_ (fillDescriptor_spec hlt hnone')
    rintro (err | _) st' _ ⟨rfl, h⟩
    · exact hstay err
    · obtain ⟨hi', hl', hn'⟩ := h rfl
      exact ⟨by simp [hi', hi], hl'.trans hl, hn', rfl⟩
  rintro st _ ⟨-, hl, hn, rfl⟩
  simp only [wp_bind]
  refine wp_rt.2 ⟨⟨hg.inC, .inr ⟨by simp [hg.seen], by simp [hg.session]⟩⟩, fun a he => ?_⟩
  obtain rfl : a = some n.runtime := he.2.2 n hg.mu hg.seen
  have hupd : RtOp.upd (g.withLive L) s.runtime .getNative (some n.runtime) = g.withLive L := by
    simp [RtOp.upd, hg.mu]
  rw [hupd]
  split
  · next hc =>
    simp only [wp_bind]
    refine wp_mono ?_ (watchContext_spec hg hc hw)
    rintro (err | ⟨o, fin⟩) _ h
    · subst h
      exact hstay _
    · obtain ⟨id, rfl, rfl⟩ := h
      simp only [wp_deferring]
      refine wp_mono ?_ (runNative_spec hg.watching hp ha (fun o' ho' => ?_) hl hn)
      · rintro res _ ⟨⟨p, c, d, a, rfl, hreports⟩, hbegun⟩
        refine wp_mono ?_ (finish_spec hg.later hbegun)
        rintro _ _ rfl
        exact ⟨p, c, d, a, by simp only [Held.watching, Held.later, Held.withLive, hw, hj], hreports⟩
      · obtain rfl : o = o' := by simpa using ho'
        exact Multiset.mem_add.2 (.inl (Multiset.mem_singleton_self _))
  · exact wp_mono (fun _ _ h => h.1) (runNative_spec hg hp ha (fun _ h => by simp at h) hl hn)

/-- `run` past the checks: the buffer is put back clean. -/
theorem runBuffered_spec (hg : g.Running s ctx n) (hp : g.phase = .before)
    (ha : g.aborted = false) (hw : g.watch = none) (hj : g.joining = false)
    (hb : g.buffer = none) {inputs outputs : List Tensor} {into : Bool}
    (hcount : (inputs ++ outputs).length ≤ s.inputs.length + s.outputs.length) :
    wp protocol (s.runBuffered ctx inputs outputs into) (Finishes g L) (g.withLive L) := by
  simp only [runBuffered, wp_bind]
  refine wp_perform.2 ⟨hb, fun b hclean => ?_⟩
  have hclean : b.Clean := hclean
  have hslots : ∀ t ∈ (if b.slots.length < s.inputs.length + s.outputs.length then
      List.replicate (s.inputs.length + s.outputs.length) OcTensor.zero else b.slots),
      t = OcTensor.zero := by
    split
    · exact fun t ht => List.eq_of_mem_replicate ht
    · exact hclean
  have hlen : s.inputs.length + s.outputs.length ≤
      (if b.slots.length < s.inputs.length + s.outputs.length then
      List.replicate (s.inputs.length + s.outputs.length) OcTensor.zero else b.slots).length := by
    split
    · simp
    · omega
  generalize (if b.slots.length < s.inputs.length + s.outputs.length then
    List.replicate (s.inputs.length + s.outputs.length) OcTensor.zero else b.slots) = slots
    at hslots hlen
  have hput : (⟨b.id, List.replicate (s.inputs.length + s.outputs.length) OcTensor.zero ++
      slots.drop (s.inputs.length + s.outputs.length)⟩ : Buffer).Clean := by
    intro t ht
    rcases List.mem_append.1 ht with ht | ht
    · exact List.eq_of_mem_replicate ht
    · exact hslots t (List.mem_of_mem_drop ht)
  simp only [wp_deferring]
  have hg' : ({ g with buffer := some b.id } : Held).Running s ctx n :=
    ⟨hg.session, hg.ctx, hg.read, hg.seen, hg.fits, hg.inC, hg.mu, hg.rt, hg.gate⟩
  have htake : (slots.take (s.inputs.length + s.outputs.length)).length =
      s.inputs.length + s.outputs.length := by
    simp only [List.length_take]
    omega
  refine wp_mono ?_ (runPinned_spec (L := L) hg' hp ha hw hj htake (by rw [htake]; exact hcount)
    fun t ht => by rw [hslots t (List.mem_of_mem_take ht)]; rfl)
  rintro res _ ⟨p, c, d, a, rfl, hreports⟩
  refine wp_pin (.inr (.inr rfl)) ?_
  refine wp_perform.2 ⟨⟨rfl, hput⟩, fun _ _ => ⟨p, c, d, a, ?_, hreports⟩⟩
  simp only [protocol_upd, Op.upd, Held.later, Held.withLive, hb]

/-- `run` past the gate. -/
theorem runGated_spec (hg : g.Running s ctx n) (hp : g.phase = .before)
    (ha : g.aborted = false) (hw : g.watch = none) (hj : g.joining = false)
    (hb : g.buffer = none) {inputs outputs : List Tensor} {into : Bool}
    (hnone : into = false → outputs = []) :
    wp protocol (s.runGated ctx inputs outputs into) (Finishes g L) (g.withLive L) := by
  have hstay : ∀ err, Finishes g L (.error err) (g.withLive L) := fun err =>
    ⟨g.phase, g.canceled, g.done, g.aborted, rfl, fun h => by
      rw [Held.withLive_aborted, ha] at h
      exact nomatch h⟩
  unfold runGated
  split
  · exact hstay _
  next hin =>
  split
  · exact hstay _
  next hout =>
  split
  · exact hstay _
  refine runBuffered_spec hg hp ha hw hj hb ?_
  cases into with
  | false =>
    rw [hnone rfl]
    simp only [List.append_nil]
    omega
  | true =>
    simp only [true_and] at hout
    simp only [List.length_append]
    omega

/-! ## Locks and gate -/

/-- A run that holds the read lock, and nothing else. -/
def locked (c : Call) (s : Session) (y : Option OcSession) (selected gone : Bool) : Held :=
  { Held.start c with read := some s.id, seen := y, selected, gone }

/-- `run` under the read lock, which it has just taken. -/
theorem runLocked_spec {c : Call} (hs : c.session = some s) (hctx : c.ctx = some ctx)
    {inputs outputs : List Tensor} {into : Bool} (hnone : into = false → outputs = []) :
    wp protocol (s.runLocked ctx inputs outputs into)
      (fun res g' => ∃ y selected gone, Finishes (locked c s y selected gone) 0 res g')
      (locked c s none false false) := by
  have hid : c.session.map (·.id) = some s.id := by rw [hs]; rfl
  simp only [runLocked, wp_bind]
  refine wp_sess.2 ⟨⟨rfl, hid, .inl rfl⟩, fun y hy => ?_⟩
  cases y with
  | none => exact ⟨none, false, true, .before, false, none, false, rfl, fun h => (by cases h)⟩
  | some n =>
    obtain ⟨s', hs', hfits⟩ := hy.2 n rfl
    obtain rfl : s = s' := by simpa [locked, Held.start, hs] using hs'
    have hupd : SessOp.upd (locked c s none false false) s.id .getNative (some n) =
        locked c s (some n) false false := rfl
    dsimp only
    rw [hupd]
    split
    · simp only [wp_bind]
      refine wp_sess.2 ⟨⟨rfl, hid, hctx, rfl, rfl, rfl⟩, ?_⟩
      rintro (_ | _) -
      · -- the context was done: its error is there
        simp only [Bool.false_eq_true, if_false, wp_bind]
        refine wp_ctxErr.2 ⟨hctx, ?_⟩
        rintro (_ | err) ⟨-, hc⟩
        · exact absurd (hc rfl) (by simp)
        · exact ⟨some n, true, false, .before, true, some err, false, rfl, fun h => (by cases h)⟩
      · simp only [if_true, wp_deferring, wp_bind]
        refine wp_ctxErr.2 ⟨hctx, ?_⟩
        rintro (_ | err) -
        · have hg : ({ locked c s (some n) true false with gate := some s.id } : Held).Running s ctx n :=
            ⟨hs, hctx, rfl, rfl, hfits, rfl, rfl, rfl, fun _ => rfl⟩
          refine wp_mono ?_ (runGated_spec (L := 0) hg rfl rfl rfl rfl rfl hnone)
          rintro res _ ⟨p, cd, d, a, rfl, hreports⟩
          refine wp_sess.2 ⟨⟨rfl, hid, rfl, rfl, rfl⟩, fun _ _ => ?_⟩
          exact ⟨some n, true, false, p, cd, d, a, rfl, hreports⟩
        · refine wp_sess.2 ⟨⟨rfl, hid, rfl, rfl, rfl⟩, fun _ _ => ?_⟩
          exact ⟨some n, true, false, .before, true, some err, false, rfl, fun h => (by cases h)⟩
    · next hgated =>
      have hg : (locked c s (some n) false false).Running s ctx n :=
        ⟨hs, hctx, rfl, rfl, hfits, rfl, rfl, rfl, fun h => absurd h hgated⟩
      refine wp_mono ?_ (runGated_spec (L := 0) hg rfl rfl rfl rfl rfl hnone)
      rintro res _ h
      exact ⟨some n, false, false, h⟩

/-- **`Session.run`** gives everything back. -/
theorem run_spec {c : Call} (hs : c.session = some s) (hctx : c.ctx = some ctx)
    (hfire : (Held.start c).fire = none) {inputs outputs : List Tensor} {into : Bool}
    (hnone : into = false → outputs = []) :
    wp protocol (s.run ctx inputs outputs into) (fun res g' => g'.Idle ∧ Reports res g')
      (Held.start c) := by
  have hid : c.session.map (·.id) = some s.id := by rw [hs]; rfl
  simp only [run, wp_bind]
  refine wp_ctxErr.2 ⟨hctx, ?_⟩
  rintro (_ | err) -
  · simp only [wp_bind, wp_deferring]
    refine wp_sess.2 ⟨⟨rfl, hid, rfl, rfl, rfl, rfl⟩, fun _ _ => ?_⟩
    refine wp_mono ?_ (runLocked_spec hs hctx hnone)
    rintro res _ ⟨y, selected, gone, p, cd, d, a, rfl, hreports⟩
    refine wp_sess.2 ⟨⟨rfl, hid, rfl, rfl, rfl, rfl⟩, fun _ _ => ?_⟩
    exact ⟨⟨rfl, rfl, rfl, rfl, rfl, rfl, rfl, rfl, rfl, rfl, hfire, rfl, rfl, rfl⟩, hreports⟩
  · exact ⟨⟨rfl, rfl, rfl, rfl, rfl, rfl, rfl, rfl, rfl, rfl, hfire, rfl, rfl, rfl⟩, fun h => (by cases h)⟩

theorem sized {ins outs : List TensorInfo} (h : n.Matches ins outs) : n.Sized := by
  obtain ⟨ports, -, hports, -, hinfo, -, -⟩ := h.ports
  have hlen := congrArg List.length hinfo
  simp only [List.length_map, List.length_append] at hlen
  intro a ha
  obtain rfl : ports = a := by rw [hports, Option.some.injEq] at ha; exact ha
  rw [hlen, h.inputs, h.outputs]
  exact (Nat.mod_eq_of_lt h.bound).symm

/-- **`Session.Close`** gives everything back. -/
theorem close_spec :
    wp protocol s.close (fun _ g' => g'.Idle ∧ g'.aborted = false ∧ g'.gone)
      (Held.start (.closeSession s)) := by
  simp only [close, wp_bind, wp_deferring]
  refine wp_sess.2 ⟨⟨rfl, rfl, rfl, rfl, trivial, rfl, rfl⟩, fun _ _ => ?_⟩
  refine wp_sess.2 ⟨⟨rfl, rfl, rfl, rfl⟩, fun _ _ => ?_⟩
  refine wp_sess.2 ⟨⟨rfl, rfl, .inr rfl⟩, fun y hy => ?_⟩
  have hend : ∀ b c, wp protocol (sess s.id .unlock)
      (fun _ g' => g'.Idle ∧ g'.aborted = false ∧ g'.gone)
      { Held.start (.closeSession s) with excl := some s.id, gone := true, shut := b, freed := c } := by
    intro b c
    refine wp_sess.2 ⟨⟨rfl, rfl, rfl, rfl, rfl, fun _ => rfl, rfl, rfl⟩, fun _ _ => ?_⟩
    exact ⟨⟨rfl, rfl, rfl, rfl, rfl, rfl, rfl, rfl, rfl, rfl, rfl, rfl, rfl, rfl⟩, rfl, rfl⟩
  cases y with
  | none => exact hend _ _
  | some n =>
    obtain ⟨s', hs', hfits⟩ := hy.2 n rfl
    simp only [Option.isSome_some, if_true, wp_bind]
    refine wp_sess.2 ⟨⟨rfl, rfl, .inr rfl⟩, fun y hy => ?_⟩
    obtain rfl : y = some n := hy.1 n rfl
    -- the call owns the native session while it frees it
    let g : Held := { Held.start (.closeSession s) with excl := some s.id, seen := some n }
    show wp protocol _ _ (g.withLive 0)
    refine wp_cgo_still (by trivial) rfl ⟨n, rfl, rfl, fun _ => rfl, fun _ => ⟨rfl, rfl⟩⟩ ?_
    refine wp_releases (Bridge.ocSessionFree_spec (sized hfits)) ⟨0, rfl, ?_⟩
    refine wp_sess.2 ⟨⟨rfl, rfl, rfl, rfl, rfl, rfl, rfl, rfl⟩, fun _ _ => ?_⟩
    refine wp_rt.2 ⟨⟨rfl, rfl, rfl, rfl⟩, fun _ _ => ?_⟩
    refine wp_mono ?_ (Runtime.release_spec rfl rfl rfl rfl rfl rfl rfl)
    rintro _ _ ⟨y, b, rfl⟩
    refine wp_rt.2 ⟨⟨rfl, rfl, rfl, rfl, rfl, rfl, rfl⟩, fun _ _ => ?_⟩
    exact hend _ _

end Session

/-- **The callback** gives everything back. -/
theorem callback_spec {r : OcRuntime} {o : Handle} {id : Nat} :
    wp protocol (callback r o id) (fun _ g' => g'.Idle ∧ g'.aborted = false)
      (Held.start (.callback r o id)) := by
  have hdone : ∀ g : Held, g = (Held.start (.callback r o id)).withLive 0 →
      wp protocol (cb (.closeDone id)) (fun _ g' => g'.Idle ∧ g'.aborted = false) g := by
    rintro g rfl
    refine wp_cb.2 ⟨⟨rfl, rfl, rfl, rfl⟩, fun _ => ?_⟩
    exact ⟨⟨rfl, rfl, rfl, rfl, rfl, rfl, rfl, rfl, rfl, rfl, rfl, rfl, rfl, rfl⟩, rfl⟩
  simp only [callback, wp_bind]
  show wp protocol _ _ ((Held.start (.callback r o id)).withLive 0)
  refine wp_cgo (by trivial) rfl ⟨id, rfl, rfl⟩ ?_
  simp only [Bridge.ocTerminate, wp_bind]
  refine ⟨⟨Multiset.zero_le _, r, id, rfl, rfl⟩, ?_⟩
  rintro (st | _) -
  · exact wp_release (by trivial) (fun _ => rfl) fun _ => ⟨0, rfl, hdone _ rfl⟩
  · exact ⟨0, rfl, hdone _ rfl⟩

/-- **Every call keeps the protocol**, for every answers of the other goroutines, of ORT and of the
C heap: it never faults, and it ends with nothing left to give back. -/
theorem prog_spec (c : Call) : wp protocol c.prog (Ends c) (Held.start c) := by
  cases c with
  | openLibrary path =>
    refine wp_map.2 (wp_mono ?_ openLibrary_spec)
    exact fun res g h => ⟨h.1, fun ha => by simp [h.2] at ha, fun _ h => by cases h⟩
  | load r path options =>
    refine wp_map.2 ?_
    unfold Runtime.loadFile
    split
    · exact ⟨⟨rfl, rfl, rfl, rfl, rfl, rfl, rfl, rfl, rfl, rfl, rfl, rfl, rfl, rfl⟩,
        (fun h => by cases h), fun _ h => by cases h⟩
    · refine wp_mono ?_ (Runtime.load_spec rfl rfl id)
      exact fun res g h => ⟨h.1, fun ha => by simp [h.2] at ha, fun _ h => by cases h⟩
  | loadBytes r model options =>
    refine wp_map.2 ?_
    unfold Runtime.loadBytes
    split
    · exact ⟨⟨rfl, rfl, rfl, rfl, rfl, rfl, rfl, rfl, rfl, rfl, rfl, rfl, rfl, rfl⟩,
        (fun h => by cases h), fun _ h => by cases h⟩
    · refine wp_mono ?_ (Runtime.load_spec rfl rfl id)
      exact fun res g h => ⟨h.1, fun ha => by simp [h.2] at ha, fun _ h => by cases h⟩
  | closeRuntime r =>
    refine wp_map.2 (wp_mono ?_ Runtime.close_spec)
    exact fun res g h => ⟨h.1, fun ha => by simp [h.2] at ha, fun _ h => by cases h⟩
  | closeSession s =>
    refine wp_map.2 (wp_mono ?_ Session.close_spec)
    exact fun res g h => ⟨h.1, fun ha => by simp [h.2.1] at ha, fun _ _ => h.2.2⟩
  | run s ctx inputs =>
    refine wp_map.2 (wp_mono ?_ (Session.run_spec rfl rfl rfl fun _ => rfl))
    rintro res g ⟨hidle, hreports⟩
    refine ⟨hidle, fun ha => ?_, fun _ h => by cases h⟩
    obtain ⟨e, he, rfl⟩ := hreports ha
    exact ⟨e, he, .inl rfl⟩
  | runInto s ctx outputs inputs =>
    refine wp_map.2 ?_
    unfold Session.runInto
    refine wp_bind.2 (wp_mono ?_ (Session.run_spec rfl rfl rfl (fun h => by cases h)))
    rintro res g ⟨hidle, hreports⟩
    refine ⟨hidle, fun ha => ?_, fun _ h => by cases h⟩
    obtain ⟨e, he, rfl⟩ := hreports ha
    exact ⟨e, he, .inr rfl⟩
  | callback r options id =>
    refine wp_map.2 (wp_mono ?_ callback_spec)
    exact fun res g h => ⟨h.1, fun ha => by simp [h.2] at ha, fun _ h => by cases h⟩

end

end Onnxcraft
