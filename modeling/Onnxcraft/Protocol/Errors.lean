import Onnxcraft.Effect.Upholds
import Onnxcraft.Protocol.LoadLog

/-!
# The protocol of native errors

`Fate` is what has become of a call's status: it is raised by the first native call that fails,
its code and its message are read, and it is released. `errors` is the protocol that goes with it:
a call does nothing but clean up once a status is raised, and what it reports is that status.

The bridge ends as its result says, `Fine` or with the status `Raised`; Go's `nativeError` turns a
raised status into an error that tells it (`Told`); an exported function returns an error that
`Reports` it, or that of its context.
-/

namespace Onnxcraft

open Effect

/-! ## What is raised -/

/-- The error of a result. -/
def failure {ε α : Type} : Except ε α → Option ε
  | .ok _ => none
  | .error e => some e

@[simp] theorem failure_ok {ε α : Type} (a : α) : failure (.ok a : Except ε α) = none := rfl
@[simp] theorem failure_error {ε α : Type} (e : ε) : failure (.error e : Except ε α) = some e := rfl

/-- The status that a native call has answered. -/
def NativeOp.status : (o : NativeOp) → o.Resp → Option OrtStatus
  | .createStatus _ _, st => some st
  | .run _ _ _ _ _ _, reply => reply.status
  | .createEnv, r | .createCpuMemoryInfo, r | .getAllocatorWithDefaultOptions, r
  | .createSessionOptions, r | .createCUDAProviderOptions, r | .createTensorRTProviderOptions, r
  | .createSession _ _ _, r | .createSessionFromArray _ _ _, r
  | .sessionGetInputTypeInfo _ _, r | .sessionGetOutputTypeInfo _ _, r
  | .castTypeInfoToTensorInfo _, r | .createRunOptions, r
  | .createTensorWithDataAsOrtValue _ _ _ _ _ _, r | .getTensorMemoryInfo _, r => failure r
  | .disableTelemetryEvents _, r | .setIntraOpNumThreads _ _, r | .setInterOpNumThreads _ _, r
  | .setSessionExecutionMode _ _, r | .setSessionGraphOptimizationLevel _ _, r
  | .addSessionConfigEntry _ _ _, r | .updateCUDAProviderOptions _ _ _, r
  | .appendExecutionProviderCUDAV2 _ _, r | .updateTensorRTProviderOptions _ _ _, r
  | .appendExecutionProviderTensorRTV2 _ _, r | .appendExecutionProviderOpenVINOV2 _ _ _, r
  | .appendExecutionProvider _ _ _ _, r | .runOptionsSetTerminate _, r => failure r
  | .sessionGetInputCount _, r | .sessionGetOutputCount _, r | .getDimensionsCount _, r
  | .getTensorSizeInBytes _, r | .getTensorMutableData _, r => failure r
  | .sessionGetInputName _ _, r | .sessionGetOutputName _ _, r => failure r
  | .getOnnxTypeFromTypeInfo _, r => failure r
  | .getTensorElementType _, r => failure r
  | .getDimensions _ _, r => failure r
  | .getTensorElementTypeAndShapeDataReference _, r => failure r
  | _, _ => none

/-- The status that an event raises. -/
def raises (ev : Event Op Op.Resp) : Option OrtStatus :=
  match ev with
  | ⟨.nat o, a⟩ => o.status a
  | _ => none

/-- The native calls that release something, or report a status. -/
def NativeOp.Cleanup : NativeOp → Prop
  | .free _ | .dlclose _ | .releaseMemoryInfo _ | .releaseEnv _ | .releaseStatus _
  | .releaseSessionOptions _ | .releaseCUDAProviderOptions _ | .releaseTensorRTProviderOptions _
  | .releaseSession _ | .allocatorFree _ | .releaseTypeInfo _ | .releaseRunOptions _
  | .releaseValue _ => True
  | .getErrorCode _ | .getErrorMessage _ | .strdup _ => True
  | _ => False

/-- What a call does only while nothing has failed: other native calls, copying results, and
making a runtime or a session. -/
def Op.Proceeds : Op → Prop
  | .nat o => ¬o.Cleanup
  | .mem (.make _) | .mem (.load _ _) | .mem (.store _ _) => True
  | .newRuntime _ | .newSession _ _ _ _ _ | .rt _ .incRefs => True
  | _ => False

/-! ## The protocol -/

/-- What has become of a call's status. -/
inductive Fate where
  | fine
  | raised (st : OrtStatus)
  | coded (st : OrtStatus)
  | told (st : OrtStatus)
  | gone (st : OrtStatus)
  deriving DecidableEq

/-- The status that a call has got. -/
def Fate.status : Fate → Option OrtStatus
  | .fine => none
  | .raised st | .coded st | .told st | .gone st => some st

/-- The fate of the status, and what the context has answered since it was raised. -/
structure Errors where
  fate : Fate
  seen : Option CtxError

namespace Errors

def start : Errors := ⟨.fine, none⟩

/-- No status has been raised. -/
def Fine (g : Errors) : Prop := g.fate = .fine

/-- The status has been raised, and nobody has looked at it. -/
def Raised (st : OrtStatus) (g : Errors) : Prop := g = ⟨.raised st, none⟩ ∧ 0 < st.code

/-- The error tells the status. -/
def Told (err : NativeError) (g : Errors) : Prop :=
  ∃ st, g = ⟨.gone st, none⟩ ∧ err = ⟨st.code, st.message⟩

/-- The error is or wraps what the status says, or is that of the context. -/
def Reports (err : GoError) (g : Errors) : Prop :=
  g.Fine ∨ ∃ st, g.fate = .gone st ∧
    (err.asNative = some ⟨st.code, st.message⟩ ∨ ∃ e, err = .ctx e ∧ g.seen = some e)

theorem Told.reports {err : NativeError} {g : Errors} (h : Told err g) {e : GoError}
    (he : e.asNative = some err) : g.Reports e := by
  obtain ⟨st, rfl, rfl⟩ := h
  exact .inr ⟨st, rfl, .inl he⟩

theorem Fine.reports {g : Errors} (h : g.Fine) (e : GoError) : g.Reports e := .inl h

end Errors

/-- What a native call must find. -/
def NativeOp.Due (g : Errors) : NativeOp → Prop
  | .getErrorCode st => g.fate = .raised st
  | .getErrorMessage st => g.fate = .coded st
  | .releaseStatus st => g.fate = .told st
  | _ => True

/-- `strdup` has not failed. -/
def NativeOp.duplicates : (o : NativeOp) → o.Resp → Bool
  | .strdup _, p => p.isSome
  | _, _ => true

/-- What a call may rely on: `strdup` succeeds, and a status has a positive code. -/
def NativeOp.Script (o : NativeOp) (a : o.Resp) : Prop :=
  o.duplicates a ∧ ∀ st ∈ o.status a, 0 < st.code

instance (o : NativeOp) (a : o.Resp) : Decidable (o.Script a) := inferInstanceAs (Decidable (_ ∧ _))

/-- The fate of a status whose code or message is read, or which is released. -/
def NativeOp.follow (g : Errors) : NativeOp → Errors
  | .getErrorCode st => { g with fate := .coded st }
  | .getErrorMessage st => { g with fate := .told st }
  | .releaseStatus st => { g with fate := .gone st }
  | _ => g

def NativeOp.track (g : Errors) (o : NativeOp) (a : o.Resp) : Errors :=
  (o.status a).elim (o.follow g) fun st => ⟨.raised st, none⟩

section
variable [Platform]

/-- The protocol of native errors. -/
def errors : Spec Op Op.Resp Errors where
  pre e g := (e.Proceeds → g.Fine) ∧ match e with
    | .nat o => o.Due g
    | _ => True
  env e g a := match e, a with
    | .nat o, a => o.Allows a ∧ o.Script a
    | .ctxErr _, a => ∀ e, g.seen = some e → a = some e
    | _, _ => True
  upd e a g := match e, a with
    | .nat o, a => o.track g a
    | .ctxErr _, a => { g with seen := a }
    | _, _ => g

variable {g : Errors} {α β σ : Type}

/-! ## Operations -/

/-- A native call that reports no status and reads none. -/
def NativeOp.Mute : NativeOp → Prop
  | .getErrorCode _ | .getErrorMessage _ | .releaseStatus _ => False
  | o => ∀ a, o.status a = none

/-- What the protocol does not see. -/
def Op.Mute : Op → Prop
  | .nat o => o.Cleanup ∧ o.Mute
  | .mem (.pin _) | .mem (.pinShape _) | .mem .unpin => True
  | .mem _ | .newRuntime _ | .newSession _ _ _ _ _ | .rt _ .incRefs | .ctxErr _ => False
  | _ => True

omit [Platform] in
theorem NativeOp.track_mute {o : NativeOp} (ho : o.Mute) (a : o.Resp) : o.track g a = g := by
  cases o with
  | getErrorCode st => exact ho.elim
  | getErrorMessage st => exact ho.elim
  | releaseStatus st => exact ho.elim
  | _ =>
    unfold NativeOp.track
    rw [ho a]
    rfl

omit [Platform] in
theorem NativeOp.due_mute {o : NativeOp} (ho : o.Mute) : o.Due g := by
  cases o with
  | getErrorCode st => exact ho.elim
  | getErrorMessage st => exact ho.elim
  | releaseStatus st => exact ho.elim
  | _ => trivial

theorem Op.Mute.ignored {e : Op} (h : e.Mute) : errors.Ignores e := by
  cases e with
  | nat o => exact ⟨fun g => ⟨fun hp => absurd h.1 hp, o.due_mute h.2⟩, fun a g => o.track_mute h.2 a⟩
  | mem o =>
    cases o with
    | pin p => exact ⟨fun _ => ⟨fun h => h.elim, trivial⟩, fun _ _ => rfl⟩
    | pinShape l => exact ⟨fun _ => ⟨fun h => h.elim, trivial⟩, fun _ _ => rfl⟩
    | unpin => exact ⟨fun _ => ⟨fun h => h.elim, trivial⟩, fun _ _ => rfl⟩
    | _ => exact h.elim
  | rt r o =>
    cases o with
    | incRefs => exact h.elim
    | _ => exact ⟨fun _ => ⟨fun h => h.elim, trivial⟩, fun _ _ => rfl⟩
  | newRuntime n => exact h.elim
  | newSession r gated n ins outs => exact h.elim
  | ctxErr c => exact h.elim
  | _ => exact ⟨fun _ => ⟨fun h => h.elim, trivial⟩, fun _ _ => rfl⟩

theorem wp_mute {p : Act α} {Q : α → Errors → Prop} (hp : Uses Op.Mute p) (hQ : ∀ a, Q a g) :
    wp errors p Q g :=
  wp_ignored (hp.mono fun _ h => h.ignored) hQ

/-- An operation that does not fail, before anything has failed. -/
theorem wp_fine {e : Op} (hf : g.Fine) (hmute : ∀ o, e = .nat o → o.Mute)
    {Q : e.Resp → Errors → Prop} (hQ : ∀ a g', errors.env e g a → g'.Fine → Q a g') :
    wp errors (Prog.perform e) Q g := by
  refine ⟨⟨fun _ => hf, ?_⟩, fun a ha => hQ a _ ha ?_⟩
  · cases e with
    | nat o => exact o.due_mute (hmute o rfl)
    | _ => trivial
  · cases e with
    | nat o =>
      show (o.track g a).Fine
      rw [o.track_mute (hmute o rfl)]
      exact hf
    | _ => exact hf

theorem wp_fine_nat {o : NativeOp} (ho : o.Mute) (hf : g.Fine) {Q : o.Resp → Errors → Prop}
    (hQ : ∀ a g', o.Allows a → o.Script a → g'.Fine → Q a g') : wp errors (nat o) Q g :=
  wp_fine hf (fun _ h => Op.nat.inj h ▸ ho) fun a g' ha hg => hQ a g' ha.1 ha.2 hg

/-- What a native call leaves: nothing new, or its status raised. -/
def Answers (st : Option OrtStatus) (g : Errors) : Prop := st.elim g.Fine fun st => g.Raised st

/-- A native call that may fail. -/
def NativeOp.Fails : NativeOp → Prop
  | .getErrorCode _ | .getErrorMessage _ | .releaseStatus _ | .strdup _ => False
  | _ => True

theorem wp_fails {o : NativeOp} (ho : o.Fails) (hf : g.Fine) :
    wp errors (nat o) (fun a g' => Answers (o.status a) g') g := by
  refine ⟨⟨fun _ => hf, ?_⟩, fun a ha => ?_⟩
  · cases o <;> trivial
  · show Answers (o.status a) (o.track g a)
    have hfollow : o.follow g = g := by cases o <;> first | rfl | exact ho.elim
    have hscript : ∀ st, o.status a = some st → 0 < st.code := ha.2.2
    unfold NativeOp.track
    rw [hfollow]
    cases hst : o.status a with
    | none => exact hf
    | some st => exact ⟨rfl, hscript st hst⟩

/-- The bridge's calls: fine, or with their status raised. -/
abbrev Faithful (p : Act (Fallible α)) : Prop := Upholds errors Errors.Fine Errors.Raised p

/-- Code before a `fail:` label that jumps there with the status it has raised. -/
abbrev FaithfulCode (c : CCode σ α) : Prop := UpholdsCode errors Errors.Fine Errors.Raised c

theorem faithful_of {p : Act (Fallible α)}
    (h : ∀ g, g.Fine → wp errors p (fun a g' => Answers (failure a) g') g) : Faithful p := by
  intro g hg
  refine wp_mono ?_ (h g hg)
  intro r g' h
  cases r with
  | ok a => exact h
  | error st => exact h

/-! ## Reading a status -/

section
variable {st : OrtStatus}

/-- The code of the status is read, ... -/
theorem wp_read {Q : Int → Errors → Prop} (hQ : Q st.code ⟨.coded st, none⟩) :
    wp errors (nat (.getErrorCode st)) Q ⟨.raised st, none⟩ := by
  refine ⟨⟨fun h => absurd trivial h, rfl⟩, fun code hcode => ?_⟩
  obtain rfl : code = st.code := hcode.1
  exact hQ

/-- ..., then its message, ... -/
theorem wp_tell {Q : GoString → Errors → Prop} (hQ : Q st.message ⟨.told st, none⟩) :
    wp errors (nat (.getErrorMessage st)) Q ⟨.coded st, none⟩ := by
  refine ⟨⟨fun h => absurd trivial h, rfl⟩, fun message hmessage => ?_⟩
  obtain rfl : message = st.message := hmessage.1
  exact hQ

/-- ..., and it is released. -/
theorem wp_drop {Q : Unit → Errors → Prop} (hQ : Q () ⟨.gone st, none⟩) :
    wp errors (nat (.releaseStatus st)) Q ⟨.told st, none⟩ :=
  ⟨⟨fun h => absurd trivial h, rfl⟩, fun _ _ => hQ⟩

end

/-! ## bridge.c -/

theorem wp_created {code : Int} {message : GoString} (hf : g.Fine)
    {Q : OrtStatus → Errors → Prop} (hQ : ∀ st g', g'.Raised st → Q st g') :
    wp errors (nat (.createStatus code message)) Q g :=
  wp_mono (fun st g' h => hQ st g' h) (wp_fails (by trivial) hf)

/-- A native call before anything has failed. -/
theorem wp_quiet_nat {o : NativeOp} (ho : o.Mute) (hf : g.Fine) :
    wp errors (nat o) (fun _ g' => g'.Fine) g :=
  wp_fine_nat ho hf fun _ _ _ _ h => h

omit [Platform] in
theorem Op.Frees.mute {e : Op} (h : e.Frees) : e.Mute := by
  cases e with
  | nat o => cases o <;> first | exact ⟨trivial, fun _ => rfl⟩ | exact h.elim
  | fault f => trivial
  | _ => exact h.elim

namespace Bridge

theorem runValues_fine (n : Nat) (hf : g.Fine) : wp errors (runValues n) (fun _ g' => g'.Fine) g := by
  unfold runValues
  split
  · exact hf
  · rw [wp_bind]
    refine wp_fine_nat ?_ hf fun _ _ _ _ h => h
    exact fun _ => rfl

theorem runCreate_faithful (s : OcSession) (inputs : List OcTensor)
    (preallocated : Option (List OcTensor)) (i : Nat) :
    FaithfulCode (runCreate s inputs preallocated i) := by
  unfold runCreate
  split
  · exact .pure ()
  refine .bind (.lift fun g hg => wp_mute ?_ fun _ => hg) fun t =>
    .bind (.check (faithful_of fun g hg => wp_fails (by trivial) hg)) fun v => .bind .get fun vars =>
    .bind (.lift fun g hg => wp_mute (wr_uses _ _ _ fun _ => trivial) fun _ => hg) fun _ => .modify _
  split
  · exact rd_uses _ _ fun _ => trivial
  · exact (deref_uses _ fun _ => trivial).bind fun _ => rd_uses _ _ fun _ => trivial

theorem runCall_faithful (s : OcSession) (options : Option Handle) :
    FaithfulCode (runCall s options) := by
  unfold runCall
  refine .bind .get fun vars =>
    .bind (.lift fun g hg => wp_mute (deref_uses _ fun _ => trivial) fun _ => hg) fun names =>
    .bind (.lift fun g hg => wp_mute (slice_uses _ _ _ fun _ => trivial) fun _ => hg) fun _ =>
    .bind (.lift fun g hg => wp_mute (slice_uses _ _ _ fun _ => trivial) fun _ => hg) fun _ =>
    .bind (.lift fun g hg => wp_mute (slice_uses _ _ _ fun _ => trivial) fun _ => hg) fun _ =>
    .bind (.lift fun g hg => wp_mute (slice_uses _ _ _ fun _ => trivial) fun _ => hg) fun _ => ?_
  intro st g hg
  simp only [wpc_bind, wpc_lift, wpc_modify]
  refine wp_mono ?_ (wp_fails (by trivial) hg)
  intro reply g' h
  have h : Answers reply.status g' := h
  cases hst : reply.status with
  | none =>
    rw [hst] at h
    exact h
  | some status =>
    rw [hst] at h
    exact h

theorem runOutput_faithful (s : OcSession) (i : Nat) : FaithfulCode (runOutput s i) := by
  unfold runOutput
  refine .bind .get fun vars =>
    .bind (.lift fun g hg => wp_mute (deref_uses _ fun _ => trivial) fun _ => hg) fun outputs =>
    .bind (.lift fun g hg => wp_mute (rd_uses _ _ fun _ => trivial) fun _ => hg) fun t =>
    .bind (.lift fun g hg => wp_mute (rd_uses _ _ fun _ => trivial) fun _ => hg) fun value =>
    .bind (.modify _) fun _ =>
    .bind (.check (faithful_of fun g hg => wp_fails (by trivial) hg)) fun memory =>
    .bind (.lift fun g hg => wp_quiet_nat (fun _ => rfl) hg) fun device => ?_
  split
  · exact .failing fun g hg => wp_created hg fun st g' h => h
  · exact .bind (.check (faithful_of fun g hg => wp_fails (by trivial) hg)) fun (_, _) =>
      .bind (.modify _) fun _ => .bind (.check (faithful_of fun g hg => wp_fails (by trivial) hg)) fun _ =>
      .bind (.modify _) fun _ => .bind (.check (faithful_of fun g hg => wp_fails (by trivial) hg)) fun _ =>
      .modify _

theorem runBody_faithful (s : OcSession) (options : Option Handle) (inputs : List OcTensor)
    (preallocated : Option (List OcTensor)) (n : Nat) :
    FaithfulCode (runBody s options inputs preallocated n) := by
  unfold runBody
  refine .bind (.forEach (runCreate_faithful s inputs preallocated) _) fun _ =>
    .bind (runCall_faithful s options) fun _ => ?_
  split
  · exact .forEach (runOutput_faithful s) _
  · exact .pure ()

theorem run_answers (s : OcSession) (options : Option Handle) (inputs : List OcTensor)
    (preallocated outputs : Option (List OcTensor)) (hf : g.Fine) :
    wp errors (run s options inputs preallocated outputs) (fun r g' => Answers r.1 g') g := by
  simp only [run, wp_bind]
  refine wp_mono ?_ (runValues_fine _ hf)
  intro values g₁ h₁
  cases values with
  | none =>
    rw [wp_bind]
    exact wp_created h₁ fun st g' h => h
  | some values =>
    obtain ⟨base, values⟩ := values
    simp only [wp_bind, wp_code]
    refine wpc_mono ?_ (runBody_faithful s options inputs preallocated _ ⟨values, outputs⟩ g₁ h₁)
    intro res vars g₂ h₂
    refine wp_mute (.fold (fun i _ => (rd_uses _ _ fun _ => trivial).bind fun _ =>
      whenSome_uses fun _ => .perform ⟨trivial, fun _ => rfl⟩) _ _) fun _ => ?_
    refine wp_mute (freePtr_uses _ fun _ => ⟨trivial, fun _ => rfl⟩) fun _ => ?_
    cases res with
    | ok a => exact h₂
    | error status =>
      cases vars.outputs with
      | none => exact h₂
      | some outs =>
        rw [wp_bind]
        refine wp_mute ?_ fun _ => h₂
        exact .fold (fun i _ => (rd_uses _ _ fun _ => trivial).bind fun _ =>
          (whenSome_uses fun _ => .perform ⟨trivial, fun _ => rfl⟩).bind fun _ => .pure _) _ _

/-! ### Options -/

theorem ocOptionsNewBody_faithful (config : OcOptions) :
    FaithfulCode (ocOptionsNewBody config) := by
  unfold ocOptionsNewBody
  exact .bind (.check (faithful_of fun g hg => wp_fails (by trivial) hg)) fun o =>
    .bind (.modify _) fun _ =>
    .bind (.check (faithful_of fun g hg => wp_fails (by trivial) hg)) fun _ =>
    .bind (.check (faithful_of fun g hg => wp_fails (by trivial) hg)) fun _ =>
    .bind (.check (faithful_of fun g hg => wp_fails (by trivial) hg)) fun _ =>
    .bind (.lift fun g hg => wp_mute (rd_uses _ _ fun _ => trivial) fun _ => hg) fun level =>
    .bind (.check (faithful_of fun g hg => wp_fails (by trivial) hg)) fun _ => .pure o

theorem ocOptionsNew_faithful (config : OcOptions) : Faithful (ocOptionsNew config) := by
  intro g hg
  simp only [ocOptionsNew, wp_bind, wp_code]
  refine wpc_mono ?_ (ocOptionsNewBody_faithful config none g hg)
  intro res o g' h
  cases res with
  | ok h' => exact h
  | error status =>
    rw [wp_bind]
    exact wp_mute (whenSome_uses fun _ => .perform ⟨trivial, fun _ => rfl⟩) fun _ => h

theorem ocConfig_faithful (o : Handle) (key value : CStr) : Faithful (ocConfig o key value) :=
  faithful_of fun _ hg => wp_fails (by trivial) hg

theorem ocProviderV2_faithful {create : Act (Fallible Handle)}
    {update append : Handle → Act (Fallible Unit)} {release : Handle → Act Unit}
    (hc : Faithful create) (hu : ∀ p, Faithful (update p)) (ha : ∀ p, Faithful (append p))
    (hr : ∀ p, Uses Op.Mute (release p)) :
    Faithful (ocProviderV2 create update append release) := by
  intro g hg
  simp only [ocProviderV2, wp_bind]
  have hcode : FaithfulCode (σ := Option Handle) (α := Unit) (do
      let p ← .check create
      .modify fun _ => some p
      .check (update p)
      .check (append p)) :=
    .bind (.check hc) fun p => .bind (.modify _) fun _ => .bind (.check (hu p)) fun _ =>
      .check (ha p)
  refine wp_mono ?_ (hcode none g hg)
  intro r g' h
  obtain ⟨p, status⟩ := r
  exact wp_mute (whenSome_uses hr) fun _ => h

theorem ocProvider_faithful (o : Handle) (name : CStr) (keys values : List CStr) :
    Faithful (ocProvider o name keys values) := by
  unfold ocProvider
  split
  · exact ocProviderV2_faithful (faithful_of fun g hg => wp_fails (by trivial) hg)
      (fun _ => faithful_of fun g hg => wp_fails (by trivial) hg)
      (fun _ => faithful_of fun g hg => wp_fails (by trivial) hg)
      fun _ => .perform ⟨trivial, fun _ => rfl⟩
  split
  · exact ocProviderV2_faithful (faithful_of fun g hg => wp_fails (by trivial) hg)
      (fun _ => faithful_of fun g hg => wp_fails (by trivial) hg)
      (fun _ => faithful_of fun g hg => wp_fails (by trivial) hg)
      fun _ => .perform ⟨trivial, fun _ => rfl⟩
  split
  · exact faithful_of fun g hg => wp_fails (by trivial) hg
  · exact faithful_of fun g hg => wp_fails (by trivial) hg

/-! ### Sessions -/

theorem portName_faithful (h : Handle) (inputs i : Nat) : Faithful (portName h inputs i) := by
  unfold portName
  split
  · exact faithful_of fun g hg => wp_fails (by trivial) hg
  · exact faithful_of fun g hg => wp_fails (by trivial) hg

theorem portTypeInfo_faithful (h : Handle) (inputs i : Nat) :
    Faithful (portTypeInfo h inputs i) := by
  unfold portTypeInfo
  split
  · exact faithful_of fun g hg => wp_fails (by trivial) hg
  · exact faithful_of fun g hg => wp_fails (by trivial) hg

theorem ocLoadShape_faithful (i : Nat) (p : OcPort) (tensor : Handle) :
    FaithfulCode (ocLoadShape i p tensor) := by
  unfold ocLoadShape
  refine .bind (.lift fun g hg => ?_) fun addr => ?_
  · split
    · exact hg
    · exact wp_quiet_nat (fun _ => rfl) hg
  · split
    · exact .failing fun g hg => wp_created hg fun st g' h => h
    · exact .bind (.modify _) fun _ =>
        .bind (.check (faithful_of fun g hg => wp_fails (by trivial) hg)) fun _ => .modify _

theorem ocLoadPort_faithful (h : Handle) (inputs i : Nat) :
    FaithfulCode (ocLoadPort h inputs i) := by
  unfold ocLoadPort
  refine .bind .get fun v =>
    .bind (.lift fun g hg => wp_mute (deref_uses _ fun _ => trivial) fun _ => hg) fun ports =>
    .bind (.lift fun g hg => wp_mute (deref_uses _ fun _ => trivial) fun _ => hg) fun names =>
    .bind (.lift fun g hg => wp_mute (rd_uses _ _ fun _ => trivial) fun _ => hg) fun p =>
    .bind (.check (portName_faithful h inputs i)) fun name => .bind (.modify _) fun _ =>
    .bind (.check (portTypeInfo_faithful h inputs i)) fun info => .bind (.modify _) fun _ =>
    .bind (.lift fun g hg => wp_mute (wr_uses _ _ _ fun _ => trivial) fun _ => hg) fun _ =>
    .bind (.modify _) fun _ =>
    .bind (.check (faithful_of fun g hg => wp_fails (by trivial) hg)) fun kind => ?_
  split
  · exact .failing fun g hg => wp_created hg fun st g' h => h
  refine .bind (.check (faithful_of fun g hg => wp_fails (by trivial) hg)) fun tensor =>
    .bind (.check (faithful_of fun g hg => wp_fails (by trivial) hg)) fun type =>
    .bind (.modify _) fun _ =>
    .bind (.check (faithful_of fun g hg => wp_fails (by trivial) hg)) fun rank =>
    .bind (.modify _) fun _ => .bind ?_ fun _ =>
    .bind (.lift fun g hg => wp_quiet_nat (fun _ => rfl) hg) fun _ => .modify _
  split
  · exact ocLoadShape_faithful _ _ _
  · exact .pure ()

theorem ocLoadMetadata_faithful (n : Nat) : FaithfulCode (ocLoadMetadata n) := by
  unfold ocLoadMetadata
  refine .bind (.lift fun g hg => wp_quiet_nat (fun _ => rfl) hg) fun ports =>
    .bind (.modify _) fun _ =>
    .bind (.lift fun g hg => wp_quiet_nat (fun _ => rfl) hg) fun names =>
    .bind (.modify _) fun _ => ?_
  split
  · exact .failing fun g hg => wp_created hg fun st g' h => h
  · exact .pure ()

theorem ocLoadBody_faithful (r : OcRuntime) (path : Option CStr) (data : List UInt8)
    (options : Handle) : FaithfulCode (ocLoadBody r path data options) := by
  unfold ocLoadBody
  refine .bind (.check ?_) fun h => .bind (.modify _) fun _ =>
    .bind (.check (faithful_of fun g hg => wp_fails (by trivial) hg)) fun inputs =>
    .bind (.modify _) fun _ =>
    .bind (.check (faithful_of fun g hg => wp_fails (by trivial) hg)) fun outputs =>
    .bind (.modify _) fun _ => ?_
  · cases path with
    | some path => exact faithful_of fun g hg => wp_fails (by trivial) hg
    | none => exact faithful_of fun g hg => wp_fails (by trivial) hg
  · dsimp only
    split
    · exact .failing fun g hg => wp_created hg fun st g' h => h
    · exact .bind (ocLoadMetadata_faithful _) fun _ => .forEach (ocLoadPort_faithful h inputs) _

theorem ocLoad_faithful (r : OcRuntime) (path : Option CStr) (data : List UInt8)
    (options : Handle) : Faithful (ocLoad r path data options) := by
  intro g hg
  simp only [ocLoad, wp_bind]
  refine wp_mono ?_ (wp_quiet_nat (fun _ => rfl) hg)
  intro addr g₁ h₁
  cases addr with
  | none =>
    rw [wp_bind]
    exact wp_created h₁ fun st g' h => h
  | some addr =>
    simp only [wp_bind, wp_code]
    refine wpc_mono ?_ (ocLoadBody_faithful r path data options ⟨newSession addr r, none⟩ g₁ h₁)
    intro res v g₂ h₂
    cases res with
    | ok a => exact h₂
    | error status =>
      simp only [wp_bind]
      refine wp_mute (whenSome_uses fun _ => .perform ⟨trivial, fun _ => rfl⟩) fun _ => ?_
      exact wp_mute ((ocSessionFree_uses _).mono fun _ h => h.mute) fun _ => h₂

/-! ### Opening -/

theorem ocOpenInit_faithful : FaithfulCode ocOpenInit :=
  .bind (.check (faithful_of fun g hg => wp_fails (by trivial) hg)) fun env =>
    .bind (.modify _) fun _ =>
    .bind (.check (faithful_of fun g hg => wp_fails (by trivial) hg)) fun _ =>
    .bind (.check (faithful_of fun g hg => wp_fails (by trivial) hg)) fun memory =>
    .bind (.modify _) fun _ =>
    .bind (.check (faithful_of fun g hg => wp_fails (by trivial) hg)) fun allocator => .modify _

/-- What `oc_open` answers when it fails: no code, or the code and the message of the status. -/
def Unopened (err : Int × Option CStr) (g : Errors) : Prop :=
  (g.Fine ∧ err.1 ≤ 0) ∨
    ∃ st, g = ⟨.gone st, none⟩ ∧ 0 < st.code ∧ err.1 = st.code ∧ goString err.2 = st.message

omit [Platform] in
theorem ocClose_mute (r : Option OcRuntime) : Uses Op.Mute (ocClose r) := by
  cases r with
  | none => exact .pure ()
  | some r =>
    exact (whenSome_uses fun _ => .perform ⟨trivial, fun _ => rfl⟩).bind fun _ =>
      (whenSome_uses fun _ => .perform ⟨trivial, fun _ => rfl⟩).bind fun _ =>
      (whenSome_uses fun _ => .perform ⟨trivial, fun _ => rfl⟩).bind fun _ =>
      .perform ⟨trivial, fun _ => rfl⟩

/-- `*error = strdup(text)`, which succeeds. -/
theorem strdup_copies {text : GoString} {Q : Option CStr → Errors → Prop}
    (hQ : ∀ p, Q (some ⟨p, text⟩) g) : wp errors (strdup text) Q g := by
  simp only [strdup, wp_bind]
  refine ⟨⟨fun hp => absurd trivial hp, trivial⟩, fun a ha => ?_⟩
  have ha : a.isSome := ha.2.1
  obtain ⟨p, rfl⟩ := Option.isSome_iff_exists.1 ha
  exact hQ p

theorem ocOpenFail_fine (r : OcRuntime) (text : GoString) (hf : g.Fine) :
    wp errors (ocOpenFail r text) (Settled Errors.Fine Unopened) g := by
  simp only [ocOpenFail, wp_bind]
  refine strdup_copies fun p => wp_mute (ocClose_mute _) fun _ => ?_
  exact .inl ⟨hf, by norm_num⟩

theorem ocOpen_upholds (path : CStr) : Upholds errors Errors.Fine Unopened (ocOpen path) := by
  intro g hg
  simp only [ocOpen, wp_bind]
  refine wp_mono ?_ (wp_quiet_nat (fun _ => rfl) hg)
  intro addr g₁ h₁
  cases addr with
  | none =>
    rw [wp_bind]
    exact strdup_copies fun p => .inl ⟨h₁, by norm_num⟩
  | some addr =>
  simp only [wp_bind]
  refine wp_mono ?_ (wp_quiet_nat (fun _ => rfl) h₁)
  intro library g₂ h₂
  cases library with
  | none =>
    simp only [wp_bind]
    refine wp_mono ?_ (wp_quiet_nat (fun _ => rfl) h₂)
    exact fun text g' h => ocOpenFail_fine _ _ h
  | some library =>
  simp only [wp_bind]
  refine wp_mono ?_ (wp_quiet_nat (fun _ => rfl) h₂)
  intro found g₃ h₃
  split
  · exact ocOpenFail_fine _ _ h₃
  simp only [wp_bind]
  refine wp_mono ?_ (wp_quiet_nat (fun _ => rfl) h₃)
  intro base g₄ h₄
  cases base with
  | none => exact ocOpenFail_fine _ _ h₄
  | some base =>
  simp only [wp_bind]
  refine wp_mono ?_ (wp_quiet_nat (fun _ => rfl) h₄)
  intro api g₅ h₅
  cases api with
  | none => exact ocOpenFail_fine _ _ h₅
  | some api =>
  simp only [wp_bind]
  refine wp_mono ?_ (wp_quiet_nat (fun _ => rfl) h₅)
  intro version g₆ h₆
  rw [wp_code]
  refine wpc_mono ?_ (ocOpenInit_faithful _ g₆ h₆)
  intro res r g₇ h₇
  cases res with
  | ok a => exact h₇
  | error status =>
    obtain ⟨rfl, hpos⟩ := h₇
    simp only [wp_bind]
    refine wp_read (wp_tell (strdup_copies fun p => wp_drop ?_))
    exact wp_mute (ocClose_mute _) fun _ => .inr ⟨status, rfl, hpos, rfl, rfl⟩

end Bridge

end

end Onnxcraft
