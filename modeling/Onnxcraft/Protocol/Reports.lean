import Onnxcraft.Protocol.Errors
import Onnxcraft.Protocol.Request

/-!
# What the exported functions report

The Go side of the protocol of native errors: `nativeError` reads the status that the bridge has
left and releases it, and every function above returns an error that tells that status, wrapped or
not, or the error of its context (`prog_reports`).
-/

namespace Onnxcraft

open Effect

section
variable [Platform] {g : Errors} {α β σ : Type}

/-- Go code that reports the status raised in it, if any. -/
abbrev Reporting (p : Act (Except GoError α)) : Prop := Upholds errors Errors.Fine Errors.Reports p

abbrev ReportingCode (c : GoCode σ α) : Prop := UpholdsCode errors Errors.Fine Errors.Reports c

theorem reporting_deferring {cleanup : Act Unit} {body : Act (Except GoError α)}
    (hc : Uses Op.Mute cleanup) (hb : Reporting body) : Reporting (.deferring cleanup body) :=
  .deferring (hc.mono fun _ h => h.ignored) hb

/-! ## runtime.go -/

theorem wp_within {f : CFunc} {body : Act α} {Q : α → Errors → Prop} (h : wp errors body Q g) :
    wp errors (cgo f body) Q g := by
  simp only [cgo, wp_bind]
  refine wp_mute (.perform trivial) fun _ => wp_mono ?_ h
  intro a g' h'
  exact wp_mute (.perform trivial) fun _ => h'

omit [Platform] in
theorem cgo_mute {f : CFunc} {body : Act α} (h : Uses Op.Mute body) : Uses Op.Mute (cgo f body) :=
  cgo_uses trivial trivial h

theorem nativeError_tells (r : Option OcRuntime) {x : Fallible α}
    (h : Settled Errors.Fine Errors.Raised x g) :
    wp errors (nativeError r x) (Settled Errors.Fine Errors.Told) g := by
  cases x with
  | ok a => exact h
  | error st =>
    obtain ⟨rfl, hpos⟩ := h
    simp only [nativeError, wp_bind]
    refine wp_mute (deref_uses _ fun _ => trivial) fun r => ?_
    exact wp_within (wp_read (wp_within (wp_tell (wp_within (wp_drop ⟨st, rfl, rfl⟩)))))

namespace Runtime

theorem native_tells (r : Nat) (f : OcRuntime → CFunc) {body : OcRuntime → Act (Fallible α)}
    (hb : ∀ n, Faithful (body n)) :
    Upholds errors Errors.Fine Errors.Told (native r f body) := by
  intro g hg
  simp only [native, wp_bind]
  refine wp_mute (.perform trivial) fun n => wp_mute (.perform trivial) fun n' => ?_
  refine wp_mute (deref_uses _ fun _ => trivial) fun n => ?_
  refine wp_mono ?_ (wp_within (hb n g hg))
  exact fun x g' h => nativeError_tells _ h

theorem cString_fine (text : GoString) (hf : g.Fine) :
    wp errors (cString text) (fun _ g' => g'.Fine) g := by
  simp only [cString, wp_bind]
  exact wp_quiet_nat (fun _ => rfl) hf

omit [Platform] in
theorem free_mute (p : Handle) : Uses Op.Mute (nat (.free p)) := .perform ⟨trivial, fun _ => rfl⟩

theorem loadConfig_reports (r : Nat) (raw : Handle) (entry : GoString × GoString) :
    ReportingCode (loadConfig r raw entry) := by
  unfold loadConfig
  dsimp only
  split
  · exact .fail fun g hg => hg.reports _
  split
  · exact .fail fun g hg => hg.reports _
  refine .bind (.lift fun g hg => cString_fine _ hg) fun k =>
    .bind (.lift fun g hg => cString_fine _ hg) fun v =>
    .lift_error (native_tells r .ocConfig fun _ => Bridge.ocConfig_faithful raw k v)
      (fun a => ?_) fun e st g hg => ?_
  · exact .bind (.lift fun g hg => wp_mute (free_mute _) fun _ => hg) fun _ =>
      .bind (.lift fun g hg => wp_mute (free_mute _) fun _ => hg) fun _ => .pure _
  · simp only [wpc_bind, wpc_lift]
    refine wp_mute (free_mute _) fun _ => wp_mute (free_mute _) fun _ => ?_
    exact hg.reports rfl

theorem addProviderOption_reports (entry : GoString × GoString) :
    ReportingCode (addProviderOption entry) := by
  unfold addProviderOption
  dsimp only
  split
  · exact .fail fun g hg => hg.reports _
  split
  · exact .fail fun g hg => hg.reports _
  exact .bind (.lift fun g hg => cString_fine _ hg) fun k => .bind (.modify _) fun _ =>
    .bind (.lift fun g hg => cString_fine _ hg) fun v => .modify _

theorem addProviderBody_reports (r : Nat) (o : Handle) (provider : Provider) (name : CStr) :
    ReportingCode (addProviderBody r o provider name) := by
  unfold addProviderBody
  refine .bind (.forEach addProviderOption_reports _) fun _ => .bind .get ?_
  intro strings
  obtain ⟨keys, values⟩ := strings
  refine .lift_error (native_tells r .ocProvider fun _ => Bridge.ocProvider_faithful o name keys values)
    (fun _ => .pure ()) fun e st g hg => ?_
  exact hg.reports rfl

omit [Platform] in
theorem freeOption_mute (keys values : List CStr) (i : Nat) :
    Uses Op.Mute (freeOption keys values i) :=
  (rd_uses _ _ fun _ => trivial).bind fun _ => (free_mute _).bind fun _ =>
    (rd_uses _ _ fun _ => trivial).bind fun _ => free_mute _

theorem addProvider_reports (r : Nat) (o : Handle) (provider : Provider) :
    Reporting (addProvider r o provider) := by
  unfold addProvider
  split
  · exact .error fun g hg => hg.reports _
  refine .after (fun g hg => cString_fine _ hg) fun name => reporting_deferring (free_mute _) ?_
  intro g hg
  simp only [wp_bind, wp_code]
  refine wpc_mono ?_ (addProviderBody_reports r o provider name ([], []) g hg)
  intro res strings g' h
  exact wp_mute (.fold (fun i _ => freeOption_mute _ _ i) _ _) fun _ => h

theorem loadPort_reports (ptr : OcSession) (p : OcPort) : ReportingCode (loadPort ptr p) := by
  unfold loadPort
  dsimp only
  split
  · refine .bind (.lift fun g hg => wp_mute ?_ fun _ => hg) fun _ => .fail fun g hg => hg.reports _
    exact cgo_mute ((Bridge.ocSessionFree_uses _).mono fun _ h => h.mute)
  · exact .bind (.lift fun g hg => wp_mute (goSlice_uses _ _ fun _ => trivial) fun _ => hg) fun _ =>
      .modify _

theorem loadSession_reports (r : Nat) (o : SessionOptions) (ptr : OcSession) :
    ReportingCode (loadSession r o ptr) := by
  unfold loadSession
  exact .bind (.lift fun g hg => wp_mute (goSlice_uses _ _ fun _ => trivial) fun _ => hg) fun ports =>
    .bind (.forEach (loadPort_reports ptr) _) fun _ => .bind .get fun info =>
    .bind (.lift fun g hg => wp_fine hg (fun o h => by cases h) fun _ _ _ h => h) fun _ =>
    .bind (.lift fun g hg => wp_mute (goSlice_uses _ _ fun _ => trivial) fun _ => hg) fun _ =>
    .bind (.lift fun g hg => wp_fine hg (fun o h => by cases h) fun _ _ _ h => h) fun _ => .pure _

theorem loadModel_reports (r : Nat) (cpath : Option CStr) (model : List UInt8) (o : SessionOptions)
    (raw : Handle) : Reporting (loadModel r cpath model o raw) := by
  intro g hg
  simp only [loadModel, wp_bind]
  refine wp_mono ?_ (native_tells r .ocLoad
    (fun native => Bridge.ocLoad_faithful native cpath model raw) g hg)
  intro res g' h
  cases res with
  | error e => exact h.reports rfl
  | ok ptr => exact Upholds.run (loadSession_reports r o ptr) [] g' h

theorem loadOptions_reports (r : Nat) (path : GoString) (model : List UInt8) (o : SessionOptions)
    (raw : Handle) : Reporting (loadOptions r path model o raw) := by
  intro g hg
  simp only [loadOptions, wp_bind]
  refine wp_mono ?_ (Upholds.run (.forEach (loadConfig_reports r raw) o.config) () g hg)
  intro res g₁ h₁
  cases res with
  | error e => exact h₁
  | ok a =>
  simp only [wp_bind]
  refine wp_mono ?_ (Upholds.run (c := (Code.forEach (fun p => .check (addProvider r raw p))
    o.providers : GoCode Unit Unit)) (.forEach (fun p => .check (addProvider_reports r raw p)) _)
    () g₁ h₁)
  intro res g₂ h₂
  cases res with
  | error e => exact h₂
  | ok a =>
  dsimp only
  split
  · exact loadModel_reports r none model o raw g₂ h₂
  · rw [wp_bind]
    refine wp_mono ?_ (cString_fine path h₂)
    exact fun cpath g₃ h₃ => reporting_deferring (free_mute _)
      (loadModel_reports r (some cpath) model o raw) g₃ h₃

theorem loadOpen_reports (r : Nat) (path : GoString) (model : List UInt8)
    (options : Option SessionOptions) : Reporting (loadOpen r path model options) := by
  intro g hg
  unfold loadOpen
  dsimp only
  split
  · exact hg.reports _
  simp only [wp_bind]
  refine wp_mono ?_ (native_tells r .ocOptionsNew (fun _ => Bridge.ocOptionsNew_faithful _) g hg)
  intro res g₁ h₁
  cases res with
  | error e => exact h₁.reports rfl
  | ok raw =>
    simp only [wp_bind]
    refine wp_mute (.perform trivial) fun n => wp_mute (deref_uses _ fun _ => trivial) fun n => ?_
    refine reporting_deferring (cgo_mute ?_) (loadOptions_reports r path model _ raw) g₁ h₁
    exact .perform ⟨trivial, fun _ => rfl⟩

theorem load_reports (r : Nat) (path : GoString) (model : List UInt8)
    (options : Option SessionOptions) : Reporting (load r path model options) := by
  have hlocked : Reporting (loadLocked r path model options) := by
    intro g hg
    simp only [loadLocked, wp_bind]
    refine wp_mute (.perform trivial) fun closed => ?_
    split
    · exact hg.reports _
    simp only [wp_bind]
    refine wp_mute (.perform trivial) fun n => ?_
    cases n with
    | none => exact hg.reports _
    | some n => exact loadOpen_reports r path model options g hg
  intro g hg
  simp only [load, wp_bind]
  refine wp_mute (.perform trivial) fun _ => ?_
  exact reporting_deferring (.perform trivial) hlocked g hg

end Runtime

theorem openLibrary_reports (path : GoString) : Reporting (openLibrary path) := by
  unfold openLibrary
  split
  · exact .error fun g hg => hg.reports _
  refine .after (fun g hg => wp_mute (.perform trivial) fun _ => hg) fun abs => ?_
  cases abs with
  | error err => exact .error fun g hg => hg.reports _
  | ok path =>
  refine .after (fun g hg => Runtime.cString_fine _ hg) fun cpath =>
    reporting_deferring (Runtime.free_mute _) ?_
  intro g hg
  rw [wp_bind]
  refine wp_mono ?_ (wp_within (Bridge.ocOpen_upholds cpath g hg))
  intro res g₁ h₁
  cases res with
  | ok ptr =>
    rw [wp_bind]
    exact wp_fine h₁ (fun o h => by cases h) fun _ _ _ h => h
  | error err =>
    obtain ⟨code, message⟩ := err
    simp only [wp_deferring]
    have hfree : ∀ Q : Except GoError Nat → Errors → Prop, ∀ e, Q e g₁ →
        wp errors (freePtr (message.map (·.addr))) (fun _ g' => Q e g') g₁ := fun Q e h =>
      wp_mute (freePtr_uses _ fun _ => ⟨trivial, fun _ => rfl⟩) fun _ => h
    split
    next hcode =>
      refine hfree _ _ ?_
      rcases h₁ with ⟨hfine, -⟩ | ⟨st, rfl, -, rfl, hmessage⟩
      · exact hfine.reports _
      · refine .inr ⟨st, rfl, .inl ?_⟩
        rw [← hmessage]
        rfl
    next hcode =>
      refine hfree _ _ ?_
      rcases h₁ with ⟨hfine, -⟩ | ⟨st, rfl, hpos, rfl, -⟩
      · exact hfine.reports _
      · exact absurd hpos hcode

/-! ## session.go -/

/-- The context is asked: what it has answered is remembered. -/
theorem wp_asked {c : Ctx} {Q : Option CtxError → Errors → Prop}
    (hQ : ∀ a, (∀ e, g.seen = some e → a = some e) → Q a { g with seen := a }) :
    wp errors (ctxErr c) Q g :=
  ⟨⟨fun h => h.elim, trivial⟩, hQ⟩

omit [Platform] in
theorem finish_mute (r : OcRuntime) (options : Handle) (id : Nat) :
    Uses Op.Mute (finish r options id) := by
  refine (Uses.perform trivial).bind fun stopped => .bind ?_ fun _ =>
    cgo_mute (.perform ⟨trivial, fun _ => rfl⟩)
  split
  · exact .pure ()
  · exact .perform trivial

namespace Session

theorem fillDescriptor_reports (t : Tensor) : ReportingCode (fillDescriptor t) := by
  refine .ignored (fun st => ((fillDescriptor_uses t) st).mono fun e he => ?_) fun e g hg => hg.reports e
  apply Op.Mute.ignored
  cases e with
  | mem o => cases o <;> trivial
  | fault f => trivial
  | _ => exact he.elim

/-- A step of the copy of an output. -/
theorem wp_copy {o : MemOp} {Q : o.Resp → Errors → Prop} (hf : g.Fine)
    (hQ : ∀ a g', g'.Fine → Q a g') : wp errors (mem o) Q g :=
  wp_fine hf (fun o h => by cases h) fun a g' _ h => hQ a g' h

theorem collectOutput_reports (output : OcTensor) : ReportingCode (collectOutput output) := by
  unfold collectOutput
  refine .bind (.lift fun g hg => wp_mute (goSlice_uses _ _ fun _ => trivial) fun _ => hg) fun shape => ?_
  dsimp only
  split
  · exact .fail fun g hg => hg.reports _
  refine .bind .get fun result => ?_
  split
  · exact .fail fun g hg => hg.reports _
  refine .bind ?_ fun _ => .bind (.lift fun g hg => wp_copy hg fun _ _ h => h) fun ptr =>
    .bind (.lift fun g hg => wp_copy hg fun _ _ h => h) fun bytes =>
    .bind (.lift fun g hg => wp_copy hg fun _ _ h => h) fun _ => .modify _
  split
  · exact .lift fun g hg => wp_mute (fault_uses _ trivial) fun _ => hg
  · exact .pure ()

theorem collect_reports (ctx : Ctx) (r : Option OcRuntime) (into : Bool)
    {status : Option OrtStatus} (outs : List OcTensor) (h : Answers status g) :
    wp errors (collect ctx r into status outs) (Settled Errors.Fine Errors.Reports) g := by
  simp only [collect, wp_bind]
  refine wp_mono ?_ (nativeError_tells r (by cases status <;> exact h))
  intro err g₁ h₁
  -- what `nativeError` has left of the status
  have hfate : g₁.Fine ∨ ∃ st, g₁.fate = .gone st := by
    cases err with
    | ok a => exact .inl h₁
    | error e =>
      obtain ⟨st, rfl, -⟩ := h₁
      exact .inr ⟨st, rfl⟩
  refine wp_asked fun e he => ?_
  cases e with
  | some e =>
    simp only [wp_bind]
    refine wp_asked fun e' he' => ?_
    obtain rfl := he' e rfl
    rcases hfate with hfine | ⟨st, hover⟩
    · exact .inl hfine
    · exact .inr ⟨st, hover, .inr ⟨e, rfl, rfl⟩⟩
  | none =>
    cases err with
    | error e =>
      obtain ⟨st, rfl, rfl⟩ := h₁
      exact .inr ⟨st, rfl, .inl rfl⟩
    | ok a =>
      have h₁ : Errors.Fine { g₁ with seen := none } := h₁
      dsimp only
      split
      · exact h₁
      · simp only [wp_bind, wp_code]
        refine wpc_mono ?_ ((UpholdsCode.forEach collectOutput_reports outs) [] _ h₁)
        intro res result g₂ h₂
        cases res with
        | ok a => exact h₂
        | error e => exact h₂

variable (s : Session) (ctx : Ctx) (inputs outputs : List Tensor) (into : Bool)

theorem runNative_reports (r : Option OcRuntime) (options : Option Handle)
    (descriptors : List OcTensor) :
    Reporting (s.runNative ctx r options into descriptors) := by
  intro g hg
  unfold runNative
  split
  · exact ⟨⟨fun h => h.elim, trivial⟩, fun a => a.elim⟩
  simp only [wp_bind]
  refine wp_mute (.perform trivial) fun n => wp_mute (deref_uses _ fun _ => trivial) fun native => ?_
  split
  · have hrun : wp errors (Bridge.ocRunInto native options descriptors
        (descriptors.drop s.inputs.length)) Answers g := by
      simp only [Bridge.ocRunInto, wp_bind]
      exact Bridge.run_answers native options _ _ _ hg
    rw [wp_bind]
    refine wp_mono ?_ (wp_within hrun)
    exact fun status g' h => collect_reports ctx r into [] h
  · rw [wp_bind]
    have hrun : wp errors (Bridge.ocRun native options descriptors
        (descriptors.drop s.inputs.length)) (fun res g' => Answers res.1 g') g := by
      simp only [Bridge.ocRun, wp_bind]
      refine wp_mono ?_ (Bridge.run_answers native options _ _ _ hg)
      intro res g' h
      exact wp_mute (deref_uses _ fun _ => trivial) fun _ => h
    refine wp_mono ?_ (wp_within hrun)
    intro res g' h
    obtain ⟨status, out⟩ := res
    simp only [wp_bind]
    refine wp_mute (.perform trivial) fun n => wp_mute (deref_uses _ fun _ => trivial) fun native => ?_
    rw [wp_deferring]
    refine wp_mono ?_ (collect_reports ctx r into out h)
    intro res g'' h'
    refine wp_mute (cgo_mute (.bind ?_ fun _ => .pure _)) fun _ => h'
    exact .fold (fun i _ => (rd_uses _ _ fun _ => trivial).bind fun _ =>
      (whenSome_uses fun _ => .perform ⟨trivial, fun _ => rfl⟩).bind fun _ => .pure _) _ _

theorem runPinned_reports (descriptors : List OcTensor) :
    Reporting (s.runPinned ctx inputs outputs into descriptors) := by
  intro g hg
  simp only [runPinned, wp_bind, wp_code]
  refine wpc_mono ?_ ((UpholdsCode.forEach fillDescriptor_reports (inputs ++ outputs))
    (descriptors, 0) g hg)
  intro res st g₁ h₁
  obtain ⟨descriptors, index⟩ := st
  cases res with
  | error err => exact h₁
  | ok a =>
  simp only [wp_bind]
  refine wp_mute (.perform trivial) fun r => ?_
  split
  · simp only [watchContext, wp_bind]
    refine wp_mute (deref_uses _ fun _ => trivial) fun native => ?_
    refine wp_mono ?_ (wp_within (faithful_of (fun g hg => wp_fails (by trivial) hg) g₁ h₁))
    intro x g₂ h₂
    refine wp_mono ?_ (nativeError_tells r h₂)
    intro res g₃ h₃
    cases res with
    | error err => exact h₃.reports rfl
    | ok options =>
      rw [wp_bind]
      refine wp_mute (.perform trivial) fun id => ?_
      exact reporting_deferring (finish_mute native options id)
        (runNative_reports s ctx into r (some options) descriptors) g₃ h₃
  · exact runNative_reports s ctx into r none descriptors g₁ h₁

theorem runGated_reports : Reporting (s.runGated ctx inputs outputs into) := by
  unfold runGated
  split
  · exact .error fun g hg => hg.reports _
  split
  · exact .error fun g hg => hg.reports _
  split
  · exact .error fun g hg => hg.reports _
  · exact .perform (fun g hg => ⟨⟨fun h => h.elim, trivial⟩, fun _ _ => hg⟩) fun buffer =>
      reporting_deferring (.perform trivial)
        (reporting_deferring (.perform trivial) (runPinned_reports s ctx inputs outputs into _))

theorem run_reports : Reporting (s.run ctx inputs outputs into) := by
  have hgated := runGated_reports s ctx inputs outputs into
  have hlocked : Reporting (s.runLocked ctx inputs outputs into) := by
    intro g hg
    simp only [runLocked, wp_bind]
    refine wp_mute (.perform trivial) fun n => ?_
    cases n with
    | none => exact hg.reports _
    | some n =>
    dsimp only
    split
    · rw [wp_bind]
      refine wp_mute (.perform trivial) fun sent => ?_
      split
      · refine reporting_deferring (.perform trivial) ?_ g hg
        intro g hg
        rw [wp_bind]
        refine wp_asked fun e _ => ?_
        cases e with
        | some e => exact .inl hg
        | none => exact hgated _ hg
      · rw [wp_bind]
        refine wp_asked fun e _ => ?_
        cases e with
        | some e => exact .inl hg
        | none => exact hg
    · exact hgated g hg
  intro g hg
  simp only [run, wp_bind]
  refine wp_asked fun e _ => ?_
  cases e with
  | some e => exact .inl hg
  | none =>
    rw [wp_bind]
    refine wp_mute (.perform trivial) fun _ => ?_
    exact reporting_deferring (.perform trivial) hlocked _ hg

end Session

/-! ## Calls -/

/-- The error of what a call returns. -/
def Ret.error : Ret → Option GoError
  | .runtime res => failure res
  | .session res => failure res
  | .tensors res => failure res
  | .none res => failure res

/-- A call that returns an error. -/
def Call.MayFail : Call → Prop
  | .openLibrary _ | .load _ _ _ | .loadBytes _ _ _ | .run _ _ _ | .runInto _ _ _ _ => True
  | _ => False

/-- **What a call reports**: no status, or the one that it has got. -/
theorem prog_reports {c : Call} (hc : c.MayFail) :
    wp errors c.prog (fun ret g => ret.error.elim g.Fine g.Reports) Errors.start := by
  have hfine : Errors.start.Fine := rfl
  cases c with
  | openLibrary path =>
    refine wp_map.2 (wp_mono ?_ (openLibrary_reports path _ hfine))
    intro res g h
    cases res <;> exact h
  | load r path options =>
    refine wp_map.2 ?_
    unfold Runtime.loadFile
    split
    · exact Errors.Fine.reports hfine _
    · refine wp_mono ?_ (Runtime.load_reports r path [] options _ hfine)
      intro res g h
      cases res <;> exact h
  | loadBytes r model options =>
    refine wp_map.2 ?_
    unfold Runtime.loadBytes
    split
    · exact Errors.Fine.reports hfine _
    · refine wp_mono ?_ (Runtime.load_reports r [] model options _ hfine)
      intro res g h
      cases res <;> exact h
  | closeRuntime r => exact hc.elim
  | closeSession s => exact hc.elim
  | run s ctx inputs =>
    refine wp_map.2 (wp_mono ?_ (Session.run_reports s ctx inputs [] false _ hfine))
    intro res g h
    cases res <;> exact h
  | runInto s ctx outputs inputs =>
    refine wp_map.2 ?_
    unfold Session.runInto
    refine wp_bind.2 (wp_mono ?_ (Session.run_reports s ctx inputs outputs true _ hfine))
    intro res g h
    cases res <;> exact h
  | callback r options id => exact hc.elim

end

end Onnxcraft
