import Onnxcraft.Protocol.Point
import Onnxcraft.Protocol.RunLog

/-!
# Every call performs its operation

`course_spec`: a call performs at most one operation on the registry, and returns what that
operation says; a call that has performed none fails for a reason of its own.
-/

namespace Onnxcraft

open Effect

/-! ## Errors -/

/-- The code does not say that its runtime or its session is closed. -/
def NotClosed {α : Type} (p : Act (Except GoError α)) : Prop :=
  wp (assuming fun _ => True) p (fun res _ => res ≠ .error .closed) ()

/-- The same for code with local variables. -/
def NotClosedCode {α σ : Type} (code : GoCode σ α) : Prop :=
  ∀ st, wpc (assuming fun _ => True) code (fun res _ _ => res ≠ .error .closed) st ()

section
variable {α β σ : Type}

/-- What follows code whose answer does not matter. -/
theorem NotClosed.after {p : Act β} {f : β → Act (Except GoError α)} (h : ∀ b, NotClosed (f b)) :
    NotClosed (p >>= f) :=
  wp_bind.2 (wp_whatever p h)

theorem NotClosed.deferring {cleanup : Act Unit} {body : Act (Except GoError α)}
    (h : NotClosed body) : NotClosed (.deferring cleanup body) :=
  wp_deferring.2 (wp_mono (fun _ _ hres => wp_whatever cleanup fun _ => hres) h)

theorem NotClosedCode.pure (a : α) : NotClosedCode (pure a : GoCode σ α) := fun _ h => by cases h

theorem NotClosedCode.get : NotClosedCode (Code.get : GoCode σ σ) := fun _ h => by cases h

theorem NotClosedCode.modify (f : σ → σ) : NotClosedCode (Code.modify f : GoCode σ Unit) :=
  fun _ h => by cases h

theorem NotClosedCode.fail {err : GoError} (h : err ≠ .closed) :
    NotClosedCode (Code.fail err : GoCode σ α) :=
  fun _ he => h (Except.error.inj he)

theorem NotClosedCode.lift (p : Act α) : NotClosedCode (Code.lift p : GoCode σ α) :=
  fun _ => wpc_lift.2 (wp_whatever p fun _ h => by cases h)

theorem NotClosedCode.bind {code : GoCode σ α} {f : α → GoCode σ β} (hc : NotClosedCode code)
    (hf : ∀ a, NotClosedCode (f a)) : NotClosedCode (code >>= f) := by
  intro st
  refine wpc_bind.2 (wpc_mono (fun res st' _ hres => ?_) (hc st))
  cases res with
  | ok a => exact hf a st'
  | error e => exact fun h => hres (congrArg Except.error (Except.error.inj h))

theorem NotClosedCode.forEach {body : β → GoCode σ Unit} (h : ∀ x, NotClosedCode (body x))
    (xs : List β) : NotClosedCode (Code.forEach body xs) := by
  induction xs with
  | nil => exact .pure ()
  | cons x xs ih => exact (h x).bind fun _ => ih

end

section
variable [Platform] {c : Call} {g : Course}

/-! ## Open -/

/-- How `Open` ends. -/
def Opened (res : Except GoError Nat) (g : Course) : Prop :=
  (∃ r, res = .ok r ∧ g.op = some (.opened r)) ∨ (∃ err, res = .error err) ∧ g.op = none

theorem openPath_course (hc : c.Opens) (path : GoString) (hg : g.op = none) :
    wp c.course (openPath path) Opened g := by
  refine wp_bind.2 (wp_still (cString_still path) fun cpath => wp_deferring.2 (wp_bind.2 ?_))
  refine wp_still (cgo_still (Bridge.ocOpen_still cpath)) fun x => ?_
  cases x with
  | error e =>
    obtain ⟨code, message⟩ := e
    refine wp_deferring.2 ?_
    split
    all_goals
      refine (wp_pure _).2 (wp_still (freePtr_uses _ fun _ => trivial) fun _ => ?_)
      refine wp_still (p := nat (.free cpath.addr)) (.perform trivial) fun _ => ?_
      exact .inr ⟨⟨_, rfl⟩, hg⟩
  | ok ptr =>
    refine wp_bind.2 (wp_perform.2 ⟨⟨hc, hg⟩, fun r _ => ?_⟩)
    refine (wp_pure _).2 (wp_still (.perform trivial) fun _ => .inl ⟨r, rfl, ?_⟩)
    show (g.op <|> some (.opened r)) = some (.opened r)
    rw [hg]
    rfl

theorem openLibrary_course (hc : c.Opens) (path : GoString) (hg : g.op = none) :
    wp c.course (openLibrary path) Opened g := by
  unfold openLibrary
  split
  · exact .inr ⟨⟨_, rfl⟩, hg⟩
  refine wp_bind.2 (wp_still (.perform trivial) fun x => ?_)
  cases x with
  | error err => exact .inr ⟨⟨err, rfl⟩, hg⟩
  | ok path => exact openPath_course hc path hg

/-! ## Load -/

namespace Runtime

/-- The code leaves the registry alone, and does not say that the runtime is closed. -/
def Passed {α : Type} (g : Course) (res : Except GoError α) (g' : Course) : Prop :=
  g' = g ∧ res ≠ .error .closed

/-- How a load ends. -/
def Came (r : Nat) (res : Except GoError Session) (g : Course) : Prop :=
  (∃ o, LoadMeans r res o ∧ g.op = some o) ∨ FailsElse res ∧ g.op = none

omit [Platform] in
theorem loadConfig_course (r : Nat) (raw : Handle) (entry : GoString × GoString) :
    wpc c.course (loadConfig r raw entry) (fun res _ => Passed g res) () g := by
  unfold loadConfig
  dsimp only
  split
  · exact ⟨rfl, by simp⟩
  split
  · exact ⟨rfl, by simp⟩
  refine wpc_bind.2 (wpc_lift.2 (wp_still (cString_still _) fun k => ?_))
  refine wpc_bind.2 (wpc_lift.2 (wp_still (cString_still _) fun v => ?_))
  refine wpc_bind.2 (wpc_lift.2 (wp_still (native_still _ _ fun _ => .perform trivial) fun err => ?_))
  refine wpc_bind.2 (wpc_lift.2 (wp_still (.perform trivial) fun _ => ?_))
  refine wpc_bind.2 (wpc_lift.2 (wp_still (.perform trivial) fun _ => ?_))
  cases err with
  | ok _ => exact ⟨rfl, by simp⟩
  | error e => exact ⟨rfl, by simp⟩

omit [Platform] in
theorem addProviderOption_course (entry : GoString × GoString) (st : List CStr × List CStr) :
    wpc c.course (addProviderOption entry) (fun res _ => Passed g res) st g := by
  unfold addProviderOption
  dsimp only
  split
  · exact ⟨rfl, by simp⟩
  split
  · exact ⟨rfl, by simp⟩
  refine wpc_bind.2 (wpc_lift.2 (wp_still (cString_still _) fun k => ?_))
  refine wpc_bind.2 (wpc_modify.2 ?_)
  refine wpc_bind.2 (wpc_lift.2 (wp_still (cString_still _) fun v => ?_))
  exact ⟨rfl, by simp⟩

omit [Platform] in
/-- A loop whose body leaves the registry alone. -/
theorem forEach_course {α σ : Type} {body : α → GoCode σ Unit} (xs : List α) (st : σ)
    (h : ∀ x st, wpc c.course (body x) (fun res _ => Passed g res) st g) :
    wpc c.course (Code.forEach body xs) (fun res _ => Passed g res) st g := by
  refine wpc_forEach (fun _ _ g' => g' = g) ?_ (fun _ g' hg' => ⟨hg', by simp⟩) rfl
  intro done x rest st g' _ hg'
  subst hg'
  refine wpc_mono (fun res st g' h => ?_) (h x st)
  cases res with
  | ok _ => exact h.1
  | error e => exact h

omit [Platform] in
theorem addProvider_course (r : Nat) (o : Handle) (provider : Provider) :
    wp c.course (addProvider r o provider) (Passed g) g := by
  unfold addProvider
  split
  · exact ⟨rfl, by simp⟩
  refine wp_bind.2 (wp_still (cString_still _) fun name => wp_deferring.2 (wp_bind.2 ?_))
  have hbody : wpc c.course (addProviderBody r o provider name) (fun res _ => Passed g res) ([], [])
      g := by
    refine wpc_bind.2 (wpc_mono (fun res st g' h => ?_)
      (forEach_course provider.options ([], []) addProviderOption_course))
    obtain ⟨rfl, hne⟩ := h
    cases res with
    | error e => exact ⟨rfl, fun h => hne (congrArg _ (Except.error.inj h))⟩
    | ok _ =>
      refine wpc_bind.2 (wpc_get.2 ?_)
      refine wpc_bind.2 (wpc_lift.2 (wp_still
        (native_still _ _ fun _ => Bridge.ocProvider_still ..) fun err => ?_))
      cases err with
      | ok _ => exact ⟨rfl, by simp⟩
      | error e => exact ⟨rfl, by simp⟩
  refine wp_mono (fun x g' h => ?_) hbody
  obtain ⟨⟨keys, values⟩, res⟩ := x
  obtain ⟨rfl, hne⟩ := h
  have hfree : ∀ i, Uses Op.Still (freeOption keys values i) := fun i =>
    (rd_uses _ _ fun _ => trivial).bind fun k => (Uses.perform trivial).bind fun _ =>
    (rd_uses _ _ fun _ => trivial).bind fun v => .perform trivial
  refine wp_bind.2 (wp_still (.fold (fun i _ => hfree i) _ _) fun _ => ?_)
  exact (wp_pure _).2 (wp_still (.perform trivial) fun _ => ⟨rfl, hne⟩)

theorem loadPort_course (ptr : OcSession) (p : OcPort) (st : List TensorInfo) :
    wpc c.course (loadPort ptr p) (fun res _ => Passed g res) st g := by
  unfold loadPort
  dsimp only
  split
  · refine wpc_bind.2 (wpc_lift.2 (wp_still (cgo_still (Bridge.ocSessionFree_still _)) fun _ => ?_))
    exact ⟨rfl, by simp⟩
  · refine wpc_bind.2 (wpc_lift.2 (wp_still (goSlice_uses _ _ fun _ => trivial) fun _ => ?_))
    exact ⟨rfl, by simp⟩

section
variable {r : Nat} (hc : c.loadArgs.map (·.1) = some r) (hg : g.op = none ∧ g.sure = true)
include hc hg

theorem loadSession_course (o : SessionOptions) (ptr : OcSession) :
    wp c.course ((loadSession r o ptr).run []) (Came r) g := by
  refine wp_run.2 ?_
  refine wpc_bind.2 (wpc_lift.2 (wp_still (goSlice_uses _ _ fun _ => trivial) fun ports => ?_))
  refine wpc_bind.2 (wpc_mono (fun res info g' h => ?_)
    (forEach_course ports [] (loadPort_course ptr)))
  obtain ⟨rfl, hne⟩ := h
  cases res with
  | error e => exact .inr ⟨⟨e, rfl, fun h => hne (h ▸ rfl)⟩, hg.1⟩
  | ok _ =>
    refine wpc_bind.2 (wpc_get.2 ?_)
    refine wpc_bind.2 (wpc_lift.2 (wp_still (.perform trivial) fun _ => ?_))
    refine wpc_bind.2 (wpc_lift.2 (wp_still (goSlice_uses _ _ fun _ => trivial) fun inputs => ?_))
    refine wpc_bind.2 (wpc_lift.2 (wp_perform.2 ⟨⟨hc, hg⟩, fun id _ => ?_⟩))
    refine .inl ⟨_, .inr ⟨_, rfl, rfl, rfl⟩, ?_⟩
    show (g'.op <|> some _) = some _
    rw [hg.1]
    rfl

theorem loadModel_course (cpath : Option CStr) (model : List UInt8) (o : SessionOptions)
    (raw : Handle) : wp c.course (loadModel r cpath model o raw) (Came r) g := by
  refine wp_bind.2 (wp_still (native_still _ _ fun _ => Bridge.ocLoad_still ..) fun x => ?_)
  cases x with
  | error e => exact .inr ⟨⟨_, rfl, by simp⟩, hg.1⟩
  | ok ptr => exact loadSession_course hc hg o ptr

omit [Platform] hc in
/-- A failure of the options ends the load. -/
theorem came_of_passed {α : Type} {res : Except GoError α} {g' : Course} {err : GoError}
    (h : Passed g res g') (hres : res = .error err) : Came r (.error err) g' := by
  obtain ⟨rfl, hne⟩ := h
  refine .inr ⟨⟨err, rfl, ?_⟩, hg.1⟩
  rintro rfl
  exact hne hres

theorem loadOptions_course (path : GoString) (model : List UInt8) (o : SessionOptions)
    (raw : Handle) : wp c.course (loadOptions r path model o raw) (Came r) g := by
  refine wp_bind.2 (wp_run.2 (wpc_mono (fun res _ g' h => ?_)
    (forEach_course o.config () fun entry _ => loadConfig_course r raw entry)))
  cases res with
  | error err => exact came_of_passed hg h rfl
  | ok _ =>
  obtain ⟨rfl, -⟩ := h
  refine wp_bind.2 (wp_run.2 (wpc_mono (fun res _ g'' h => ?_)
    (forEach_course o.providers () fun p _ => wpc_check.2 (addProvider_course r raw p))))
  cases res with
  | error err => exact came_of_passed hg h rfl
  | ok _ =>
  obtain ⟨rfl, -⟩ := h
  dsimp only
  split
  · exact loadModel_course hc hg none model o raw
  · refine wp_bind.2 (wp_still (cString_still _) fun cpath => wp_deferring.2 ?_)
    exact wp_mono (fun res g' h => wp_still (.perform trivial) fun _ => h)
      (loadModel_course hc hg (some cpath) model o raw)

theorem loadOpen_course (path : GoString) (model : List UInt8) (options : Option SessionOptions) :
    wp c.course (loadOpen r path model options) (Came r) g := by
  unfold loadOpen
  dsimp only
  split
  · exact .inr ⟨⟨_, rfl, by simp⟩, hg.1⟩
  refine wp_bind.2 (wp_still (native_still _ _ fun _ => Bridge.ocOptionsNew_still _) fun x => ?_)
  cases x with
  | error e => exact .inr ⟨⟨_, rfl, by simp⟩, hg.1⟩
  | ok raw =>
    refine wp_bind.2 (wp_still (.perform trivial) fun n => ?_)
    refine wp_bind.2 (wp_still (deref_uses _ fun _ => trivial) fun native => wp_deferring.2 ?_)
    exact wp_mono (fun res g' h => wp_still (cgo_still (.perform trivial)) fun _ => h)
      (loadOptions_course hc hg path model (options.getD {}) raw)

end

omit [Platform] in
/-- Giving the mutex back performs nothing. -/
theorem wp_unlock {r r' : Nat} {res : Except GoError Session} (h : Came r res g) :
    wp c.course (rt r' .unlock) (fun _ g' => Came r res g') g := by
  refine wp_perform.2 ⟨trivial, fun _ _ => ?_⟩
  have hop : (g.op <|> c.point (.rt r' .unlock) ()) = g.op := by cases g.op <;> rfl
  rcases h with ⟨o, ho, hg⟩ | ⟨hres, hg⟩
  · exact .inl ⟨o, ho, hop.trans hg⟩
  · exact .inr ⟨hres, hop.trans hg⟩

omit [Platform] in
/-- A load that finds its runtime closed says so. -/
theorem point_refused {r : Nat} (hc : c.loadArgs.map (·.1) = some r) (r' : Nat) :
    c.point (.rt r' .getClosed) true = some (.refused r') := by
  cases c with
  | load => rfl
  | loadBytes => rfl
  | _ => cases hc

theorem load_course {r : Nat} (hc : c.loadArgs.map (·.1) = some r) (path : GoString)
    (model : List UInt8) (options : Option SessionOptions) :
    wp c.course (load r path model options) (Came r) .start := by
  refine wp_bind.2 (wp_still (.perform trivial) fun _ => wp_deferring.2 ?_)
  refine wp_mono (Q := Came r) (fun res g' h => wp_unlock h) ?_
  refine wp_bind.2 (wp_perform.2 ⟨trivial, fun closed _ => ?_⟩)
  cases closed with
  | true => exact .inl ⟨_, .inl ⟨rfl, rfl⟩, point_refused hc r⟩
  | false =>
    have hop : ((none : Option Registry.Action) <|> c.point (.rt r .getClosed) false) = none := by
      cases c <;> rfl
    refine wp_bind.2 (wp_perform.2 ⟨trivial, fun n hn => ?_⟩)
    rw [Call.course_still (show Op.Still (.rt r .getNative) from trivial)]
    obtain ⟨x, rfl⟩ := Option.isSome_iff_exists.1 (hn rfl)
    exact loadOpen_course hc ⟨hop, rfl⟩ path model options

end Runtime

/-! ## Close -/

omit [Platform] in
/-- Code of a call that has performed its operation. -/
theorem wp_settled_op {α : Type} {o : Registry.Action} {p : Act α} (hp : Uses Op.Quiet p)
    (hg : g.op = some o) : wp c.course p (fun _ g' => g'.op = some o) g :=
  wp_mono (fun _ _ h => h.1) (wp_settled (Y := fun _ => True) hp hg (wp_whatever _ fun _ => trivial))

omit [Platform] in
theorem Runtime.release_quiet (r : Nat) (owner : Option Nat) :
    Uses Op.Quiet (Runtime.release r owner) := by
  refine (Uses.perform trivial).bind fun refs => ?_
  split
  · refine (Uses.perform trivial).bind fun n => ?_
    exact ((cgo_still (Bridge.ocClose_still n)).mono fun _ h => h.quiet).bind fun _ =>
      .perform trivial
  · exact .pure ()

omit [Platform] in
theorem Runtime.close_course (r : Nat) :
    wp (Call.closeRuntime r).course (Runtime.close r) (fun _ g => g.op = some (.closedRuntime r))
      .start := by
  refine wp_bind.2 (wp_still (.perform trivial) fun _ => wp_deferring.2 ?_)
  refine wp_mono (Q := fun _ g' => g'.op = some (.closedRuntime r))
    (fun _ g' h => wp_settled_op (.perform trivial) h) ?_
  refine wp_bind.2 (wp_perform.2 ⟨trivial, fun closed _ => ?_⟩)
  cases closed with
  | true => rfl
  | false =>
    refine wp_bind.2 (wp_perform.2 ⟨⟨rfl, rfl⟩, fun _ _ => ?_⟩)
    refine wp_settled_op ?_ rfl
    refine (Uses.perform trivial).bind fun n => ?_
    split
    · exact Runtime.release_quiet r none
    · exact .pure ()

theorem Session.close_course (s : Session) :
    wp (Call.closeSession s).course s.close (fun _ g => g.op = some (.closedSession s)) .start := by
  refine wp_bind.2 (wp_still (.perform trivial) fun _ => wp_bind.2 ?_)
  refine wp_still (.perform trivial) fun _ => wp_deferring.2 ?_
  refine wp_mono (Q := fun _ g' => g'.op = some (.closedSession s))
    (fun _ g' h => wp_settled_op (.perform trivial) h) ?_
  refine wp_bind.2 (wp_perform.2 ⟨trivial, fun n _ => ?_⟩)
  cases n with
  | none => rfl
  | some n =>
    -- it reads `native` again
    refine wp_bind.2 (wp_perform.2 ⟨trivial, fun n' hn => ?_⟩)
    obtain ⟨n', rfl⟩ := Option.isSome_iff_exists.1 (hn rfl)
    refine wp_bind.2 (wp_still (cgo_still (Bridge.ocSessionFree_still _)) fun _ => ?_)
    refine wp_bind.2 (wp_perform.2 ⟨⟨⟨s, rfl⟩, rfl⟩, fun _ _ => ?_⟩)
    refine wp_settled_op ?_ rfl
    exact (Uses.perform trivial).bind fun _ =>
      (Runtime.release_quiet s.runtime (some s.id)).bind fun _ => .perform trivial

/-! ## Run -/

theorem tensorSize_text {shape : List Int} {size : Int} {err : GoError}
    (h : tensorSize shape size = .error err) : ∃ format args, err = .text format args := by
  unfold tensorSize at h
  split at h
  next e he =>
    obtain rfl := Except.error.inj h
    obtain ⟨b, d, hstep⟩ := foldlM_error he
    split at hstep
    · exact ⟨_, _, (Except.error.inj hstep).symm⟩
    · cases hstep
  next =>
  split at h
  · exact ⟨_, _, (Except.error.inj h).symm⟩
  split at h
  · cases h
  split at h
  next e he =>
    obtain rfl := Except.error.inj h
    obtain ⟨b, d, hstep⟩ := foldlM_error he
    split at hstep
    · exact ⟨_, _, (Except.error.inj hstep).symm⟩
    · cases hstep
  next =>
  split at h
  · exact ⟨_, _, (Except.error.inj h).symm⟩
  · cases h

namespace Session

theorem collectOutput_notClosed (output : OcTensor) : NotClosedCode (collectOutput output) := by
  refine .bind (.lift _) fun shape => ?_
  dsimp only
  split
  next err herr =>
    obtain ⟨_, _, rfl⟩ := tensorSize_text herr
    exact .fail (by simp)
  refine .bind .get fun result => ?_
  split
  · exact .fail (by simp)
  refine .bind ?_ fun _ => .bind (.lift _) fun _ => .bind (.lift _) fun _ =>
    .bind (.lift _) fun _ => .modify _
  split
  · exact .lift _
  · exact .pure ()

theorem fillDescriptor_notClosed (t : Tensor) : NotClosedCode (fillDescriptor t) := by
  refine .bind .get fun vars => ?_
  obtain ⟨descriptors, index⟩ := vars
  dsimp only
  split
  · exact .fail (by simp)
  refine .bind ?_ fun _ => .bind ?_ fun _ => .bind (.lift _) fun _ => .modify _
  all_goals
    split
    · exact .pure ()
    · exact .lift _

theorem collect_notClosed (ctx : Ctx) (r : Option OcRuntime) (into : Bool)
    (status : Option OrtStatus) (outs : List OcTensor) :
    NotClosed (collect ctx r into status outs) := by
  refine .after fun err => .after fun e => ?_
  cases e with
  | some _ =>
    refine .after fun e => ?_
    cases e <;> exact fun h => by cases h
  | none =>
    cases err with
    | error e => exact fun h => by cases h
    | ok _ =>
      dsimp only
      split
      · exact fun h => by cases h
      refine wp_bind.2 (wp_mono (fun x _ hx => ?_)
        (NotClosedCode.forEach collectOutput_notClosed outs []))
      obtain ⟨result, err | _⟩ := x
      · exact fun h => hx (congrArg Except.error (Except.error.inj h))
      · exact fun h => by cases h

variable (s : Session) (ctx : Ctx) (inputs outputs : List Tensor) (into : Bool)

theorem runNative_notClosed (r : Option OcRuntime) (options : Option Handle)
    (descriptors : List OcTensor) :
    NotClosed (s.runNative ctx r options into descriptors) := by
  unfold runNative
  split
  · exact ⟨trivial, fun a _ => a.elim⟩
  refine .after fun n => .after fun native => ?_
  split
  · exact .after fun status => collect_notClosed ..
  · refine .after fun x => ?_
    obtain ⟨status, out⟩ := x
    exact .after fun n => .after fun native => .deferring (collect_notClosed ..)

theorem runPinned_notClosed (descriptors : List OcTensor) :
    NotClosed (s.runPinned ctx inputs outputs into descriptors) := by
  refine wp_bind.2 (wp_mono (fun x _ hx => ?_)
    (NotClosedCode.forEach fillDescriptor_notClosed (inputs ++ outputs) (descriptors, 0)))
  obtain ⟨⟨descriptors, _⟩, err | _⟩ := x
  · exact fun h => hx (congrArg Except.error (Except.error.inj h))
  refine NotClosed.after fun r => ?_
  split
  · refine .after fun x => ?_
    cases x with
    | error err => exact fun h => by cases h
    | ok x =>
      obtain ⟨options, finish⟩ := x
      exact .deferring (runNative_notClosed ..)
  · exact runNative_notClosed ..

theorem runGated_notClosed : NotClosed (s.runGated ctx inputs outputs into) := by
  unfold runGated
  split
  · exact fun h => by cases h
  split
  · exact fun h => by cases h
  split
  · exact fun h => by cases h
  · exact .after fun buffer => .deferring (.deferring (runPinned_notClosed ..))

/-- A run under its read lock: it reads `native` first. -/
theorem runLocked_course {c : Call} {g : Course} {o : Bool → Registry.Action}
    (hc : ∀ n : Option OcSession, c.point (.sess s.id .getNative) n = some (o n.isSome))
    (hg : g.op = none) :
    wp c.course (s.runLocked ctx inputs outputs into) (fun res g' =>
      (res = .error .closed ∧ g'.op = some (o false)) ∨
        res ≠ .error .closed ∧ g'.op = some (o true)) g := by
  have hop : ∀ n : Option OcSession,
      (g.op <|> c.point (.sess s.id .getNative) n) = some (o n.isSome) := fun n => by rw [hg, hc n]; rfl
  refine wp_bind.2 (wp_perform.2 ⟨trivial, fun n _ => ?_⟩)
  cases n with
  | none => exact .inl ⟨rfl, hop none⟩
  | some n =>
    have hquiet := ((runLocked_uses s ctx inputs outputs into).2 (some n)).mono fun _ h => h.quiet
    refine wp_mono (fun res g' h => .inr ⟨h.2, h.1⟩) (wp_settled hquiet (hop (some n)) ?_)
    show NotClosed _
    dsimp only
    split
    · refine .after fun sent => ?_
      split
      · refine .deferring (.after fun e => ?_)
        cases e with
        | some err => exact fun h => by cases h
        | none => exact runGated_notClosed ..
      · refine .after fun e => ?_
        cases e <;> exact fun h => by cases h
    · exact runGated_notClosed ..

/-- A run. -/
theorem run_course {c : Call} {o : Bool → Registry.Action}
    (hc : ∀ n : Option OcSession, c.point (.sess s.id .getNative) n = some (o n.isSome)) :
    wp c.course (s.run ctx inputs outputs into) (fun res g' =>
      (res = .error .closed ∧ g'.op = some (o false) ∨
        res ≠ .error .closed ∧ g'.op = some (o true)) ∨ FailsElse res ∧ g'.op = none) .start := by
  refine wp_bind.2 (wp_still (.perform trivial) fun e => ?_)
  cases e with
  | some err => exact .inr ⟨⟨_, rfl, by simp⟩, rfl⟩
  | none =>
    refine wp_bind.2 (wp_still (.perform trivial) fun _ => wp_deferring.2 ?_)
    refine wp_mono (fun res g' h => wp_perform.2 ⟨trivial, fun _ _ => .inl ?_⟩)
      (runLocked_course s ctx inputs outputs into hc rfl)
    have hop : (g'.op <|> c.point (.sess s.id .rUnlock) ()) = g'.op := by cases g'.op <;> rfl
    exact h.imp (fun h => ⟨h.1, hop.trans h.2⟩) fun h => ⟨h.1, hop.trans h.2⟩

end Session

/-! ## Calls -/

omit [Platform] in
/-- A load. -/
theorem Runtime.Came.settles {c : Call} {r : Nat} {res : Except GoError Session} {g : Course}
    (h : Came r res g) (hmeans : ∀ o, LoadMeans r res o → c.Means (.session res) o)
    (hleaves : FailsElse res → c.Leaves (.session res)) :
    Settles Call.Means Call.Leaves c (.session res) g.op := by
  rcases h with ⟨o, ho, hg⟩ | ⟨hres, hg⟩
  · rw [hg]
    exact hmeans o ho
  · rw [hg]
    exact hleaves hres

/-- **Every call performs its operation.** -/
theorem course_spec (c : Call) :
    wp c.course c.prog (fun ret g => Settles Call.Means Call.Leaves c ret g.op) .start := by
  cases c with
  | openLibrary path =>
    refine wp_map.2 (wp_mono (fun res g h => ?_)
      (openLibrary_course (show (Call.openLibrary path).Opens from trivial) path rfl))
    rcases h with ⟨r, rfl, hg⟩ | ⟨⟨err, rfl⟩, hg⟩
    · rw [hg]
      exact ⟨r, rfl, rfl⟩
    · rw [hg]
      exact ⟨err, rfl⟩
  | load r path options =>
    refine wp_map.2 ?_
    unfold Runtime.loadFile
    split
    · exact ⟨_, rfl, _, rfl, by simp⟩
    · exact wp_mono (fun res g h => h.settles (fun o ho => ⟨res, rfl, ho⟩) fun hres => ⟨res, rfl, hres⟩)
        (Runtime.load_course rfl path [] options)
  | loadBytes r model options =>
    refine wp_map.2 ?_
    unfold Runtime.loadBytes
    split
    · exact ⟨_, rfl, _, rfl, by simp⟩
    · exact wp_mono (fun res g h => h.settles (fun o ho => ⟨res, rfl, ho⟩) fun hres => ⟨res, rfl, hres⟩)
        (Runtime.load_course rfl [] model options)
  | closeRuntime r =>
    refine wp_map.2 (wp_mono (fun _ g hg => ?_) (Runtime.close_course r))
    rw [hg]
    exact ⟨rfl, rfl⟩
  | closeSession s =>
    refine wp_map.2 (wp_mono (fun _ g hg => ?_) (Session.close_course s))
    rw [hg]
    exact ⟨rfl, rfl⟩
  | run s ctx inputs =>
    refine wp_map.2 (wp_mono (fun res g h => ?_) (Session.run_course s ctx inputs [] false
      (o := fun b => if b then .ran s else .gone s) fun n => by cases n <;> rfl))
    rcases h with (⟨hres, hg⟩ | ⟨hres, hg⟩) | ⟨hres, hg⟩
    · rw [hg]
      exact ⟨res, rfl, .inl ⟨hres, rfl⟩⟩
    · rw [hg]
      exact ⟨res, rfl, .inr ⟨hres, rfl⟩⟩
    · rw [hg]
      exact ⟨res, rfl, hres⟩
  | runInto s ctx outputs inputs =>
    refine wp_map.2 (wp_bind.2 (wp_mono (fun res g h => ?_) (Session.run_course s ctx inputs outputs
      true (o := fun b => if b then .ran s else .gone s) fun n => by cases n <;> rfl)))
    rw [wp_pure]
    rcases h with (⟨hres, hg⟩ | ⟨hres, hg⟩) | ⟨hres, hg⟩
    · rw [hg]
      exact ⟨_, rfl, .inl ⟨by rw [hres]; rfl, rfl⟩⟩
    · rw [hg]
      refine ⟨_, rfl, .inr ⟨fun h => hres ?_, rfl⟩⟩
      cases res with
      | error e => exact congrArg Except.error (Except.error.inj h)
      | ok _ => cases h
    · rw [hg]
      obtain ⟨err, rfl, hne⟩ := hres
      exact ⟨_, rfl, err, rfl, hne⟩
  | callback r options id =>
    have hterminate : Uses Op.Still (Bridge.ocTerminate options) := by
      have hset : Op.Still (.nat (.runOptionsSetTerminate options)) := trivial
      refine (Uses.perform hset).bind fun x => ?_
      cases x with
      | error status => exact .perform trivial
      | ok _ => exact .pure ()
    have hclose : Op.Still (.cb (.closeDone id)) := trivial
    exact wp_map.2 (wp_still ((cgo_still hterminate).bind fun _ => .perform hclose) fun _ => trivial)

end

end Onnxcraft
