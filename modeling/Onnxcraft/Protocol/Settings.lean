import Onnxcraft.Effect.Sequence
import Onnxcraft.Protocol.Errors
import Onnxcraft.Protocol.Made

/-!
# What a load asks of its options

The settings of a load, one by one: the entries of `Config`, then the providers. `Applied` says
which events put one setting into the native options, `Refused` how a load stops at one.
`Call.load_settings`: the events of a load on its options are the five that make them, then those of
its settings in order, up to the first that is refused; only options with every setting reach
`oc_load`, and no string that the code rejects reaches ORT.
-/

namespace Onnxcraft

open Effect

/-- What is done to the options of a load, and what takes them. -/
def Op.Sets : Op → Prop
  | .nat o => o.stage = .options ∨ o.stage = .create
  | .enter (.ocLoad _) => True
  | _ => False

instance : DecidablePred Op.Sets
  | .nat _ => inferInstanceAs (Decidable (_ ∨ _))
  | .enter f => match f with
    | .ocLoad _ => isTrue trivial
    | .ocOpen | .ocClose _ | .ocOptionsNew _ | .ocConfig _ | .ocProvider _ | .ocOptionsFree _
    | .ocSessionFree _ | .ocRun _ | .ocRunInto _ | .ocOutputsFree _ | .ocRunOptions _
    | .ocTerminate _ _ | .ocRunOptionsFree _ | .ocErrorCode _ | .ocErrorMessage _ | .ocErrorFree _ =>
      isFalse id
  | .sess _ _ | .rt _ _ | .newRuntime _ | .newSession _ _ _ _ _ | .ctxErr _ | .filepathAbs _ | .pool _
  | .cb _ | .mem _ | .leave _ | .fault _ => isFalse id

/-! ## Settings -/

/-- An entry of `Config`, or an element of `Providers`. -/
inductive Setting where
  | entry (key value : GoString)
  | provider (p : Provider)
  deriving DecidableEq

/-- What the options ask for, in the order of the code. -/
def SessionOptions.settings (o : SessionOptions) : List Setting :=
  o.config.map (fun e => .entry e.1 e.2) ++ o.providers.map .provider

/-- The counts and the level are what C can take. -/
structure SessionOptions.InRange (o : SessionOptions) : Prop where
  intra : 0 ≤ o.intraOpThreads ∧ o.intraOpThreads ≤ Runtime.maxInt32
  inter : 0 ≤ o.interOpThreads ∧ o.interOpThreads ≤ Runtime.maxInt32
  level : o.optimization ≤ Runtime.optimizeExtended

/-- A name that C reads as Go does. -/
def Named (name : GoString) : Prop := name ≠ [] ∧ 0 ∉ name

/-- The entries of `Config` that are not rejected. -/
structure EntryValid (key value : GoString) : Prop where
  named : Named key
  whole : 0 ∉ value
  bytes : key ≠ ascii "session.use_ort_model_bytes"
  initializers : key ≠ ascii "session.use_ort_model_bytes_for_initializers"

/-- The options of a provider that are not rejected. -/
structure OptionValid (key value : GoString) : Prop where
  named : Named key
  whole : 0 ∉ value
  graph : key = ascii "enable_cuda_graph" ∨ key = ascii "trt_cuda_graph_enable" → value = ascii "0"

def Setting.Valid : Setting → Prop
  | .entry key value => EntryValid key value
  | .provider p => Named p.name ∧ ∀ e ∈ p.options, OptionValid e.1 e.2

/-- The two arrays of `addProvider`: `keys[i]` next to `values[i]`. -/
structure Arrays (options : List (GoString × GoString)) (keys values : List CStr) : Prop where
  keys : keys.map (·.text) = options.map Prod.fst
  values : values.map (·.text) = options.map Prod.snd

/-! ## Events -/

/-- The events that make the options: `oc_options_new`. -/
def madeOptions (raw : Handle) (o : SessionOptions) : Trace :=
  [⟨.nat .createSessionOptions, .ok raw⟩,
    ⟨.nat (.setIntraOpNumThreads raw o.intraOpThreads), .ok ()⟩,
    ⟨.nat (.setInterOpNumThreads raw o.interOpThreads), .ok ()⟩,
    ⟨.nat (.setSessionExecutionMode raw (if o.parallel then .parallel else .sequential)), .ok ()⟩,
    ⟨.nat (.setSessionGraphOptimizationLevel raw
      (Bridge.levels.getD o.optimization.toNat .enableAll)), .ok ()⟩]

/-- The events of `oc_provider`; `h` is the options object of the providers that have one. -/
def providerEvents (raw h : Handle) (name : CStr) (keys values : List CStr) : Trace :=
  if name.text = ascii "CUDA" then
    [⟨.nat .createCUDAProviderOptions, .ok h⟩,
      ⟨.nat (.updateCUDAProviderOptions h keys values), .ok ()⟩,
      ⟨.nat (.appendExecutionProviderCUDAV2 raw h), .ok ()⟩]
  else if name.text = ascii "TensorRT" then
    [⟨.nat .createTensorRTProviderOptions, .ok h⟩,
      ⟨.nat (.updateTensorRTProviderOptions h keys values), .ok ()⟩,
      ⟨.nat (.appendExecutionProviderTensorRTV2 raw h), .ok ()⟩]
  else if name.text = ascii "OpenVINO" then
    [⟨.nat (.appendExecutionProviderOpenVINOV2 raw keys values), .ok ()⟩]
  else [⟨.nat (.appendExecutionProvider raw name keys values), .ok ()⟩]

/-- The events that put a setting into the options `raw`. -/
def Setting.Events (raw : Handle) : Setting → Trace → Prop
  | .entry key value, l => ∃ k v : CStr, k.text = key ∧ v.text = value ∧
      l = [⟨.nat (.addSessionConfigEntry raw k v), .ok ()⟩]
  | .provider p, l => ∃ h name keys values, name.text = p.name ∧ Arrays p.options keys values ∧
      l = providerEvents raw h name keys values

/-- The setting is in the options. -/
def Applied (raw : Handle) (s : Setting) (l : Trace) : Prop := s.Valid ∧ s.Events raw l

/-- The event raises a status. -/
def Fails (ev : Event Op Op.Resp) : Prop := (raises ev).isSome

/-- The code has rejected the setting, or ORT has. -/
def Refused (raw : Handle) (s : Setting) (l : Trace) : Prop :=
  (¬s.Valid ∧ l = []) ∨ s.Valid ∧ ∃ full, s.Events raw full ∧ CutShort Fails full l

/-- The options have got everything that was asked for, and nothing else. -/
def Configured (raw : Handle) (o : SessionOptions) (l : Trace) : Prop :=
  o.InRange ∧ ∃ es, l = madeOptions raw o ++ es ∧ Through (Applied raw) o.settings es

/-- The events of a load on its options. -/
inductive SettingsLog (o : SessionOptions) : Trace → Prop
  | untouched : SettingsLog o []
  | unmade {raw : Handle} {l : Trace} : CutShort Fails (madeOptions raw o) l → SettingsLog o l
  | refused {raw : Handle} {l : Trace} :
      Halts (Applied raw) (Refused raw) o.settings l → SettingsLog o (madeOptions raw o ++ l)
  | taken {raw : Handle} {l l' : Trace} {n : OcRuntime} :
      Configured raw o l → SettingsLog o (l ++ ⟨.enter (.ocLoad n), ()⟩ :: l')

/-- What may be asked of the options of a load after the events `l`. -/
def SettingsMay (o : SessionOptions) : Op → Trace → Prop
  | .nat e, l => match e with
    | .addSessionConfigEntry _ k v => EntryValid k.text v.text
    | .updateCUDAProviderOptions _ keys values | .updateTensorRTProviderOptions _ keys values
    | .appendExecutionProviderOpenVINOV2 _ keys values =>
      List.Forall₂ (fun k v => OptionValid k.text v.text) keys values
    | .appendExecutionProvider _ name keys values =>
      Named name.text ∧ List.Forall₂ (fun k v => OptionValid k.text v.text) keys values
    | .createSession _ _ raw | .createSessionFromArray _ _ raw =>
      ∃ l' n, Configured raw o l' ∧ l = l' ++ [⟨.enter (.ocLoad n), ()⟩]
    | _ => True
  | .enter (.ocLoad _), l => ∃ raw, Configured raw o l
  | _, _ => True

/-- The protocol of the options of a load. -/
def settings (o : SessionOptions) : Spec Op Op.Resp Trace := marks Op.Sets (SettingsMay o)

section
variable {α : Type} {o : SessionOptions} {raw : Handle} {l : Trace}

theorem containsNul_iff {s : GoString} : containsNul s = true ↔ (0 : UInt8) ∈ s := by
  simp [containsNul]

theorem Arrays.valid {options : List (GoString × GoString)} {keys values : List CStr}
    (h : Arrays options keys values) (hv : ∀ e ∈ options, OptionValid e.1 e.2) :
    List.Forall₂ (fun k v => OptionValid k.text v.text) keys values := by
  obtain ⟨hk, hvs⟩ := h
  induction options generalizing keys values with
  | nil =>
    obtain rfl := List.map_eq_nil_iff.1 hk
    obtain rfl := List.map_eq_nil_iff.1 hvs
    exact .nil
  | cons e options ih =>
    obtain ⟨k, keys, rfl, hk, hks⟩ := List.map_eq_cons_iff.1 hk
    obtain ⟨v, values, rfl, hv', hvs⟩ := List.map_eq_cons_iff.1 hvs
    obtain ⟨he, hrest⟩ := List.forall_mem_cons.1 hv
    exact .cons (by rw [hk, hv']; exact he) (ih hrest hks hvs)

/-! ## Operations aside -/

theorem wp_sets {e : Op} (he : e.Sets) {Q : e.Resp → Trace → Prop} :
    wp (settings o) (Prog.perform e) Q l ↔ SettingsMay o e l ∧ ∀ a, Q a (l ++ [⟨e, a⟩]) :=
  wp_marked he

/-- What does not touch the options. -/
theorem wp_aside {p : Act α} (hp : Uses (fun e => ¬e.Sets) p) {Q : α → Trace → Prop}
    (hQ : ∀ a, Q a l) : wp (settings o) p Q l := wp_unmarked hp hQ

theorem wp_deref_set {x : Option α} {Q : α → Trace → Prop} (h : ∀ a, Q a l) :
    wp (settings o) (deref x) Q l :=
  wp_aside (deref_uses x fun _ => not_false) h

/-- A native call that makes or frees, or asks about a model. -/
theorem NativeOp.aside {e : NativeOp} (h : e.stage = .tidy ∨ e.stage = .query) :
    ¬(Op.nat e).Sets := by
  rintro (h' | h') <;> rw [h'] at h <;> simp at h

theorem tidy_aside {e : NativeOp} (h : e.stage = .tidy) : Uses (fun e => ¬e.Sets) (nat e) :=
  .perform (NativeOp.aside (.inl h))

theorem query_aside {e : NativeOp} (h : e.stage = .query) : Uses (fun e => ¬e.Sets) (nat e) :=
  .perform (NativeOp.aside (.inr h))

theorem Op.Frees.aside [Platform] {e : Op} (h : e.Frees) : ¬e.Sets := by
  cases e with
  | nat o => cases o <;> first | exact NativeOp.aside (.inl rfl) | exact h.elim
  | fault f => exact not_false
  | _ => exact h.elim

/-- A Go string is copied. -/
theorem wp_cString_set {text : GoString} {Q : CStr → Trace → Prop}
    (h : ∀ c : CStr, c.text = text → Q c l) : wp (settings o) (cString text) Q l := by
  simp only [cString, wp_bind, wp_pure]
  exact wp_aside (p := nat _) (tidy_aside rfl) fun p => h ⟨p, text⟩ rfl

/-- A status becomes an error. -/
theorem nativeError_settings (r : Option OcRuntime) (st : OrtStatus) :
    wp (settings o) (nativeError r (.error st : Fallible α))
      (fun res l' => (∃ e, res = .error e) ∧ l' = l) l := by
  have hread : ∀ {f : CFunc} {e : NativeOp}, ¬(Op.enter f).Sets → e.stage = .tidy →
      Uses (fun e => ¬e.Sets) (cgo f (nat e)) := fun hf he =>
    cgo_uses hf not_false (tidy_aside he)
  simp only [nativeError, wp_bind, wp_pure]
  refine wp_deref_set fun r => wp_aside (hread (by exact not_false) (by rfl)) fun code => ?_
  refine wp_aside (hread (by exact not_false) (by rfl)) fun message => ?_
  exact wp_aside (hread (by exact not_false) (by rfl)) fun _ => ⟨⟨_, rfl⟩, rfl⟩

/-! ## bridge.c -/

/-- A call that is recorded with its answer, which may be a failure. -/
structure Calls (o : SessionOptions) (p : Act (Fallible α))
    (ev : Fallible α → Event Op Op.Resp) : Prop where
  wp : ∀ (Q : Fallible α → Trace → Prop) l, (∀ r, Q r (l ++ [ev r])) → wp (settings o) p Q l
  cut : ∀ a st before after,
    CutShort Fails (before ++ ev (.ok a) :: after) (before ++ [ev (.error st)])

/-- A history that goes on until a call raises a status. -/
theorem cutShort_of {e : Op} {a b : e.Resp} (h : Fails ⟨e, b⟩) (before after : Trace) :
    CutShort Fails (before ++ ⟨e, a⟩ :: after) (before ++ [⟨e, b⟩]) :=
  ⟨before, e, a, b, after, rfl, rfl, h⟩

namespace Bridge

/-- The providers with an options object: made, updated, appended, and released. -/
theorem ocProviderV2_settings {create : Act (Fallible Handle)}
    {update append : Handle → Act (Fallible Unit)} {release : Handle → Act Unit}
    {c : Fallible Handle → Event Op Op.Resp} {u a : Handle → Fallible Unit → Event Op Op.Resp}
    (hc : Calls o create c) (hu : ∀ h, Calls o (update h) (u h)) (ha : ∀ h, Calls o (append h) (a h))
    (hr : ∀ h, Uses (fun e => ¬e.Sets) (release h)) :
    wp (settings o) (ocProviderV2 create update append release)
      (fun res l' => match res with
        | .ok _ => ∃ h, l' = l ++ [c (.ok h), u h (.ok ()), a h (.ok ())]
        | .error _ => ∃ h es, l' = l ++ es ∧
          CutShort Fails [c (.ok h), u h (.ok ()), a h (.ok ())] es) l := by
  simp only [ocProviderV2, wp_bind, wp_pure, wp_code, wpc_bind, wpc_check, wpc_modify]
  have hend : ∀ {p : Option Handle} {Q : Trace → Prop} {l : Trace}, Q l →
      wp (settings o) (whenSome p release) (fun _ l' => Q l') l := fun hQ =>
    wp_aside (whenSome_uses fun h => hr h) fun _ => hQ
  refine hc.wp _ _ ?_
  rintro (st | h)
  · exact hend ⟨0, _, rfl, hc.cut 0 st [] _⟩
  refine (hu h).wp _ _ ?_
  rintro (st | _)
  · exact hend ⟨h, _, List.append_assoc .., (hu h).cut () st [_] _⟩
  refine (ha h).wp _ _ ?_
  rintro (st | _)
  · exact hend ⟨h, _, by simp, (ha h).cut () st [_, _] _⟩
  · exact hend ⟨h, by simp⟩

/-- What `oc_options_new` leaves: options with their five settings, or a call that has failed. -/
def OptionsLog (o : SessionOptions) : Fallible Handle → Trace → Prop
  | .ok raw, l => l = madeOptions raw o
  | .error _, l => ∃ raw, CutShort Fails (madeOptions raw o) l

/-- `oc_options_new`: a session's options have the counts, the mode and the level of Go's. -/
theorem ocOptionsNew_settings (hin : o.InRange) :
    wp (settings o) (ocOptionsNew
      ⟨o.intraOpThreads, o.interOpThreads, o.parallel, o.optimization.toNat⟩) (OptionsLog o) [] := by
  -- the code before `fail:` leaves the log as it is at the end
  suffices hbody : wpc (settings o) (ocOptionsNewBody
      ⟨o.intraOpThreads, o.interOpThreads, o.parallel, o.optimization.toNat⟩)
      (fun res _ l => OptionsLog o res l) none [] by
    simp only [ocOptionsNew, wp_bind, wp_code]
    refine wpc_mono ?_ hbody
    rintro (st | raw) made l h
    · simp only [wp_bind, wp_pure]
      refine wp_aside (whenSome_uses fun o => ?_) fun _ => h
      exact tidy_aside rfl
    · exact h
  simp only [ocOptionsNewBody, wpc_bind, wpc_check, wpc_modify, wpc_lift, wpc_pure]
  refine (wp_sets (e := .nat .createSessionOptions) (.inl rfl)).2 ⟨trivial, ?_⟩
  rintro (st | raw)
  · exact ⟨0, [], _, _, _, _, rfl, rfl, rfl⟩
  refine (wp_sets (e := .nat (.setIntraOpNumThreads _ _)) (.inl rfl)).2 ⟨trivial, ?_⟩
  rintro (st | _)
  · exact ⟨raw, (madeOptions raw o).take 1, _, _, _, _, rfl, rfl, rfl⟩
  refine (wp_sets (e := .nat (.setInterOpNumThreads _ _)) (.inl rfl)).2 ⟨trivial, ?_⟩
  rintro (st | _)
  · exact ⟨raw, (madeOptions raw o).take 2, _, _, _, _, rfl, rfl, rfl⟩
  refine (wp_sets (e := .nat (.setSessionExecutionMode _ _)) (.inl rfl)).2 ⟨trivial, ?_⟩
  rintro (st | _)
  · exact ⟨raw, (madeOptions raw o).take 3, _, _, _, _, rfl, rfl, rfl⟩
  have hlevel : levels[o.optimization.toNat]? =
      some (levels.getD o.optimization.toNat .enableAll) := by
    have hlt : o.optimization.toNat < levels.length := by
      have := UInt8.le_iff_toNat_le.1 hin.level
      simp only [Runtime.optimizeExtended, UInt8.reduceToNat] at this
      simp only [levels, List.length_cons, List.length_nil]
      omega
    rw [List.getD_eq_getElem?_getD, List.getElem?_eq_getElem hlt, Option.getD_some]
  simp only [rd, hlevel, wp_pure]
  refine (wp_sets (e := .nat (.setSessionGraphOptimizationLevel _ _)) (.inl rfl)).2 ⟨trivial, ?_⟩
  rintro (st | _)
  · exact ⟨raw, (madeOptions raw o).take 4, _, _, _, _, rfl, rfl, rfl⟩
  · rfl

/-- `oc_provider`: the provider is appended with its arrays, or a call of the chain has failed. -/
theorem ocProvider_settings {name : CStr} {keys values : List CStr} (hname : Named name.text)
    (hpairs : List.Forall₂ (fun k v => OptionValid k.text v.text) keys values) :
    wp (settings o) (ocProvider raw name keys values)
      (fun res l' => match res with
        | .ok _ => ∃ h, l' = l ++ providerEvents raw h name keys values
        | .error _ => ∃ h es, l' = l ++ es ∧ CutShort Fails (providerEvents raw h name keys values) es)
      l := by
  unfold ocProvider
  split
  · next hcuda =>
    simp only [providerEvents, if_pos hcuda]
    exact ocProviderV2_settings
      ⟨fun Q l h => (wp_sets (e := .nat .createCUDAProviderOptions) (.inl rfl)).2 ⟨trivial, h⟩,
        fun _ _ => cutShort_of rfl⟩
      (fun p => ⟨fun Q l h =>
        (wp_sets (e := .nat (.updateCUDAProviderOptions p keys values)) (.inl rfl)).2 ⟨hpairs, h⟩,
        fun _ _ => cutShort_of rfl⟩)
      (fun p => ⟨fun Q l h =>
        (wp_sets (e := .nat (.appendExecutionProviderCUDAV2 raw p)) (.inl rfl)).2 ⟨trivial, h⟩,
        fun _ _ => cutShort_of rfl⟩)
      fun p => tidy_aside rfl
  split
  · next hcuda htensor =>
    simp only [providerEvents, if_neg hcuda, if_pos htensor]
    exact ocProviderV2_settings
      ⟨fun Q l h => (wp_sets (e := .nat .createTensorRTProviderOptions) (.inl rfl)).2 ⟨trivial, h⟩,
        fun _ _ => cutShort_of rfl⟩
      (fun p => ⟨fun Q l h => (wp_sets (e := .nat (.updateTensorRTProviderOptions p keys values))
        (.inl rfl)).2 ⟨hpairs, h⟩,
        fun _ _ => cutShort_of rfl⟩)
      (fun p => ⟨fun Q l h => (wp_sets (e := .nat (.appendExecutionProviderTensorRTV2 raw p))
        (.inl rfl)).2 ⟨trivial, h⟩,
        fun _ _ => cutShort_of rfl⟩)
      fun p => tidy_aside rfl
  split
  · next hcuda htensor hvino =>
    simp only [providerEvents, if_neg hcuda, if_neg htensor, if_pos hvino]
    refine (wp_sets (e := .nat (.appendExecutionProviderOpenVINOV2 raw keys values)) (.inl rfl)).2
      ⟨hpairs, ?_⟩
    rintro (st | _)
    · exact ⟨0, _, rfl, [], _, _, _, [], rfl, rfl, rfl⟩
    · exact ⟨0, rfl⟩
  · next hcuda htensor hvino =>
    simp only [providerEvents, if_neg hcuda, if_neg htensor, if_neg hvino]
    refine (wp_sets (e := .nat (.appendExecutionProvider raw name keys values)) (.inl rfl)).2
      ⟨⟨hname, hpairs⟩, ?_⟩
    rintro (st | _)
    · exact ⟨0, _, rfl, [], _, _, _, [], rfl, rfl, rfl⟩
    · exact ⟨0, rfl⟩

/-! ### oc_load -/

section
variable [Platform]

/-- What `oc_load` does with a session that it has made. -/
theorem ocLoadShape_aside (i : Nat) (p : OcPort) (tensor : Handle) :
    UsesCode (fun e => ¬e.Sets) (ocLoadShape i p tensor) := by
  refine .bind (.lift ?_) fun addr => ?_
  · split
    · exact .pure _
    · exact tidy_aside rfl
  cases addr with
  | none => exact .bind (.lift (tidy_aside rfl)) fun _ => .fail _
  | some addr =>
    exact .bind (.modify _) fun _ => .bind (.check (query_aside rfl)) fun _ => .modify _

theorem ocLoadPort_aside (h inputs i : Nat) :
    UsesCode (fun e => ¬e.Sets) (ocLoadPort h inputs i) := by
  have hname : Uses (fun e => ¬e.Sets) (portName h inputs i) := by
    unfold portName
    split <;> exact query_aside rfl
  have hinfo : Uses (fun e => ¬e.Sets) (portTypeInfo h inputs i) := by
    unfold portTypeInfo
    split <;> exact query_aside rfl
  refine .bind .get fun v => .bind (.lift (deref_uses _ fun _ => not_false)) fun ports =>
    .bind (.lift (deref_uses _ fun _ => not_false)) fun names =>
    .bind (.lift (rd_uses _ _ fun _ => not_false)) fun p => .bind (.check hname) fun name =>
    .bind (.modify _) fun _ => .bind (.check hinfo) fun info => .bind (.modify _) fun _ =>
    .bind (.lift (wr_uses _ _ _ fun _ => not_false)) fun _ => .bind (.modify _) fun _ =>
    .bind (.check (query_aside rfl)) fun kind => ?_
  split
  · exact .bind (.lift (tidy_aside rfl)) fun _ => .fail _
  refine .bind (.check (query_aside rfl)) fun tensor =>
    .bind (.check (query_aside rfl)) fun type => .bind (.modify _) fun _ =>
    .bind (.check (query_aside rfl)) fun rank => .bind (.modify _) fun _ => .bind ?_ fun _ =>
    .bind (.lift (tidy_aside rfl)) fun _ => .modify _
  split
  · exact ocLoadShape_aside _ _ _
  · exact .pure _

theorem ocLoadMetadata_aside (n : Nat) : UsesCode (fun e => ¬e.Sets) (ocLoadMetadata n) := by
  refine .bind (.lift (tidy_aside rfl)) fun ports => .bind (.modify _) fun _ =>
    .bind (.lift (tidy_aside rfl)) fun names => .bind (.modify _) fun _ => ?_
  split
  · exact .bind (.lift (tidy_aside rfl)) fun _ => .fail _
  · exact .pure _

/-- `oc_load`, entered with options that have every setting: it makes a session with these. -/
theorem ocLoad_settings {r n : OcRuntime} {path : Option CStr} {data : List UInt8}
    (hl : Configured raw o l) :
    wp (settings o) (ocLoad r path data raw) (fun _ l' => SettingsLog o l')
      (l ++ [⟨.enter (.ocLoad n), ()⟩]) := by
  -- nothing that the log records comes after the session
  have hbody : ∀ v, wpc (settings o) (ocLoadBody r path data raw) (fun _ _ l' => SettingsLog o l') v
      (l ++ [⟨.enter (.ocLoad n), ()⟩]) := fun v => by
    refine wpc_bind.2 (wpc_mono (Q := fun _ _ l' => SettingsLog o l') ?_ (wpc_check.2 ?_))
    · rintro (st | h) v' l' hl'
      · exact hl'
      refine wp_aside (UsesCode.bind (.modify _) (fun _ => .bind (.check (query_aside rfl)) fun m =>
        .bind (.modify _) fun _ => .bind (.check (query_aside rfl)) fun k =>
        .bind (.modify _) fun _ => ?_) v') fun _ => hl'
      dsimp only
      split
      · exact .bind (.lift (tidy_aside rfl)) fun _ => .fail _
      · exact .bind (ocLoadMetadata_aside _) fun _ => .forEach (ocLoadPort_aside h m) _
    · cases path with
      | some path =>
        refine (wp_sets (e := .nat (.createSession r.env path raw)) (.inr rfl)).2
          ⟨⟨l, n, hl, rfl⟩, fun a => ?_⟩
        rw [List.append_assoc]
        exact .taken hl
      | none =>
        refine (wp_sets (e := .nat (.createSessionFromArray r.env data raw)) (.inr rfl)).2
          ⟨⟨l, n, hl, rfl⟩, fun a => ?_⟩
        rw [List.append_assoc]
        exact .taken hl
  simp only [ocLoad, wp_bind]
  refine wp_aside (p := nat _) (tidy_aside rfl) ?_
  rintro (_ | addr)
  · simp only [wp_bind, wp_pure]
    exact wp_aside (p := nat _) (tidy_aside rfl) fun _ => .taken hl
  simp only [wp_bind, wp_code]
  refine wpc_mono ?_ (hbody _)
  rintro (st | _) v l' hl'
  · simp only [wp_bind, wp_pure]
    refine wp_aside (whenSome_uses fun info => tidy_aside rfl) fun _ => ?_
    exact wp_aside ((ocSessionFree_uses _).mono fun e he => Op.Frees.aside he) fun _ => hl'
  · exact hl'

end

end Bridge

/-! ## runtime.go -/

namespace Runtime

/-- A call of the bridge, from what it does once it is entered. -/
theorem native_entered {r : Nat} {f : OcRuntime → CFunc} {body : OcRuntime → Act (Fallible α)}
    {Q : Except NativeError α → Trace → Prop}
    (h : ∀ n, wp (settings o) (Prog.perform (Op.enter (f n)) >>= fun _ => body n)
      (fun res l' => match res with
        | .ok a => Q (.ok a) l'
        | .error _ => ∀ e, Q (.error e) l') l) : wp (settings o) (native r f body) Q l := by
  simp only [native, cgo, wp_bind, wp_pure]
  refine wp_aside (p := rt r .getNative) (.perform not_false) fun er => ?_
  refine wp_aside (p := rt r .getNative) (.perform not_false) fun n => wp_deref_set fun n => ?_
  refine wp_mono (fun _ l' => wp_mono ?_) (wp_bind.1 (h n))
  have hleft : ∀ n, Uses (fun e => ¬e.Sets) (Prog.perform (Op.leave (f n)) : Act Unit) := fun n =>
    .perform not_false
  rintro (st | a) l'' hres
  · refine wp_aside (hleft n) fun _ => wp_mono ?_ (nativeError_settings er st)
    rintro _ l' ⟨⟨e, rfl⟩, rfl⟩
    exact hres e
  · exact wp_aside (hleft n) fun _ => hres

/-- A call of a function that does not take the options. -/
theorem native_settings {r : Nat} {f : OcRuntime → CFunc} {body : OcRuntime → Act (Fallible α)}
    {Q : Except NativeError α → Trace → Prop} (hf : ∀ n, ¬(Op.enter (f n)).Sets)
    (h : ∀ n, wp (settings o) (body n) (fun res l' => match res with
      | .ok a => Q (.ok a) l'
      | .error _ => ∀ e, Q (.error e) l') l) : wp (settings o) (native r f body) Q l :=
  native_entered fun n => wp_bind.2 (wp_aside (.perform (hf n)) fun _ => h n)

/-- One entry of `Config`. -/
theorem loadConfig_settings (r : Nat) (entry : GoString × GoString) (st : Unit) (l : Trace) :
    wpc (settings o) (loadConfig r raw entry) (fun res _ l' => Recorded
      (Applied raw (.entry entry.1 entry.2)) (Refused raw (.entry entry.1 entry.2)) l res l') st l := by
  obtain ⟨key, value⟩ := entry
  have hrejected : ¬EntryValid key value → ∃ es, l = l ++ es ∧ Refused raw (.entry key value) es :=
    fun h => ⟨[], (List.append_nil l).symm, .inl ⟨h, rfl⟩⟩
  simp only [loadConfig]
  split
  · next hbytes =>
    apply hrejected
    intro hv
    exact hbytes.elim hv.bytes hv.initializers
  split
  · next hplain =>
    apply hrejected
    intro hv
    simp only [containsNul_iff] at hplain
    rcases hplain with h | h | h
    · exact hv.named.1 h
    · exact hv.named.2 h
    · exact hv.whole h
  next hbytes hplain =>
  simp only [containsNul_iff, not_or] at hbytes hplain
  have hvalid : EntryValid key value :=
    ⟨⟨hplain.1, hplain.2.1⟩, hplain.2.2, hbytes.1, hbytes.2⟩
  simp only [wpc_bind, wpc_lift]
  refine wp_cString_set fun k hk => wp_cString_set fun v hv => ?_
  refine native_settings (fun _ => not_false) fun _ => ?_
  refine (wp_sets (e := .nat (.addSessionConfigEntry raw k v)) (.inl rfl)).2
    ⟨by rw [SettingsMay, hk, hv]; exact hvalid, ?_⟩
  rintro (st | _)
  · intro e
    refine wp_aside (tidy_aside rfl) fun _ => wp_aside (tidy_aside rfl) fun _ => ?_
    refine ⟨_, rfl, .inr ⟨hvalid, _, ⟨k, v, hk, hv, rfl⟩, ?_⟩⟩
    exact ⟨[], _, _, _, [], rfl, rfl, rfl⟩
  · refine wp_aside (tidy_aside rfl) fun _ => wp_aside (tidy_aside rfl) fun _ => ?_
    exact ⟨_, rfl, hvalid, k, v, hk, hv, rfl⟩

/-- The loop over the options of a provider: `keys[i]` is put next to `values[i]`. -/
theorem addProviderOptions_settings (options : List (GoString × GoString)) :
    wpc (settings o) (.forEach addProviderOption options) (fun res st l' => l' = l ∧ match res with
      | .ok _ => Arrays options st.1 st.2 ∧ ∀ e ∈ options, OptionValid e.1 e.2
      | .error _ => ¬∀ e ∈ options, OptionValid e.1 e.2) ([], []) l := by
  refine wpc_forEach (fun done st l' => l' = l ∧ Arrays done st.1 st.2 ∧
    ∀ e ∈ done, OptionValid e.1 e.2) ?_ (fun st l' h => h) ⟨rfl, ⟨rfl, rfl⟩, by simp⟩
  rintro done ⟨key, value⟩ rest ⟨keys, values⟩ l' rfl ⟨rfl, harrays, hdone⟩
  have hrejected : ¬OptionValid key value →
      l' = l' ∧ ¬∀ e ∈ done ++ (key, value) :: rest, OptionValid e.1 e.2 := fun h =>
    ⟨rfl, fun hall => h (hall (key, value) (by simp))⟩
  simp only [addProviderOption]
  split
  · next hgraph => exact hrejected fun hv => hgraph.2 (hv.graph hgraph.1)
  split
  · next hplain =>
    apply hrejected
    intro hv
    simp only [containsNul_iff] at hplain
    rcases hplain with h | h | h
    · exact hv.named.1 h
    · exact hv.named.2 h
    · exact hv.whole h
  next hgraph hplain =>
  simp only [containsNul_iff, not_or, not_and, not_not] at hgraph hplain
  simp only [wpc_bind, wpc_lift, wpc_modify]
  refine wp_cString_set fun k hk => wp_cString_set fun v hv => ?_
  refine ⟨rfl, ⟨?_, ?_⟩, ?_⟩
  · simp [harrays.keys, hk]
  · simp [harrays.values, hv]
  · intro e he
    rcases List.mem_append.1 he with he | he
    · exact hdone e he
    · obtain rfl := List.mem_singleton.1 he
      exact ⟨⟨hplain.1, hplain.2.1⟩, hplain.2.2, hgraph⟩

/-- One element of `Providers`. -/
theorem addProvider_settings (r : Nat) (p : Provider) (l : Trace) :
    wp (settings o) (addProvider r raw p) (fun res l' => Recorded
      (Applied raw (.provider p)) (Refused raw (.provider p)) l res l') l := by
  unfold addProvider
  split
  · next hname =>
    refine ⟨[], (List.append_nil l).symm, .inl ⟨?_, rfl⟩⟩
    intro hv
    rw [containsNul_iff] at hname
    exact hname.elim hv.1.1 hv.1.2
  next hname =>
  rw [containsNul_iff, not_or] at hname
  simp only [wp_bind, wp_deferring]
  refine wp_cString_set fun name hn => ?_
  -- the deferred calls free the strings, and leave what the body has done
  have hfree : ∀ keys values i, Uses (fun e => ¬e.Sets) (freeOption keys values i) :=
    fun keys values i => (rd_uses _ _ fun _ => not_false).bind fun k => (tidy_aside rfl).bind fun _ =>
      (rd_uses _ _ fun _ => not_false).bind fun v => tidy_aside rfl
  suffices hbody : wpc (settings o) (addProviderBody r raw p name) (fun res _ l' => Recorded
      (Applied raw (.provider p)) (Refused raw (.provider p)) l res l') ([], []) l by
    simp only [wp_code, wp_pure]
    refine wpc_mono ?_ hbody
    rintro res ⟨keys, values⟩ l' h
    refine wp_aside (Uses.fold (fun i _ => hfree keys values i) _ _) fun _ => ?_
    exact wp_aside (tidy_aside rfl) fun _ => h
  simp only [addProviderBody, wpc_bind, wpc_get]
  refine wpc_mono ?_ (addProviderOptions_settings p.options)
  rintro (err | _) ⟨keys, values⟩ l' ⟨rfl, h⟩
  · exact ⟨[], (List.append_nil l').symm, .inl ⟨fun hv => h hv.2, rfl⟩⟩
  have hvalid : Named p.name ∧ ∀ e ∈ p.options, OptionValid e.1 e.2 := ⟨hname, h.2⟩
  simp only [wpc_lift]
  refine native_settings (fun _ => not_false) fun _ => ?_
  refine wp_mono ?_ (Bridge.ocProvider_settings (by rw [hn]; exact hname) (h.1.valid h.2))
  rintro (st | _) l'' hres
  · obtain ⟨handle, es, rfl, hcut⟩ := hres
    exact fun e => ⟨es, rfl, .inr ⟨hvalid, _, ⟨handle, name, keys, values, hn, h.1, rfl⟩, hcut⟩⟩
  · obtain ⟨handle, rfl⟩ := hres
    exact ⟨_, rfl, hvalid, handle, name, keys, values, hn, h.1, rfl⟩

section
variable [Platform]

/-- `load` once `oc_load` has returned: nothing more is done with the options. -/
theorem loadSession_aside (r : Nat) (ptr : OcSession) :
    UsesCode (fun e => ¬e.Sets) (loadSession r o ptr) := by
  have hport : ∀ p, UsesCode (fun e => ¬e.Sets) (loadPort ptr p) := fun p => by
    unfold loadPort
    dsimp only
    split
    · exact .bind (.lift (cgo_uses not_false not_false
        ((Bridge.ocSessionFree_uses _).mono fun _ h => h.aside))) fun _ => .fail _
    · exact .bind (.lift (goSlice_uses _ _ fun _ => not_false)) fun _ => .modify _
  exact .bind (.lift (goSlice_uses _ _ fun _ => not_false)) fun ports =>
    .bind (.forEach hport _) fun _ => .bind .get fun info =>
    .bind (.lift (.perform not_false)) fun _ =>
    .bind (.lift (goSlice_uses _ _ fun _ => not_false)) fun ins =>
    .bind (.lift (.perform not_false)) fun _ => .pure _

/-- `load` from `oc_load` on. -/
theorem loadModel_settings {r : Nat} {cpath : Option CStr} {model : List UInt8}
    (hl : Configured raw o l) :
    wp (settings o) (loadModel r cpath model o raw) (fun _ l' => SettingsLog o l') l := by
  simp only [loadModel, wp_bind]
  refine native_entered fun n => ?_
  simp only [wp_bind]
  refine (wp_sets (e := .enter (.ocLoad n)) trivial).2 ⟨⟨raw, hl⟩, fun _ => ?_⟩
  refine wp_mono ?_ (Bridge.ocLoad_settings hl)
  rintro (st | ptr) l' h
  · exact fun e => h
  · exact wp_aside ((loadSession_aside r ptr).run []) fun _ => h

/-- `load` once it has its options: the entries, the providers, the model. -/
theorem loadOptions_settings {r : Nat} {path : GoString} {model : List UInt8} (hin : o.InRange) :
    wp (settings o) (loadOptions r path model o raw) (fun _ l' => SettingsLog o l')
      (madeOptions raw o) := by
  simp only [loadOptions, wp_bind, wp_run]
  refine wpc_mono ?_ (wpc_through (loadConfig_settings r) o.config () _)
  rintro (err | _) _ l ⟨es, rfl, hconfig⟩
  · exact .refused (hconfig.map.append _)
  simp only [wp_bind, wp_run]
  refine wpc_mono ?_ (wpc_through (fun p _ l => wpc_check.2 (addProvider_settings r p l))
    o.providers () _)
  rintro (err | _) _ l ⟨es', rfl, hproviders⟩
  · rw [List.append_assoc]
    exact .refused (hconfig.map.halts hproviders.map)
  rw [List.append_assoc]
  have hl : Configured raw o (madeOptions raw o ++ (es ++ es')) :=
    ⟨hin, _, rfl, hconfig.map.append hproviders.map⟩
  dsimp only
  split
  · exact loadModel_settings hl
  · simp only [wp_bind, wp_deferring]
    refine wp_cString_set fun cpath _ => wp_mono (fun _ l h => ?_) (loadModel_settings hl)
    exact wp_aside (tidy_aside rfl) fun _ => h

/-- `load` on an open runtime. -/
theorem loadOpen_settings {r : Nat} {path : GoString} {model : List UInt8}
    {options : Option SessionOptions} :
    wp (settings (options.getD {})) (loadOpen r path model options)
      (fun _ l => SettingsLog (options.getD {}) l) [] := by
  simp only [loadOpen]
  generalize options.getD {} = o
  split
  · exact .untouched
  next hrange =>
  simp only [not_or, Int.not_lt, UInt8.not_lt] at hrange
  obtain ⟨h₁, h₂, h₃, h₄, h₅⟩ := hrange
  have hin : o.InRange := ⟨⟨h₁, h₂⟩, ⟨h₃, h₄⟩, h₅⟩
  simp only [wp_bind]
  refine native_settings (fun _ => not_false) fun _ => ?_
  refine wp_mono ?_ (Bridge.ocOptionsNew_settings hin)
  rintro (st | raw) l h
  · obtain ⟨raw, hcut⟩ := h
    exact fun e => .unmade hcut
  obtain rfl : l = madeOptions raw o := h
  simp only [wp_bind, wp_deferring]
  refine wp_aside (p := rt r .getNative) (.perform not_false) fun n => wp_deref_set fun n => ?_
  refine wp_mono (fun _ l h => ?_) (loadOptions_settings hin)
  exact wp_aside (cgo_uses (by exact not_false) (by exact not_false) (tidy_aside rfl)) fun _ => h

/-- **`Runtime.load`**: what it asks of its options. -/
theorem load_settings (r : Nat) (path : GoString) (model : List UInt8)
    (options : Option SessionOptions) :
    wp (settings (options.getD {})) (load r path model options)
      (fun _ l => SettingsLog (options.getD {}) l) [] := by
  have hrt : ∀ e, Uses (fun e => ¬e.Sets) (rt r e) := fun e => .perform not_false
  simp only [load, loadLocked, wp_bind, wp_deferring]
  refine wp_aside (hrt _) fun _ => wp_aside (hrt _) fun closed => ?_
  split
  · exact wp_aside (hrt _) fun _ => .untouched
  simp only [wp_bind]
  refine wp_aside (hrt _) fun n => ?_
  cases n with
  | none => exact wp_aside (hrt _) fun _ => .untouched
  | some n => exact wp_mono (fun _ l h => wp_aside (hrt _) fun _ => h) loadOpen_settings

end

end Runtime

section
variable [Platform]

/-- **The options of a load.** -/
theorem Call.load_settings {c : Call} {r : Nat} {o : SessionOptions} (hc : c.loadArgs = some (r, o)) :
    wp (settings o) c.prog (fun _ l => SettingsLog o l) [] := by
  cases c with
  | load r' path options =>
    obtain ⟨rfl, rfl⟩ := Prod.mk.inj (Option.some.inj hc)
    refine wp_map.2 ?_
    unfold Runtime.loadFile
    split
    · exact .untouched
    · exact Runtime.load_settings r' path [] options
  | loadBytes r' model options =>
    obtain ⟨rfl, rfl⟩ := Prod.mk.inj (Option.some.inj hc)
    refine wp_map.2 ?_
    unfold Runtime.loadBytes
    split
    · exact .untouched
    · exact Runtime.load_settings r' [] model options
  | _ => cases hc

end

end

end Onnxcraft
