import Onnxcraft.Protocol.Uses

/-!
# The events of a load

Which operations the functions under `Runtime.load` perform, by the stage of the load that they
belong to, and what a load that succeeds has done: it has asked ORT for the metadata of every
port, in order, has raised the reference count once and has made one session
(`load_log`); a load that fails has changed neither counts nor sessions.
-/

namespace Onnxcraft

open Effect

/-- The parts of a load that an operation may belong to. -/
inductive Stage where
  | tidy | options | create | query | publish | other
  deriving DecidableEq

def NativeOp.stage : NativeOp → Stage
  | .createSessionOptions | .setIntraOpNumThreads _ _ | .setInterOpNumThreads _ _
  | .setSessionExecutionMode _ _ | .setSessionGraphOptimizationLevel _ _
  | .addSessionConfigEntry _ _ _ | .createCUDAProviderOptions | .updateCUDAProviderOptions _ _ _
  | .appendExecutionProviderCUDAV2 _ _ | .createTensorRTProviderOptions
  | .updateTensorRTProviderOptions _ _ _ | .appendExecutionProviderTensorRTV2 _ _
  | .appendExecutionProviderOpenVINOV2 _ _ _ | .appendExecutionProvider _ _ _ _ => .options
  | .createSession _ _ _ | .createSessionFromArray _ _ _ => .create
  | .sessionGetInputCount _ | .sessionGetOutputCount _ | .sessionGetInputName _ _
  | .sessionGetOutputName _ _ | .sessionGetInputTypeInfo _ _ | .sessionGetOutputTypeInfo _ _
  | .getOnnxTypeFromTypeInfo _ | .castTypeInfoToTensorInfo _ | .getTensorElementType _
  | .getDimensionsCount _ | .getDimensions _ _ => .query
  | .malloc _ | .calloc _ _ | .free _ | .cString _ | .createStatus _ _ | .getErrorCode _
  | .getErrorMessage _ | .releaseStatus _ | .releaseSessionOptions _ | .releaseCUDAProviderOptions _
  | .releaseTensorRTProviderOptions _ | .releaseSession _ | .allocatorFree _
  | .releaseTypeInfo _ => .tidy
  | _ => .other

theorem NativeOp.unpublished (o : NativeOp) : o.stage ≠ .publish := by
  cases o <;> exact nofun

def Op.stage : Op → Stage
  | .rt _ .getNative | .rt _ .getClosed | .rt _ .lock | .rt _ .unlock => .tidy
  | .rt _ _ | .newSession _ _ _ _ _ | .newRuntime _ => .publish
  | .enter _ | .leave _ | .fault _ => .tidy
  | .nat o => o.stage
  | _ => .other

/-- What `oc_session_free` does. -/
def Op.Frees : Op → Prop
  | .nat o => match o with
    | .free _ | .allocatorFree _ | .releaseSession _ => True
    | _ => False
  | .fault _ => True
  | _ => False

/-- What `oc_load` does: native calls, none of which asks the heap for more than there is of the
address space. -/
def Op.Loads [Platform] : Op → Prop
  | .nat o => match o with
    | .malloc size => size < 2 ^ Platform.bits
    | .calloc count size => count * size < 2 ^ Platform.bits
    | _ => True
  | .fault _ => True
  | _ => False

theorem Op.Frees.loads [Platform] {e : Op} (h : e.Frees) : e.Loads := by
  cases e with
  | nat o => cases o <;> trivial
  | fault f => trivial
  | _ => exact h.elim

theorem Op.Loads.unpublished [Platform] {e : Op} (h : e.Loads) : e.stage ≠ .publish := by
  cases e with
  | nat o => exact o.unpublished
  | fault f => exact nofun
  | _ => exact h.elim

/-- An operation of one of two stages of a load. -/
def Op.In (a b : Stage) (e : Op) : Prop := e.stage = a ∨ e.stage = b

section
variable {α : Type} {b : Stage}

theorem cgo_tidy {f : CFunc} {body : Act α} (h : Uses (Op.In .tidy b) body) :
    Uses (Op.In .tidy b) (cgo f body) :=
  cgo_uses (.inl rfl) (.inl rfl) h

/-! ## bridge.c -/

namespace Bridge

variable [Platform]

theorem ocSessionFree_uses (s : Option OcSession) : Uses Op.Frees (ocSessionFree s) := by
  cases s with
  | none => trivial
  | some s =>
    exact (whenSome_uses fun h => .perform trivial).bind fun _ =>
      (whenSome_uses fun ports => .fold (fun i _ => (rd_uses _ _ fun _ => trivial).bind fun p =>
        (whenSome_uses fun name => .perform trivial).bind fun _ =>
        freePtr_uses _ fun _ => trivial) _ _).bind fun _ =>
      (freePtr_uses _ fun _ => trivial).bind fun _ => (freePtr_uses _ fun _ => trivial).bind fun _ =>
      .perform trivial

theorem ocSessionFree_stage (s : Option OcSession) : Uses (Op.In .tidy b) (ocSessionFree s) := by
  refine (ocSessionFree_uses s).mono fun e he => .inl ?_
  cases e with
  | nat o => cases o <;> first | rfl | exact he.elim
  | fault f => rfl
  | _ => exact he.elim

omit [Platform] in
theorem ocOptionsNew_stage (config : OcOptions) :
    Uses (Op.In .tidy .options) (ocOptionsNew config) := by
  have hbody : UsesCode (Op.In .tidy .options) (ocOptionsNewBody config) :=
    .bind (.check (.perform (.inr rfl))) fun o => .bind (.modify _) fun _ =>
    .bind (.check (.perform (.inr rfl))) fun _ => .bind (.check (.perform (.inr rfl))) fun _ =>
    .bind (.check (.perform (.inr rfl))) fun _ => .bind (.lift (rd_uses _ _ fun _ => .inl rfl)) fun _ =>
    .bind (.check (.perform (.inr rfl))) fun _ => .pure o
  refine (hbody none).bind ?_
  rintro ⟨o, status | h⟩
  · exact (whenSome_uses fun o => .perform (.inl rfl)).bind fun _ => .pure _
  · exact .pure _

omit [Platform] in
theorem ocProviderV2_stage {create : Act (Fallible Handle)} {update append : Handle → Act (Fallible Unit)}
    {release : Handle → Act Unit} (hc : Uses (Op.In .tidy .options) create)
    (hu : ∀ p, Uses (Op.In .tidy .options) (update p))
    (ha : ∀ p, Uses (Op.In .tidy .options) (append p))
    (hr : ∀ p, Uses (Op.In .tidy .options) (release p)) :
    Uses (Op.In .tidy .options) (ocProviderV2 create update append release) := by
  refine .bind ?_ fun (p, status) => (whenSome_uses hr).bind fun _ => .pure _
  have hcode : UsesCode (Op.In .tidy .options) (do
      let p ← .check create
      .modify fun _ => some p
      .check (update p)
      .check (append p) : CCode (Option Handle) Unit) :=
    .bind (.check hc) fun p => .bind (.modify _) fun _ => .bind (.check (hu p)) fun _ => .check (ha p)
  exact hcode none

omit [Platform] in
theorem ocProvider_stage (o : Handle) (name : CStr) (keys values : List CStr) :
    Uses (Op.In .tidy .options) (ocProvider o name keys values) := by
  unfold ocProvider
  split
  · exact ocProviderV2_stage (.perform (.inr rfl)) (fun _ => .perform (.inr rfl))
      (fun _ => .perform (.inr rfl)) fun _ => .perform (.inl rfl)
  split
  · exact ocProviderV2_stage (.perform (.inr rfl)) (fun _ => .perform (.inr rfl))
      (fun _ => .perform (.inr rfl)) fun _ => .perform (.inl rfl)
  split
  · exact .perform (.inr rfl)
  · exact .perform (.inr rfl)

/-- What `n` elements of `size` bytes take is in the address space when `n` passes the check. -/
theorem fits_of_le {n size : Nat} (h : n ≤ sizeMax / size) : n * size < 2 ^ Platform.bits := by
  have hle : n * size ≤ sizeMax := (Nat.mul_le_mul_right size h).trans (Nat.div_mul_le_self ..)
  have hmax : sizeMax = 2 ^ Platform.bits - 1 := rfl
  have hpos : 0 < 2 ^ Platform.bits := Nat.two_pow_pos _
  omega

theorem ocLoadShape_uses (i : Nat) (p : OcPort) (tensor : Handle) :
    UsesCode Op.Loads (ocLoadShape i p tensor) := by
  refine .bind (.lift ?_) fun addr => ?_
  · split
    · exact .pure _
    · next h => exact .perform (fits_of_le (Nat.not_lt.1 h))
  cases addr with
  | none => exact .bind (.lift (.perform trivial)) fun _ => .fail _
  | some addr =>
    exact .bind (.modify _) fun _ => .bind (.check (.perform trivial)) fun _ => .modify _

theorem ocLoadPort_uses (h inputs i : Nat) : UsesCode Op.Loads (ocLoadPort h inputs i) := by
  have hname : Uses Op.Loads (portName h inputs i) := by
    unfold portName
    split <;> exact .perform trivial
  have hinfo : Uses Op.Loads (portTypeInfo h inputs i) := by
    unfold portTypeInfo
    split <;> exact .perform trivial
  refine .bind .get fun v => .bind (.lift (deref_uses _ fun _ => trivial)) fun ports =>
    .bind (.lift (deref_uses _ fun _ => trivial)) fun names =>
    .bind (.lift (rd_uses _ _ fun _ => trivial)) fun p => .bind (.check hname) fun name =>
    .bind (.modify _) fun _ => .bind (.check hinfo) fun info => .bind (.modify _) fun _ =>
    .bind (.lift (wr_uses _ _ _ fun _ => trivial)) fun _ => .bind (.modify _) fun _ =>
    .bind (.check (.perform trivial)) fun kind => ?_
  split
  · exact .bind (.lift (.perform trivial)) fun _ => .fail _
  refine .bind (.check (.perform trivial)) fun tensor =>
    .bind (.check (.perform trivial)) fun type => .bind (.modify _) fun _ =>
    .bind (.check (.perform trivial)) fun rank => .bind (.modify _) fun _ => .bind ?_ fun _ =>
    .bind (.lift (.perform trivial)) fun _ => .modify _
  split
  · exact ocLoadShape_uses _ _ _
  · exact .pure _

theorem ocLoadMetadata_uses {n : Nat} (h : n ≤ sizeMax / portBytes) :
    UsesCode Op.Loads (ocLoadMetadata n) := by
  have hports : n * portBytes < 2 ^ Platform.bits := fits_of_le h
  have hnames : n * pointerBytes ≤ n * portBytes :=
    Nat.mul_le_mul_left n (Nat.le_mul_of_pos_left pointerBytes (by decide))
  refine .bind (.lift (.perform hports)) fun ports => .bind (.modify _) fun _ =>
    .bind (.lift (.perform (hnames.trans_lt hports))) fun names => .bind (.modify _) fun _ => ?_
  split
  · exact .bind (.lift (.perform trivial)) fun _ => .fail _
  · exact .pure _

theorem ocLoadBody_uses (r : OcRuntime) (path : Option CStr) (data : List UInt8) (options : Handle) :
    UsesCode Op.Loads (ocLoadBody r path data options) := by
  refine .bind (.check ?_) fun h => .bind (.modify _) fun _ =>
    .bind (.check (.perform trivial)) fun m => .bind (.modify _) fun _ =>
    .bind (.check (.perform trivial)) fun k => .bind (.modify _) fun _ => ?_
  · cases path <;> exact .perform trivial
  dsimp only
  split
  · exact .bind (.lift (.perform trivial)) fun _ => .fail _
  next hcond =>
  simp only [not_or, Nat.not_lt] at hcond
  exact .bind (ocLoadMetadata_uses hcond.2.2) fun _ => .forEach (ocLoadPort_uses h m) _

/-- **`oc_load`**: no size that it asks the heap for wraps. -/
theorem ocLoad_uses (r : OcRuntime) (path : Option CStr) (data : List UInt8) (options : Handle) :
    Uses Op.Loads (ocLoad r path data options) := by
  have hsession : Op.Loads (.nat (.calloc 1 (6 * pointerBytes))) := by
    show 1 * (6 * pointerBytes) < 2 ^ Platform.bits
    unfold pointerBytes
    rcases Platform.bits_eq with h | h <;> simp [h]
  refine (Uses.perform hsession).bind ?_
  rintro (_ | addr)
  · exact (Uses.perform trivial).bind fun _ => .pure _
  refine (ocLoadBody_uses r path data options _).bind ?_
  rintro ⟨v, st | _⟩
  · exact (whenSome_uses fun info => .perform trivial).bind fun _ =>
      .bind ((ocSessionFree_uses _).mono fun _ h => h.loads) fun _ => .pure _
  · exact .pure _

end Bridge

/-! ## runtime.go -/

theorem nativeError_stage (r : Option OcRuntime) (x : Fallible α) :
    Uses (Op.In .tidy b) (nativeError r x) := by
  cases x with
  | ok a => trivial
  | error status =>
    exact (deref_uses _ fun _ => .inl rfl).bind fun r =>
      (cgo_tidy (.perform (.inl rfl))).bind fun _ => (cgo_tidy (.perform (.inl rfl))).bind fun _ =>
      (cgo_tidy (.perform (.inl rfl))).bind fun _ => .pure _

theorem cString_stage (text : GoString) : Uses (Op.In .tidy b) (cString text) :=
  (Uses.perform (.inl rfl)).bind fun _ => .pure _

namespace Runtime

theorem native_stage (r : Nat) (f : OcRuntime → CFunc) {body : OcRuntime → Act (Fallible α)}
    (h : ∀ n, Uses (Op.In .tidy b) (body n)) : Uses (Op.In .tidy b) (native r f body) :=
  (Uses.perform (.inl rfl)).bind fun _ => (Uses.perform (.inl rfl)).bind fun _ =>
    (deref_uses _ fun _ => .inl rfl).bind fun n => (cgo_tidy (h n)).bind fun _ => nativeError_stage ..

theorem loadConfig_stage (r : Nat) (raw : Handle) (entry : GoString × GoString) :
    UsesCode (Op.In .tidy .options) (loadConfig r raw entry) := by
  unfold loadConfig
  dsimp only
  split
  · exact .fail _
  split
  · exact .fail _
  refine .bind (.lift (cString_stage _)) fun k => .bind (.lift (cString_stage _)) fun v =>
    .bind (.lift (native_stage _ _ fun _ => .perform (.inr rfl))) fun err =>
    .bind (.lift (.perform (.inl rfl))) fun _ => .bind (.lift (.perform (.inl rfl))) fun _ => ?_
  cases err with
  | ok _ => exact .pure _
  | error e => exact .fail _

theorem addProvider_stage (r : Nat) (o : Handle) (provider : Provider) :
    Uses (Op.In .tidy .options) (addProvider r o provider) := by
  unfold addProvider
  split
  · exact .pure _
  have hoption : ∀ entry, UsesCode (Op.In .tidy .options) (addProviderOption entry) := fun entry => by
    unfold addProviderOption
    dsimp only
    split
    · exact .fail _
    split
    · exact .fail _
    · exact .bind (.lift (cString_stage _)) fun k => .bind (.modify _) fun _ =>
        .bind (.lift (cString_stage _)) fun v => .modify _
  have hbody : ∀ name, UsesCode (Op.In .tidy .options) (addProviderBody r o provider name) :=
    fun name => .bind (.forEach hoption _) fun _ => .bind .get fun (keys, values) =>
      .bind (.lift (native_stage _ _ fun _ => Bridge.ocProvider_stage ..)) fun err => by
        cases err with
        | ok _ => exact .pure _
        | error e => exact .fail _
  refine (cString_stage _).bind fun name => .deferring (.perform (.inl rfl)) ?_
  refine (hbody name _).bind ?_
  rintro ⟨⟨keys, values⟩, res⟩
  have hfree : ∀ i, Uses (Op.In .tidy .options) (freeOption keys values i) := fun i =>
    (rd_uses _ _ fun _ => .inl rfl).bind fun k => (Uses.perform (.inl rfl)).bind fun _ =>
    (rd_uses _ _ fun _ => .inl rfl).bind fun v => .perform (.inl rfl)
  exact (Uses.fold (fun i _ => hfree i) _ _).bind fun _ => .pure _

theorem loadPort_stage [Platform] (ptr : OcSession) (p : OcPort) :
    UsesCode (Op.In .tidy b) (loadPort ptr p) := by
  unfold loadPort
  dsimp only
  split
  · exact .bind (.lift (cgo_tidy (Bridge.ocSessionFree_stage _))) fun _ => .fail _
  · refine .bind (.lift (goSlice_uses _ _ fun _ => .inl rfl)) fun _ => .modify _

end Runtime

end

/-! ## The log -/

/-- The operations that a load's log records: what ORT is asked about the model, and what makes the
session. -/
def Op.Logged (e : Op) : Prop := e.stage = .query ∨ e.stage = .publish

instance (e : Op) : Decidable e.Logged := inferInstanceAs (Decidable (_ ∨ _))

/-- The log of a load. -/
def loads : Spec Op Op.Resp Trace := marks Op.Logged fun _ _ => True

/-- What ORT reports of a port. -/
structure PortReport where
  name : CStr
  info : Handle
  tensor : Handle
  type : ElementType
  rank : Nat
  dims : List Int

namespace PortReport

/-- ORT reports the name of port `i`, of an input or of an output. -/
def nameEvent (h inputs i : Nat) (name : CStr) : Event Op Op.Resp :=
  if i < inputs then ⟨.nat (.sessionGetInputName h i), .ok name⟩
  else ⟨.nat (.sessionGetOutputName h (i - inputs)), .ok name⟩

/-- ORT gives the type info of port `i`. -/
def typeInfoEvent (h inputs i : Nat) (info : Handle) : Event Op Op.Resp :=
  if i < inputs then ⟨.nat (.sessionGetInputTypeInfo h i), .ok info⟩
  else ⟨.nat (.sessionGetOutputTypeInfo h (i - inputs)), .ok info⟩

/-- The events in which ORT reports port `i` of the session `h` with `inputs` inputs: its name and
its type info; that it is a dense tensor; its element type and its dimensions, when it has any. -/
def events (h inputs i : Nat) (p : PortReport) : Trace :=
  [nameEvent h inputs i p.name, typeInfoEvent h inputs i p.info,
    ⟨.nat (.getOnnxTypeFromTypeInfo p.info), .ok .tensor⟩,
    ⟨.nat (.castTypeInfoToTensorInfo p.info), .ok p.tensor⟩,
    ⟨.nat (.getTensorElementType p.tensor), .ok p.type⟩,
    ⟨.nat (.getDimensionsCount p.tensor), .ok p.rank⟩] ++
  if p.rank ≠ 0 then [⟨.nat (.getDimensions p.tensor p.rank), .ok p.dims⟩] else []

/-- The port as `oc_load` fills it from the report. -/
structure Fits (q : PortReport) (p : OcPort) : Prop where
  name : p.name = some q.name
  type : p.type = q.type.code
  rank : p.rank = q.rank
  dims : p.shape.elim [] (·.slots) = q.dims

end PortReport

/-- The events in which ORT reports the ports of a session, in order. -/
def reportEvents (h inputs : Nat) (qs : List PortReport) : Trace :=
  (qs.mapIdx fun i q => q.events h inputs i).flatten

theorem reportEvents_snoc (h inputs : Nat) (qs : List PortReport) (q : PortReport) :
    reportEvents h inputs (qs ++ [q]) = reportEvents h inputs qs ++ q.events h inputs qs.length := by
  simp [reportEvents, List.mapIdx_concat]

/-- A log of queries only. -/
def Queries (l : Trace) : Prop := ∀ ev ∈ l, ev.1.stage = .query

theorem Queries.nil : Queries [] := fun _ h => absurd h List.not_mem_nil

theorem Queries.snoc {l : Trace} (h : Queries l) {e : Op} (he : e.stage = .query) (a : e.Resp) :
    Queries (l ++ [⟨e, a⟩]) := by
  intro ev hev
  rcases List.mem_append.1 hev with hev | hev
  · exact h ev hev
  · obtain rfl := List.mem_singleton.1 hev
    exact he

section
variable {α σ ε : Type} {l : Trace}

theorem wp_logged {e : Op} (he : e.Logged) {Q : e.Resp → Trace → Prop} :
    wp loads (Prog.perform e) Q l ↔ ∀ a, Q a (l ++ [⟨e, a⟩]) := by
  simp [loads, wp_marked he]

/-- What a load does not log leaves no trace. -/
theorem wp_unlogged {b : Stage} (hb : b ≠ .query) (hb' : b ≠ .publish) {p : Act α}
    (hp : Uses (Op.In .tidy b) p) {Q : α → Trace → Prop} (hQ : ∀ a, Q a l) : wp loads p Q l := by
  refine wp_unmarked (hp.mono fun e he hlog => ?_) hQ
  rcases he with he | he <;> rcases hlog with h | h <;> rw [he] at h
  · exact nomatch h
  · exact nomatch h
  · exact hb h
  · exact hb' h

theorem wp_tidied {p : Act α} (hp : Uses (Op.In .tidy .tidy) p) {Q : α → Trace → Prop}
    (hQ : ∀ a, Q a l) : wp loads p Q l := by
  refine wp_unlogged (b := .tidy) nofun nofun hp hQ

/-- What does not publish a session keeps a log of queries. -/
theorem wp_queries {p : Act α} (hp : Uses (fun e => e.stage ≠ .publish) p) (hl : Queries l) :
    wp loads p (fun _ l' => Queries l') l := by
  induction p generalizing l with
  | ret a => exact hl
  | op e k ih =>
    refine ⟨fun _ => trivial, fun a _ => ih a (hp.2 a) ?_⟩
    show Queries (if e.Logged then l ++ [⟨e, a⟩] else l)
    split
    · next hlog => exact hl.snoc (hlog.resolve_right hp.1) a
    · exact hl

theorem wp_deref_log {o : Option α} {Q : α → Trace → Prop} (h : ∀ a, o = some a → Q a l) :
    wp loads (deref o) Q l := by
  cases o with
  | none => exact ⟨fun _ => trivial, nofun⟩
  | some a => exact h a rfl

theorem wp_rd_log {xs : List α} {i : Nat} {Q : α → Trace → Prop} (h : ∀ a, xs[i]? = some a → Q a l) :
    wp loads (rd xs i) Q l := by
  unfold rd
  split
  · next a ha => exact h a ha
  · exact ⟨fun _ => trivial, nofun⟩

/-! ### oc_load -/

namespace Bridge

variable [Platform] {v : LoadVars} {h inputs i n : Nat} {q : PortReport}

/-- The slots of the session's ports. -/
def LoadVars.slots (v : LoadVars) : List OcPort := v.s.ports.elim [] (·.slots)

/-- The session, but for its arrays. -/
def LoadVars.base (v : LoadVars) : OcSession := { v.s with ports := none, names := none }

omit [Platform] in
theorem LoadVars.setPort_slots (v : LoadVars) (i : Nat) (p : OcPort) :
    (v.setPort i p).slots = v.slots.set i p := by
  cases hp : v.s.ports <;> simp [slots, setPort, hp]

omit [Platform] in
theorem LoadVars.setName_slots (v : LoadVars) (i : Nat) (name : CStr) :
    (v.setName i name).slots = v.slots := rfl

/-- The dimensions: one query. -/
theorem ocLoadShape_log {p : OcPort} {tensor : Handle} {l : Trace} :
    wpc loads (ocLoadShape i p tensor)
      (fun res v' l' => match res with
        | .ok _ => ∃ dims addr,
          l' = l ++ [⟨.nat (.getDimensions tensor p.rank), .ok dims⟩] ∧ v'.base = v.base ∧
          v'.slots = v.slots.set i { p with shape := some ⟨addr, dims⟩ }
        | .error _ => True) v l := by
  simp only [ocLoadShape, wpc_bind, wpc_lift]
  refine wp_tidied ?_ fun addr => ?_
  · split
    · exact .pure _
    · exact .perform (.inl rfl)
  cases addr with
  | none =>
    simp only [wpc_bind, wpc_lift, wpc_fail]
    exact wp_tidied (.perform (.inl rfl)) fun _ => trivial
  | some addr =>
    simp only [wpc_bind, wpc_modify, wpc_check]
    refine (wp_logged (e := .nat (.getDimensions tensor p.rank)) (.inl rfl)).2 ?_
    rintro (st | dims)
    · trivial
    · refine ⟨dims, addr, rfl, rfl, ?_⟩
      rw [LoadVars.setPort_slots, LoadVars.setPort_slots, List.set_set]

omit [Platform] in
/-- The first two queries of a port. -/
theorem portName_log {l : Trace} {Q : Fallible CStr → Trace → Prop}
    (herr : ∀ st l', Q (.error st) l')
    (hok : ∀ name, Q (.ok name) (l ++ [PortReport.nameEvent h inputs i name])) :
    wp loads (portName h inputs i) Q l := by
  unfold portName
  split
  · next hi =>
    refine (wp_logged (e := .nat (.sessionGetInputName h i)) (.inl rfl)).2 ?_
    rintro (st | name)
    · exact herr st _
    · simpa [PortReport.nameEvent, hi] using hok name
  · next hi =>
    refine (wp_logged (e := .nat (.sessionGetOutputName h (i - inputs))) (.inl rfl)).2 ?_
    rintro (st | name)
    · exact herr st _
    · simpa [PortReport.nameEvent, hi] using hok name

omit [Platform] in
theorem portTypeInfo_log {l : Trace} {Q : Fallible Handle → Trace → Prop}
    (herr : ∀ st l', Q (.error st) l')
    (hok : ∀ info, Q (.ok info) (l ++ [PortReport.typeInfoEvent h inputs i info])) :
    wp loads (portTypeInfo h inputs i) Q l := by
  unfold portTypeInfo
  split
  · next hi =>
    refine (wp_logged (e := .nat (.sessionGetInputTypeInfo h i)) (.inl rfl)).2 ?_
    rintro (st | info)
    · exact herr st _
    · simpa [PortReport.typeInfoEvent, hi] using hok info
  · next hi =>
    refine (wp_logged (e := .nat (.sessionGetOutputTypeInfo h (i - inputs))) (.inl rfl)).2 ?_
    rintro (st | info)
    · exact herr st _
    · simpa [PortReport.typeInfoEvent, hi] using hok info

/-- **One port**: ORT's report, and the port that it fills. -/
theorem ocLoadPort_log {l : Trace} (hz : v.slots[i]? = some OcPort.zero) :
    wpc loads (ocLoadPort h inputs i)
      (fun res v' l' => match res with
        | .ok _ => ∃ q : PortReport, ∃ p, l' = l ++ q.events h inputs i ∧ q.Fits p ∧
          v'.base = v.base ∧ v'.slots = v.slots.set i p
        | .error _ => True) v l := by
  simp only [ocLoadPort, wpc_bind, wpc_get, wpc_lift, wpc_modify, wpc_check]
  refine wp_deref_log fun ports hports => wp_deref_log fun names hnames => wp_rd_log fun p hp => ?_
  have hslots : v.slots = ports.slots := by simp [LoadVars.slots, hports]
  obtain rfl : p = OcPort.zero := by rw [hslots, hp, Option.some.injEq] at hz; exact hz
  refine portName_log (fun _ _ => trivial) fun name => ?_
  refine portTypeInfo_log (fun _ _ => trivial) fun info => ?_
  dsimp only
  refine wp_tidied (wr_uses _ _ _ fun _ => .inl rfl) fun _ => ?_
  refine (wp_logged (e := .nat (.getOnnxTypeFromTypeInfo info)) (.inl rfl)).2 ?_
  rintro (st | kind)
  · trivial
  dsimp only
  split
  · simp only [wpc_bind, wpc_lift, wpc_fail]
    exact wp_tidied (.perform (.inl rfl)) fun _ => trivial
  next hkind =>
  obtain rfl : kind = .tensor := not_not.1 hkind
  simp only [wpc_bind, wpc_modify, wpc_check]
  refine (wp_logged (e := .nat (.castTypeInfoToTensorInfo info)) (.inl rfl)).2 ?_
  rintro (st | tensor)
  · trivial
  refine (wp_logged (e := .nat (.getTensorElementType tensor)) (.inl rfl)).2 ?_
  rintro (st | type)
  · trivial
  refine (wp_logged (e := .nat (.getDimensionsCount tensor)) (.inl rfl)).2 ?_
  rintro (st | rank)
  · trivial
  dsimp only [OcPort.zero]
  generalize hv₀ : LoadVars.setPort _ i ⟨some name, type.code, none, rank⟩ = v₀
  have hbase : v₀.base = v.base := by rw [← hv₀]; rfl
  have hslots₀ : v₀.slots = v.slots.set i ⟨some name, type.code, none, rank⟩ := by
    rw [← hv₀, LoadVars.setPort_slots, LoadVars.setPort_slots, LoadVars.setName_slots, List.set_set]
    exact (congrArg (List.set · i _) (LoadVars.setPort_slots v i _)).trans (List.set_set ..)
  -- the type info is released, which leaves everything as the shape has left it
  suffices hdims : wpc loads
      (if rank ≠ 0 then ocLoadShape i ⟨some name, type.code, none, rank⟩ tensor else pure ())
      (fun res v' l' => match res with
        | .ok _ => ∃ q : PortReport, ∃ p, l' = l ++ q.events h inputs i ∧ q.Fits p ∧
          v'.base = v.base ∧ v'.slots = v.slots.set i p
        | .error _ => True) v₀ _ by
    refine wpc_mono ?_ hdims
    rintro (st | _) v' l' h
    · trivial
    · exact wpc_lift.2 (wp_tidied (.perform (.inl rfl)) fun _ => h)
  simp only [List.append_assoc, List.cons_append, List.nil_append]
  split
  · next hrank =>
    refine wpc_mono ?_ ocLoadShape_log
    rintro (st | _) v' l' h
    · trivial
    obtain ⟨dims, addr, rfl, hb, hs⟩ := h
    refine ⟨⟨name, info, tensor, type, rank, dims⟩, _, ?_, ⟨rfl, rfl, rfl, rfl⟩, hb.trans hbase,
      hs.trans (by rw [hslots₀, List.set_set])⟩
    simp [PortReport.events, hrank]
  · next hrank =>
    exact ⟨⟨name, info, tensor, type, rank, []⟩, _, by simp [PortReport.events, hrank],
      ⟨rfl, rfl, rfl, rfl⟩, hbase, hslots₀⟩

/-- The ports reported so far, in the session as far as it is loaded. -/
structure LoadVars.Logged (b : OcSession) (n i : Nat) (qs : List PortReport) (v : LoadVars) :
    Prop where
  base : v.base = b
  length : v.slots.length = n
  count : qs.length = i
  fits : ∀ (j : Nat) (q : PortReport), qs[j]? = some q → ∃ p, v.slots[j]? = some p ∧ q.Fits p
  zero : ∀ j, i ≤ j → j < n → v.slots[j]? = some OcPort.zero

/-- **`oc_load` before `fail:`.** ORT is asked for the two counts, then for every port in order. -/
theorem ocLoadBody_log {r : OcRuntime} {path : Option CStr} {data : List UInt8}
    {options addr : Handle} :
    wpc loads (ocLoadBody r path data options)
      (fun res v l => match res with
        | .ok _ => ∃ h m k qs,
          l = [⟨.nat (.sessionGetInputCount h), .ok m⟩, ⟨.nat (.sessionGetOutputCount h), .ok k⟩] ++
            reportEvents h m qs ∧
          v.Logged ⟨addr, r, some h, m, k, none, none⟩ (sizeMod (m + k)) (sizeMod (m + k)) qs
        | .error _ => True) ⟨newSession addr r, none⟩ [] := by
  simp only [ocLoadBody, wpc_bind, wpc_modify, wpc_check]
  refine wp_unlogged (b := .create) (by simp) (by simp) ?_ ?_
  · cases path <;> exact .perform (.inr rfl)
  rintro (st | h)
  · trivial
  refine (wp_logged (e := .nat (.sessionGetInputCount h)) (.inl rfl)).2 ?_
  rintro (st | m)
  · trivial
  refine (wp_logged (e := .nat (.sessionGetOutputCount h)) (.inl rfl)).2 ?_
  rintro (st | k)
  · trivial
  dsimp only
  split
  · simp only [wpc_bind, wpc_lift, wpc_fail]
    exact wp_tidied (.perform (.inl rfl)) fun _ => trivial
  simp only [ocLoadMetadata, wpc_bind, wpc_modify, wpc_lift]
  refine wp_tidied (.perform (.inl rfl)) fun ports => wp_tidied (.perform (.inl rfl)) fun names => ?_
  split
  · simp only [wpc_bind, wpc_lift, wpc_fail]
    exact wp_tidied (.perform (.inl rfl)) fun _ => trivial
  next hsome =>
  obtain ⟨p, rfl⟩ : ∃ p, ports = some p := by cases ports <;> simp_all
  refine wpc_pure () |>.2 (wpc_forRange (fun i (v : LoadVars) l => ∃ qs,
    l = [⟨.nat (.sessionGetInputCount h), .ok m⟩, ⟨.nat (.sessionGetOutputCount h), .ok k⟩] ++
      reportEvents h m qs ∧
    v.Logged ⟨addr, r, some h, m, k, none, none⟩ (sizeMod (m + k)) i qs) ?_ ?_ ?_)
  · rintro i v l hi ⟨qs, rfl, hv⟩
    refine wpc_mono ?_ (ocLoadPort_log (hv.zero i le_rfl hi))
    rintro (st | _) v' l' hres
    · trivial
    obtain ⟨q, p, rfl, hq, hb, hs⟩ := hres
    refine ⟨qs ++ [q], by rw [reportEvents_snoc, hv.count, List.append_assoc], hb.trans hv.base,
      by rw [hs, List.length_set, hv.length], by simp [hv.count], fun j q' hj => ?_,
      fun j hij hjn => ?_⟩
    · rw [hs]
      rcases Nat.lt_trichotomy j i with hji | rfl | hji
      · rw [List.getElem?_append_left (by rw [hv.count]; exact hji)] at hj
        obtain ⟨p', hp', hfits⟩ := hv.fits j q' hj
        exact ⟨p', by rw [List.getElem?_set_ne (Nat.ne_of_gt hji), hp'], hfits⟩
      · rw [← hv.count, List.getElem?_concat_length, Option.some.injEq] at hj
        subst hj
        exact ⟨p, List.getElem?_set_self (by rw [hv.length]; exact hi), hq⟩
      · rw [List.getElem?_eq_none (by simp [hv.count]; omega)] at hj
        cases hj
    · rw [hs, List.getElem?_set_ne (by omega)]
      exact hv.zero j (by omega) hjn
  · rintro v l ⟨qs, rfl, hv⟩
    exact ⟨h, m, k, qs, rfl, hv⟩
  · refine ⟨[], by simp [reportEvents], rfl, by simp [LoadVars.slots], rfl, by simp, fun j _ hj => ?_⟩
    simp [LoadVars.slots, hj]

/-- A native session that `oc_load` has made of ORT's reports. -/
structure Loaded (l : Trace) (h m k : Nat) (qs : List PortReport) (n : OcSession) : Prop where
  log : l = [⟨.nat (.sessionGetInputCount h), .ok m⟩, ⟨.nat (.sessionGetOutputCount h), .ok k⟩] ++
    reportEvents h m qs
  handle : n.handle = some h
  inputs : n.inputs = m
  outputs : n.outputs = k
  count : qs.length = sizeMod (m + k)
  length : (n.ports.elim [] (·.slots)).length = qs.length
  fits : ∀ (j : Nat) (q : PortReport), qs[j]? = some q →
    ∃ p, (n.ports.elim [] (·.slots))[j]? = some p ∧ q.Fits p

theorem ocLoad_log (r : OcRuntime) (path : Option CStr) (data : List UInt8) (options : Handle) :
    wp loads (ocLoad r path data options)
      (fun res l => match res with
        | .ok n => ∃ h m k qs, Loaded l h m k qs n
        | .error _ => True) [] := by
  simp only [ocLoad, wp_bind]
  refine wp_tidied (p := nat _) (.perform (.inl rfl)) ?_
  rintro (_ | addr)
  · simp only [wp_bind, wp_pure]
    exact wp_tidied (.perform (.inl rfl)) fun _ => trivial
  simp only [wp_bind, wp_code]
  refine wpc_mono ?_ ocLoadBody_log
  rintro (st | _) v l hres
  · simp only [wp_bind, wp_pure]
    refine wp_tidied (whenSome_uses fun info => .perform (.inl rfl)) fun _ => ?_
    exact wp_tidied (ocSessionFree_stage _) fun _ => trivial
  obtain ⟨h, m, k, qs, rfl, hv⟩ := hres
  have hb := hv.base
  have hh : v.s.handle = some h := congrArg OcSession.handle hb
  have hm : v.s.inputs = m := congrArg OcSession.inputs hb
  have hk : v.s.outputs = k := congrArg OcSession.outputs hb
  exact ⟨h, m, k, qs, rfl, hh, hm, hk, hv.count, hv.length.trans hv.count.symm, hv.fits⟩

end Bridge

/-! ### runtime.go -/

namespace Runtime

variable [Platform]

/-- What a load has done that returns the session `s`. -/
def Made (r : Nat) (o : SessionOptions) (s : Session) (l : Trace) : Prop :=
  ∃ h m k qs n l₀, Bridge.Loaded l₀ h m k qs n ∧
    l = l₀ ++ [⟨.rt r .incRefs, ()⟩, ⟨.newSession r s.gated n s.inputs s.outputs, s.id⟩] ∧
    s.runtime = r ∧ s.gated = decide (o.providers ≠ [])

/-- What a load has done that returns `res`. -/
def LoadLog (r : Nat) (o : SessionOptions) (res : Except GoError Session) (l : Trace) : Prop :=
  match res with
  | .ok s => Made r o s l
  | .error _ => Queries l

theorem loadSession_log {r : Nat} {o : SessionOptions} {n : OcSession} {h m k : Nat}
    {qs : List PortReport} {l : Trace} (hl : Bridge.Loaded l h m k qs n) (hq : Queries l) :
    wp loads ((loadSession r o n).run []) (LoadLog r o) l := by
  simp only [wp_run, loadSession, wpc_bind, wpc_lift]
  refine wp_tidied (goSlice_uses _ _ fun _ => .inl rfl) fun ports => ?_
  refine wp_tidied (UsesCode.forEach (loadPort_stage n) ports []) ?_
  rintro ⟨info, err | _⟩
  · exact hq
  refine (wp_logged (e := .rt r .incRefs) (.inr rfl)).2 fun _ => ?_
  refine wp_tidied (goSlice_uses _ _ fun _ => .inl rfl) fun ins => ?_
  refine (wp_logged (e := .newSession _ _ _ _ _) (.inr rfl)).2 fun id => ?_
  exact ⟨h, m, k, qs, n, l, hl, by simp, rfl, rfl⟩

omit [Platform] in
theorem native_log {α : Type} {r : Nat} {f : OcRuntime → CFunc}
    {body : OcRuntime → Act (Fallible α)} {Q : Except NativeError α → Trace → Prop} {l : Trace}
    (h : ∀ x, wp loads (body x) (fun res l' => match res with
      | .ok a => Q (.ok a) l'
      | .error _ => ∀ e, Q (.error e) l') l) : wp loads (native r f body) Q l := by
  simp only [native, cgo, wp_bind, wp_pure]
  refine wp_tidied (.perform (.inl rfl)) fun _ => wp_tidied (.perform (.inl rfl)) fun _ =>
    wp_deref_log fun x _ => wp_tidied (.perform (.inl rfl)) fun _ => wp_mono ?_ (h x)
  rintro (st | a) l' hres
  · refine wp_tidied (.perform (.inl rfl)) fun _ => ?_
    simp only [nativeError, wp_bind, wp_pure]
    refine wp_deref_log fun r' _ => wp_tidied (cgo_tidy (.perform (.inl rfl))) fun code => ?_
    refine wp_tidied (cgo_tidy (.perform (.inl rfl))) fun message => ?_
    exact wp_tidied (cgo_tidy (.perform (.inl rfl))) fun _ => hres _
  · exact wp_tidied (.perform (.inl rfl)) fun _ => hres

theorem loadModel_log {r : Nat} {cpath : Option CStr} {model : List UInt8} {o : SessionOptions}
    {raw : Handle} : wp loads (loadModel r cpath model o raw) (LoadLog r o) [] := by
  simp only [loadModel, wp_bind]
  refine native_log fun x => ?_
  refine wp_mono ?_ (wp_and (Bridge.ocLoad_log x cpath model raw)
    (wp_queries ((Bridge.ocLoad_uses x cpath model raw).mono fun _ h => h.unpublished) .nil))
  rintro (st | n) l ⟨hlog, hq⟩
  · exact fun e => hq
  · obtain ⟨h, m, k, qs, hl⟩ := hlog
    exact loadSession_log hl hq

theorem loadOptions_log {r : Nat} {path : GoString} {model : List UInt8} {o : SessionOptions}
    {raw : Handle} : wp loads (loadOptions r path model o raw) (LoadLog r o) [] := by
  simp only [loadOptions, wp_bind]
  refine wp_unlogged (b := .options) (by simp) (by simp) (UsesCode.run (.forEach (loadConfig_stage r raw) _) _) ?_
  rintro (err | _)
  · exact .nil
  simp only [wp_bind]
  refine wp_unlogged (b := .options) (by simp) (by simp)
    (UsesCode.run (.forEach (fun p => .check (addProvider_stage r raw p)) _) _) ?_
  rintro (err | _)
  · exact .nil
  dsimp only
  split
  · exact loadModel_log
  · simp only [wp_bind, wp_deferring]
    refine wp_tidied (cString_stage _) fun cpath => wp_mono (fun res l h => ?_) loadModel_log
    exact wp_tidied (.perform (.inl rfl)) fun _ => h

theorem loadOpen_log {r : Nat} {path : GoString} {model : List UInt8}
    {options : Option SessionOptions} :
    wp loads (loadOpen r path model options) (LoadLog r (options.getD {})) [] := by
  simp only [loadOpen]
  split
  · exact .nil
  simp only [wp_bind]
  refine wp_unlogged (b := .options) (by simp) (by simp) (native_stage _ _ fun _ => Bridge.ocOptionsNew_stage _) ?_
  rintro (err | raw)
  · exact .nil
  simp only [wp_bind, wp_deferring]
  refine wp_tidied (.perform (.inl rfl)) fun _ => wp_deref_log fun n _ => ?_
  refine wp_mono (fun res l h => ?_) loadOptions_log
  exact wp_tidied (cgo_tidy (.perform (.inl rfl))) fun _ => h

/-- **`Runtime.load`**: the log of a load. -/
theorem load_log (r : Nat) (path : GoString) (model : List UInt8)
    (options : Option SessionOptions) :
    wp loads (load r path model options) (LoadLog r (options.getD {})) [] := by
  simp only [load, wp_bind, wp_deferring]
  refine wp_tidied (.perform (.inl rfl)) fun _ => ?_
  have hend : ∀ res l, LoadLog r (options.getD {}) res l →
      wp loads (rt r .unlock) (fun _ l' => LoadLog r (options.getD {}) res l') l := fun res l h =>
    wp_tidied (.perform (.inl rfl)) fun _ => h
  simp only [loadLocked, wp_bind]
  refine wp_tidied (.perform (.inl rfl)) fun b => ?_
  split
  · exact hend _ _ .nil
  simp only [wp_bind]
  refine wp_tidied (.perform (.inl rfl)) fun n => ?_
  cases n with
  | none => exact hend _ _ .nil
  | some n => exact wp_mono (fun res l h => hend res l h) loadOpen_log

end Runtime

end

end Onnxcraft
