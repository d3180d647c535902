import Onnxcraft.Effect.Assume
import Onnxcraft.Effect.Upholds
import Onnxcraft.Protocol.Outcome

/-!
# Runs that nothing disturbs

`calm`: no context is done, the session is open, native calls succeed, and ORT tells of every output
that it has computed what the output is. A run in such an environment succeeds, whenever its request
is one that may be handed to ORT (`Request.calm_succeeds`).
-/

namespace Onnxcraft

open Effect

/-! ## Values -/

/-- What a tensor is: its element type, its dimensions and its bytes. -/
structure Value where
  type : DataType
  shape : List Int
  bytes : List UInt8
  deriving DecidableEq

/-- A value of a type of known size, with as many bytes as type and dimensions require. -/
structure Value.Proper [Platform] (y : Value) : Prop where
  sized : y.type.size ≠ 0
  dims : ∀ d ∈ y.shape, 0 ≤ d
  bytes : y.shape.prod * y.type.size = y.bytes.length
  fits : (y.bytes.length : Int) ≤ maxInt

section
variable [Platform]

instance (y : Value) : Decidable y.Proper :=
  decidable_of_iff (y.type.size ≠ 0 ∧ (∀ d ∈ y.shape, 0 ≤ d) ∧
    y.shape.prod * y.type.size = y.bytes.length ∧ (y.bytes.length : Int) ≤ maxInt)
    ⟨fun h => ⟨h.1, h.2.1, h.2.2.1, h.2.2.2⟩, fun h => ⟨h.1, h.2, h.3, h.4⟩⟩

/-- What native calls answer when nothing goes wrong; `holds`: what ORT's values are. -/
def NativeOp.calm (holds : Handle → Option Value) : (o : NativeOp) → o.Resp → Bool
  | .calloc _ _, p => p.isSome
  | .createRunOptions, a | .createTensorWithDataAsOrtValue _ _ _ _ _ _, a
  | .getTensorMemoryInfo _, a => a.isOk
  | .memoryInfoGetDeviceType _, d => d = .cpu
  | .run _ _ _ _ _ _, reply =>
    reply.status = none ∧ ∀ v ∈ reply.filled, ∀ h ∈ v, ∃ y ∈ holds h, y.Proper
  | .getTensorElementTypeAndShapeDataReference v, a => match a with
    | .ok (type, shape) => ∀ y ∈ v.bind holds, DataType.ofCode type.code = y.type ∧ shape = y.shape
    | .error _ => false
  | .getTensorSizeInBytes v, a => match a with
    | .ok n => ∀ y ∈ v.bind holds, n = y.bytes.length
    | .error _ => false
  | .getTensorMutableData v, a => match a with
    | .ok p => ∀ y ∈ v.bind holds, y.bytes ≠ [] → p ≠ 0
    | .error _ => false
  | _, _ => true

/-- What is answered when nothing goes wrong. -/
def calm (holds : Handle → Option Value) : Event Op Op.Resp → Bool
  | ⟨.ctxErr _, e⟩ => e = none
  | ⟨.sess _ .getNative, n⟩ => n.isSome
  | ⟨.sess _ (.gateSelect _), sent⟩ => sent
  | ⟨.nat o, a⟩ => o.calm holds a
  | _ => true

section
variable {holds : Handle → Option Value} {v : Option Handle}

@[simp] theorem calm_ctxErr {c : Ctx} {e : Option CtxError} :
    calm holds ⟨.ctxErr c, e⟩ = true ↔ e = none := decide_eq_true_iff

@[simp] theorem calm_run {session options : Option Handle} {inNames outNames : List (Option CStr)}
    {ins outs : List (Option Handle)} {reply : RunReply} :
    calm holds ⟨.nat (.run session options inNames ins outNames outs), reply⟩ = true ↔
      reply.status = none ∧ ∀ v ∈ reply.filled, ∀ h ∈ v, ∃ y ∈ holds h, y.Proper := decide_eq_true_iff

@[simp] theorem calm_device {m : Handle} {d : DeviceType} :
    calm holds ⟨.nat (.memoryInfoGetDeviceType m), d⟩ = true ↔ d = .cpu := decide_eq_true_iff

@[simp] theorem calm_shape {type : ElementType} {shape : List Int} :
    calm holds ⟨.nat (.getTensorElementTypeAndShapeDataReference v), .ok (type, shape)⟩ = true ↔
      ∀ y ∈ v.bind holds, DataType.ofCode type.code = y.type ∧ shape = y.shape := decide_eq_true_iff

@[simp] theorem calm_bytes {n : Nat} : calm holds ⟨.nat (.getTensorSizeInBytes v), .ok n⟩ = true ↔
    ∀ y ∈ v.bind holds, n = y.bytes.length := decide_eq_true_iff

@[simp] theorem calm_data {p : Nat} : calm holds ⟨.nat (.getTensorMutableData v), .ok p⟩ = true ↔
    ∀ y ∈ v.bind holds, y.bytes ≠ [] → p ≠ 0 := decide_eq_true_iff

end

/-- A calm answer to a run that may rely on what its log's protocol says. -/
def Request.Served (q : Request) (holds : Handle → Option Value) (ev : Event Op Op.Resp) : Prop :=
  calm holds ev ∧ ∃ l, q.Knows ev.1 l ev.2

variable {α : Type} {q : Request} {holds : Handle → Option Value} {l : Trace}

/-- What is known from the log's protocol is known in a calm environment. -/
theorem Request.served_knows {e : Op} {a : e.Resp} (hl : ∀ ev ∈ l, q.Served holds ev)
    (h : q.Served holds ⟨e, a⟩) :
    q.Knows e l a ∧ ∀ ev ∈ q.logged.upd e a l, q.Served holds ev := by
  constructor
  · obtain ⟨hcalm, l₀, hknows⟩ := h
    cases e with
    | ctxErr c =>
      -- nothing in the log says that the context is done
      obtain rfl := calm_ctxErr.1 hcalm
      intro hany
      obtain ⟨⟨e, b⟩, hev, hcancels⟩ := List.any_eq_true.1 hany
      have hev := (hl _ hev).1
      cases e with
      | ctxErr c =>
        obtain rfl := calm_ctxErr.1 hev
        cases hcancels
      | sess s o =>
        cases o with
        | gateSelect c =>
          obtain rfl : b = true := hev
          cases hcancels
        | _ => cases hcancels
      | _ => cases hcancels
    | sess s o => cases o <;> exact hknows
    | pool o => cases o <;> exact hknows
    | mem o => cases o <;> exact hknows
    | _ => exact hknows
  · intro ev hev
    change ev ∈ (if e.Noted then l ++ [⟨e, a⟩] else l) at hev
    split at hev
    · rcases List.mem_append.1 hev with hev | hev
      · exact hl ev hev
      · rw [List.mem_singleton.1 hev]
        exact h
    · exact hl ev hev

/-- What is proved of a run's log holds in a calm environment. -/
theorem Request.wp_calm {p : Act α} {Q : α → Trace → Prop} (h : wp q.logged p Q l)
    (hl : ∀ ev ∈ l, q.Served holds ev) :
    wp (assuming (q.Served holds)) p (fun a _ => ∃ l', (∀ ev ∈ l', q.Served holds ev) ∧ Q a l') () :=
  wp_forget (fun _ _ _ hl hev => Request.served_knows hl hev) h hl

/-! ## The bridge -/

/-- Code that does not fail. -/
def Unfailing (q : Request) (holds : Handle → Option Value) {σ ε : Type} (c : Code Op Op.Resp σ ε α) :
    Prop := UpholdsCode (assuming (q.Served holds)) (fun _ => True) (fun _ _ => False) c

theorem unfailing_lift {σ ε : Type} (p : Act α) :
    Unfailing q holds (.lift p : Code Op Op.Resp σ ε α) :=
  UpholdsCode.lift fun _ _ => wp_whatever p fun _ => trivial

theorem unfailing_check {σ ε : Type} {p : Act (Except ε α)}
    (h : wp (assuming (q.Served holds)) p (fun a _ => a.isOk) ()) :
    Unfailing q holds (.check p : Code Op Op.Resp σ ε α) := by
  apply UpholdsCode.check
  intro _ _
  refine wp_mono ?_ h
  rintro (e | a) _ hok
  · cases hok
  · trivial

namespace Bridge

variable {n : OcSession} {options : Option Handle} {inputs : List OcTensor}
  {preallocated outputs : Option (List OcTensor)}

theorem runCreate_unfailing (i : Nat) : Unfailing q holds (runCreate n inputs preallocated i) := by
  unfold runCreate
  split
  · exact .pure _
  · exact .bind (unfailing_lift _) fun t =>
      .bind (unfailing_check (wp_assuming.2 fun a ha => ha.1)) fun v => .bind .get fun vars =>
      .bind (unfailing_lift _) fun values => .modify _

theorem runCall_unfailing : Unfailing q holds (runCall n options) := by
  refine .bind .get fun vars => .bind (unfailing_lift _) fun names => .bind (unfailing_lift _) fun _ =>
    .bind (unfailing_lift _) fun ins => .bind (unfailing_lift _) fun _ =>
    .bind (unfailing_lift _) fun outs => ?_
  intro st g _
  simp only [wpc_bind, wpc_lift, wpc_modify]
  refine wp_assuming.2 fun reply hreply => ?_
  rw [(calm_run.1 hreply.1).1]
  trivial

theorem runOutput_unfailing (i : Nat) : Unfailing q holds (runOutput n i) := by
  refine .bind .get fun vars => .bind (unfailing_lift _) fun outs => .bind (unfailing_lift _) fun t =>
    .bind (unfailing_lift _) fun value => .bind (.modify _) fun _ =>
    .bind (unfailing_check (wp_assuming.2 fun a ha => ha.1)) fun memory => ?_
  intro st g _
  simp only [wpc_bind, wpc_lift]
  refine wp_assuming.2 fun device hdevice => ?_
  obtain rfl := calm_device.1 hdevice.1
  rw [if_neg (not_not.2 rfl)]
  refine (UpholdsCode.bind (unfailing_check (wp_assuming.2 fun a ha => ?_)) fun _ => .bind (.modify _) fun _ =>
    .bind (unfailing_check (wp_assuming.2 fun a ha => ?_)) fun _ => .bind (.modify _) fun _ =>
    .bind (unfailing_check (wp_assuming.2 fun a ha => ?_)) fun _ => .modify _) st g trivial
  all_goals
    cases a with
    | error st => exact (Bool.false_ne_true ha.1).elim
    | ok x => rfl

/-- **The C function `run`** does not fail. -/
theorem run_calm : wp (assuming (q.Served holds)) (run n options inputs preallocated outputs)
    (fun res _ => res.1 = none) () := by
  simp only [run, wp_bind]
  have hvalues : wp (assuming (q.Served holds)) (runValues (sizeMod (n.inputs + n.outputs)))
      (fun r _ => r.isSome) () := by
    unfold runValues
    split
    · rfl
    · simp only [wp_bind, wp_pure]
      refine wp_assuming.2 fun p hp => ?_
      rw [Option.isSome_map]
      exact hp.1
  refine wp_mono ?_ hvalues
  rintro r _ hr
  obtain ⟨⟨base, values⟩, rfl⟩ := Option.isSome_iff_exists.1 hr
  have hbody : Unfailing q holds
      (runBody n options inputs preallocated (sizeMod (n.inputs + n.outputs))) := by
    refine .bind (.forEach (fun i => runCreate_unfailing i) _) fun _ =>
      .bind runCall_unfailing fun _ => ?_
    split
    · exact .forEach (fun i => runOutput_unfailing i) _
    · exact .pure _
  simp only [wp_bind]
  refine wp_mono ?_ (hbody ⟨values, outputs⟩ () trivial)
  rintro ⟨vars, st | _⟩ _ hres
  · exact hres.elim
  · exact wp_whatever _ fun _ => wp_whatever _ fun _ => rfl

end Bridge

/-! ## What ORT tells -/

/-- ORT's reply about an output that is `y`. -/
structure Reply.Tells (o : Reply) (y : Value) : Prop where
  type : DataType.ofCode o.type.code = y.type
  shape : o.shape = y.shape
  bytes : o.bytes = y.bytes.length
  data : y.bytes ≠ [] → o.data ≠ 0

theorem Reply.Tells.of_queries {o : Reply} {y : Value} (h : ∀ ev ∈ o.queries, calm holds ev)
    (hy : holds o.value = some y) : o.Tells y := by
  simp only [Reply.queries, List.forall_mem_cons] at h
  obtain ⟨hshape, hbytes, hdata, -⟩ := h
  have hy' : y ∈ (some o.value).bind holds := hy
  have hshape := calm_shape.1 hshape y hy'
  exact ⟨hshape.1, hshape.2, calm_bytes.1 hbytes y hy', calm_data.1 hdata y hy'⟩

/-- The events in which ORT replies about an output are in the log. -/
theorem Bridge.Answered.query {memory : Option Handle} {outs : List Reply} {l l' : Trace}
    (h : Bridge.Answered q memory l outs l') {o : Reply} (ho : o ∈ outs) : ∀ ev ∈ o.queries, ev ∈ l' := by
  obtain ⟨reply, l₁, -, -, rfl, -, -⟩ := h.log
  intro ev hev
  exact List.mem_append_right _ (List.mem_flatMap.2 ⟨o, ho, hev⟩)

/-- In a calm environment ORT tells of every output what it is. -/
theorem Bridge.Answered.tells {memory : Option Handle} {outs : List Reply} {l l' : Trace}
    (h : Bridge.Answered q memory l outs l') (hinto : q.into = false)
    (hl : ∀ ev ∈ l', q.Served holds ev) :
    ∀ o ∈ outs, ∃ y, holds o.value = some y ∧ y.Proper ∧ o.Tells y := by
  intro o ho
  obtain ⟨reply, l₁, -, ⟨hs, session, options, inNames, ins, outNames, os, -, rfl⟩, hl', -, hfilled⟩ := h.log
  have hrun : (⟨.nat (.run session options inNames ins outNames os), reply⟩ : Event Op Op.Resp) ∈ l' := by
    rw [hl']
    simp
  have hmem : some o.value ∈ reply.filled := by
    rw [hfilled hinto]
    exact List.mem_map_of_mem ho
  obtain ⟨y, hy, hproper⟩ := (calm_run.1 (hl _ hrun).1).2 _ hmem o.value rfl
  exact ⟨y, hy, hproper, .of_queries (fun ev hev => (hl ev (h.query ho ev hev)).1) hy⟩

/-! ## The run -/

namespace Session

/-- An output that ORT has told properly is copied. -/
theorem collectOutput_calm {o : Reply} {y : Value} (htells : o.Tells y) (hproper : y.Proper)
    (hrank : o.shape.length < 2 ^ (Platform.bits - 1)) : Unfailing q holds (collectOutput o.filled) := by
  have hlength : tensorSize y.shape y.type.size = .ok y.shape.prod := by
    have hpos : 0 < y.type.size := lt_of_le_of_ne (DataType.size_nonneg _) hproper.sized.symm
    refine (tensorSize_eq (DataType.size_nonneg _)).2 ⟨hpos, hproper.dims, rfl, ?_⟩
    rw [hproper.bytes]
    exact hproper.fits
  have hshape : goSlice o.filled.shape (toInt o.filled.rank) = (pure y.shape : Act (List Int)) := by
    rw [show o.filled.rank = o.shape.length from rfl, toInt_eq hrank, goSlice, if_neg (by omega), slice,
      if_pos (by simp [Reply.filled]), show o.filled.shape = o.shape from rfl, htells.shape]
    simp
  have hsize : wrapInt (y.shape.prod * y.type.size) = y.bytes.length := by
    rw [hproper.bytes]
    exact wrapInt_eq (by omega) hproper.fits
  intro result g _
  simp only [collectOutput, wpc_bind, wpc_lift]
  rw [hshape, show o.filled.type = o.type.code from rfl, htells.type]
  simp only [wp_pure]
  rw [hlength]
  simp only [wpc_bind, wpc_get, hsize]
  rw [toSize_eq (by omega) hproper.fits, if_neg]
  · exact (UpholdsCode.bind (show Unfailing q holds _ from by
        split
        · exact unfailing_lift _
        · exact .pure _) fun _ => .bind (unfailing_lift _) fun ptr => .bind (unfailing_lift _) fun bs =>
      .bind (unfailing_lift _) fun _ => .modify _) result g trivial
  · rw [not_or, not_not]
    refine ⟨htells.bytes.symm, fun h => htells.data ?_ h.2⟩
    intro hnil
    exact h.1 (by simp [hnil])

theorem wp_calm_cgo {f : CFunc} {body : Act α} {Q : α → Unit → Prop}
    (h : wp (assuming (q.Served holds)) body Q ()) : wp (assuming (q.Served holds)) (cgo f body) Q () := by
  simp only [cgo, wp_bind, wp_pure]
  refine wp_assuming.2 fun _ _ => wp_mono (fun a _ hQ => ?_) h
  exact wp_assuming.2 fun _ _ => hQ

/-- `run` after a native call that has not failed. -/
theorem collect_calm {r : Option OcRuntime} {descs : List OcTensor}
    (h : q.into = false → Unfailing q holds (Code.forEach collectOutput descs)) :
    wp (assuming (q.Served holds)) (collect q.ctx r q.into none descs)
      (fun res _ => ∃ R, res = .ok R) () := by
  simp only [collect, nativeError, wp_bind, wp_pure]
  refine wp_assuming.2 fun e he => ?_
  obtain rfl := calm_ctxErr.1 he.1
  dsimp only
  split
  · exact ⟨_, rfl⟩
  next hinto =>
    simp only [wp_bind, wp_code, wp_pure]
    refine wp_mono ?_ (h (by simpa using hinto) [] () trivial)
    rintro ⟨result, err | _⟩ _ hres
    · exact hres.elim
    · exact ⟨_, rfl⟩

theorem wp_calm_native {s : Nat} {Q : Option OcSession → Unit → Prop}
    (h : ∀ n : OcSession, n.Matches q.s.inputs q.s.outputs → Q (some n) ()) :
    wp (assuming (q.Served holds)) (sess s .getNative) Q () := by
  refine wp_assuming.2 fun a ha => ?_
  obtain ⟨n, rfl⟩ := Option.isSome_iff_exists.1 ha.1
  obtain ⟨l, hl⟩ := ha.2
  exact h n (hl n rfl)

/-- The bridge, entered with the descriptors of the request: it does not fail, and what it leaves in
the output descriptors is what ORT tells. -/
theorem bridge_calm {n : OcSession} {f : CFunc} (hn : n.Matches q.s.inputs q.s.outputs) (hq : q.Ready)
    (hf : (Op.enter f).note = some .entry) {options : Option Handle} :
    wp (assuming (q.Served holds)) (Bridge.run n options q.descriptors q.preallocated (Bridge.outputs q))
      (fun res _ => res.1 = none ∧ (q.into = false → ∃ outs : List Reply,
        res.2 = some (outs.map Reply.filled) ∧
        ∀ o ∈ outs, o.shape.length < 2 ^ (Platform.bits - 1) ∧ ∃ y : Value, y.Proper ∧ o.Tells y)) () := by
  have hl : ∀ ev ∈ ([⟨.enter f, ()⟩] : Trace), q.Served holds ev :=
    List.forall_mem_singleton.2 ⟨rfl, [], trivial⟩
  have hentered : Entered [⟨.enter f, ()⟩] := by
    refine ⟨?_, ?_, ?_⟩ <;> simp [hf]
  have hlog := Request.wp_calm (Bridge.run_log hn hq hentered options) hl
  refine wp_mono ?_ (wp_and Bridge.run_calm hlog)
  rintro res _ ⟨hst, l', hl', hres⟩
  refine ⟨hst, fun hinto => ?_⟩
  obtain ⟨outs, hans, hout⟩ := hres hst
  refine ⟨outs, hout hinto, fun o ho => ⟨hans.rank o ho, ?_⟩⟩
  obtain ⟨y, -, hproper, htells⟩ := hans.tells hinto hl' o ho
  exact ⟨y, hproper, htells⟩

/-- **`run` from the native call on**, in a calm environment. -/
theorem runNative_calm {r : Option OcRuntime} {options : Option Handle} (hq : q.Ready) :
    wp (assuming (q.Served holds)) (q.s.runNative q.ctx r options q.into q.descriptors)
      (fun res _ => ∃ R, res = .ok R) () := by
  unfold runNative
  split
  · exact ⟨trivial, fun a => a.elim⟩
  dsimp only
  simp only [wp_bind]
  refine wp_calm_native fun n hn => ?_
  simp only [deref, wp_pure]
  by_cases hinto : q.into = true
  · rw [if_pos hinto]
    simp only [wp_bind]
    refine wp_calm_cgo ?_
    simp only [Bridge.ocRunInto, wp_bind, wp_pure]
    have hrun : wp (assuming (q.Served holds)) (Bridge.run n options q.descriptors q.preallocated
      (Bridge.outputs q)) _ () := bridge_calm hn hq (f := .ocRunInto n) rfl
    simp only [Request.preallocated, Bridge.outputs, hinto, if_true] at hrun
    refine wp_mono ?_ hrun
    rintro res _ ⟨hst, -⟩
    rw [hst]
    exact collect_calm fun h => by rw [hinto] at h; cases h
  · have hinto : q.into = false := by simpa using hinto
    rw [hinto, if_neg Bool.false_ne_true]
    simp only [wp_bind]
    refine wp_calm_cgo ?_
    simp only [Bridge.ocRun, wp_bind, wp_pure]
    have hrun : wp (assuming (q.Served holds)) (Bridge.run n options q.descriptors q.preallocated
      (Bridge.outputs q)) _ () := bridge_calm hn hq (f := .ocRun n) rfl
    simp only [Request.preallocated, Bridge.outputs, hinto, Bool.false_eq_true, if_false] at hrun
    refine wp_mono ?_ hrun
    rintro ⟨st, left⟩ _ ⟨hst, hout⟩
    obtain ⟨outs, hleft, htells⟩ := hout trivial
    obtain rfl : st = none := hst
    obtain rfl : left = some (outs.map Reply.filled) := hleft
    simp only [deref, wp_pure]
    refine wp_calm_native fun n' _ => ?_
    simp only [wp_pure, wp_deferring]
    have hcollect : wp (assuming (q.Served holds))
        (collect q.ctx r q.into none (outs.map Reply.filled)) _ () :=
      collect_calm fun _ => UpholdsCode.forEach_mem fun d hd => by
        obtain ⟨o, ho, rfl⟩ := List.mem_map.1 hd
        obtain ⟨hrank, y, hproper, hy⟩ := htells o ho
        exact collectOutput_calm hy hproper hrank
    rw [hinto] at hcollect
    exact wp_mono (fun res _ h => wp_whatever _ fun _ => h) hcollect

theorem watchContext_calm {r : Option OcRuntime} : wp (assuming (q.Served holds))
    (watchContext q.ctx r) (fun res _ => ∃ o fin, res = .ok (o, fin)) () := by
  simp only [watchContext, wp_bind]
  cases r with
  | none => exact ⟨trivial, fun a => a.elim⟩
  | some r =>
    simp only [deref, wp_pure]
    refine wp_calm_cgo ?_
    refine wp_assuming.2 fun a ha => ?_
    cases a with
    | error st => cases ha.1
    | ok o =>
      simp only [nativeError, wp_bind, wp_pure]
      exact wp_assuming.2 fun id _ => ⟨o, _, rfl⟩

/-- `run` once it has its descriptors. -/
theorem runPinned_calm (hq : q.Ready) : wp (assuming (q.Served holds))
    (q.s.runPinned q.ctx q.inputs q.outputs q.into (List.replicate q.ports OcTensor.zero))
    (fun res _ => ∃ R, res = .ok R) () := by
  simp only [runPinned, wp_bind, wp_code]
  have hfill : wp (assuming (q.Served holds)) (Code.forEach fillDescriptor q.tensors
      (List.replicate q.ports OcTensor.zero, 0)) _ () :=
    Request.wp_calm (fillDescriptors_log (q := q) (l := [])) (by simp)
  have hsized : Unfailing q holds (Code.forEach fillDescriptor q.tensors) :=
    UpholdsCode.forEach_mem fun t ht => by
      unfold fillDescriptor
      refine .bind .get fun st => ?_
      dsimp only
      rw [if_neg (hq.typed t ht)]
      refine .bind (show Unfailing q holds _ from ?_) fun _ =>
        .bind (show Unfailing q holds _ from ?_) fun _ => .bind (unfailing_lift _) fun _ => .modify _
      · split
        · exact .pure _
        · exact unfailing_lift _
      · split
        · exact .pure _
        · exact unfailing_lift _
  refine wp_mono ?_ (wp_and (hsized _ () trivial) hfill)
  rintro ⟨⟨ds, index⟩, err | _⟩ _ ⟨hok, l', -, -, hds⟩
  · exact hok.elim
  obtain rfl : ds = q.descriptors := by
    rw [show ds = _ from hds.1, List.drop_replicate]
    rfl
  simp only [wp_bind]
  refine wp_assuming.2 fun r _ => ?_
  split
  · simp only [wp_bind]
    refine wp_mono ?_ watchContext_calm
    rintro _ _ ⟨o, fin, rfl⟩
    simp only [wp_deferring]
    exact wp_mono (fun res _ h => wp_whatever _ fun _ => h) (runNative_calm hq)
  · exact runNative_calm hq

/-- `run` past the gate. -/
theorem runGated_calm (hq : q.Ready) : wp (assuming (q.Served holds))
    (q.s.runGated q.ctx q.inputs q.outputs q.into) (fun res _ => ∃ R, res = .ok R) () := by
  unfold runGated
  rw [if_neg (not_not.2 hq.inputs), if_neg (fun h => h.2 (hq.outputs h.1)), hq.apart]
  simp only [runBuffered, wp_bind]
  refine wp_assuming.2 fun b hb => ?_
  obtain ⟨l, hclean⟩ := hb.2
  rw [Buffer.Clean.slots hclean (q.s.inputs.length + q.s.outputs.length)]
  simp only [wp_deferring]
  refine wp_mono (fun res _ h => ?_) (runPinned_calm hq)
  exact wp_whatever _ fun _ => wp_whatever _ fun _ => h

/-- `run` under the read lock. -/
theorem runLocked_calm (hq : q.Ready) : wp (assuming (q.Served holds))
    (q.s.runLocked q.ctx q.inputs q.outputs q.into) (fun res _ => ∃ R, res = .ok R) () := by
  simp only [runLocked, wp_bind]
  refine wp_calm_native fun n _ => ?_
  dsimp only
  split
  · simp only [wp_bind]
    refine wp_assuming.2 fun sent hsent => ?_
    obtain rfl : sent = true := hsent.1
    simp only [if_true, wp_deferring, wp_bind]
    refine wp_assuming.2 fun e he => ?_
    obtain rfl := calm_ctxErr.1 he.1
    exact wp_mono (fun res _ h => wp_whatever _ fun _ => h) (runGated_calm hq)
  · exact runGated_calm hq

end Session

/-- **A run that nothing disturbs succeeds.** -/
theorem Request.calm_succeeds (hq : q.Ready) :
    wp (assuming (q.Served holds)) q.prog (fun res _ => ∃ R, res = .ok R) () := by
  simp only [Request.prog, Session.run, wp_bind]
  refine wp_assuming.2 fun e he => ?_
  obtain rfl := calm_ctxErr.1 he.1
  simp only [wp_bind, wp_deferring]
  refine wp_assuming.2 fun _ _ => ?_
  exact wp_mono (fun res _ h => wp_whatever _ fun _ => h) (Session.runLocked_calm hq)

end

section
variable [Platform] {σ : Global} {t : Goroutine} {q : Request} {holds : Handle → Option Value}

/-- Every answer of a run is one that its log's protocol says it may rely on. -/
theorem Reachable.knows (hr : system.Reachable σ) (ht : t ∈ σ.threads) (hc : t.call.request = some q) :
    ∀ ev ∈ t.trace, ∃ l, q.Knows ev.1 l ev.2 := by
  intro ev hev
  obtain ⟨tr, tr', htr⟩ := List.append_of_mem hev
  have hallows := logged_allows (Reachable.valid hr ht) hc
  rw [htr] at hallows
  exact ⟨_, (Spec.allows_append.1 hallows).2.1⟩

theorem Reachable.served (hr : system.Reachable σ) (ht : t ∈ σ.threads) (hc : t.call.request = some q)
    (hcalm : ∀ ev ∈ t.trace, calm holds ev) : ∀ ev ∈ t.trace, q.Served holds ev :=
  fun ev hev => ⟨hcalm ev hev, Reachable.knows hr ht hc ev hev⟩

/-- A run that nothing has disturbed has succeeded. -/
theorem Reachable.succeeded (hr : system.Reachable σ) (ht : t ∈ σ.threads)
    (hc : t.call.request = some q) (hq : q.Ready) (hcalm : ∀ ev ∈ t.trace, calm holds ev) {ret : Ret}
    (hret : t.rest = .ret ret) : ∃ R, ret = .ofRun q.into (.ok R) := by
  obtain ⟨p, hruns, -, hend⟩ := Call.request_inv hc (hr.runs t ht)
  obtain ⟨res, rfl, rfl⟩ := hend ret hret
  obtain ⟨R, rfl⟩ := wp_finished hruns (Request.calm_succeeds hq)
    (assuming_allows (Reachable.served hr ht hc hcalm))
  exact ⟨R, rfl⟩

end

end Onnxcraft
