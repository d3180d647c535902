import Onnxcraft.Protocol.BridgeLog

/-!
# The log of a run

`run_log` describes the log and the result of every run: native execution is entered once, with
what the request says, a successful run of `Run` has made its results from ORT's replies alone, and
the overlap error is returned exactly when the overlap test has found an output.
-/

namespace Onnxcraft

open Effect

/-! ## Results -/

/-- The error of an output that overlaps another tensor. -/
def overlapError (i : Nat) : GoError :=
  .text "onnxcraft: output %d overlaps another tensor" [.int i]

/-- An output's reply, the tensor made from it, and the bytes copied. -/
structure Copy where
  reply : Reply
  tensor : Tensor
  bytes : List UInt8

section
variable [Platform]

/-- The copy of an output. -/
structure Copy.Valid (c : Copy) : Prop where
  gives : c.reply.Gives c.tensor
  bytes : c.bytes.length = c.reply.bytes

/-- The events in which the outputs are copied. -/
def copyEvents (cs : List Copy) : Trace := cs.flatMap fun c => c.reply.copies c.tensor c.bytes

/-- Before native execution only contexts and run options are logged. -/
def Early (l : Trace) : Prop := ∀ ev ∈ l, ev.1.note = some .context ∨ ev.1.note = some .options

omit [Platform] in
theorem copyEvents_note {cs : List Copy} : ∀ ev ∈ copyEvents cs, ev.1.note = some .copy := by
  intro ev hev
  obtain ⟨c, -, hc⟩ := List.mem_flatMap.1 hev
  simp only [Reply.copies, List.mem_cons, List.not_mem_nil, or_false] at hc
  rcases hc with rfl | rfl | rfl <;> rfl

omit [Platform] in
theorem queries_note {outs : List Reply} : ∀ ev ∈ outs.flatMap Reply.queries,
    ev.1.note = some .query := by
  intro ev hev
  obtain ⟨o, -, ho⟩ := List.mem_flatMap.1 hev
  simp only [Reply.queries, List.mem_cons, List.not_mem_nil, or_false] at ho
  rcases ho with rfl | rfl | rfl <;> rfl

omit [Platform] in
theorem Early.noted {l : Trace} (h : Early l) {k : Note} (h1 : k ≠ .context) (h2 : k ≠ .options) :
    noted k l = [] := by
  refine List.filter_eq_nil_iff.2 fun ev hev => ?_
  rcases h ev hev with h | h <;> simp [h, Ne.symm h1, Ne.symm h2]

omit [Platform] in
theorem contexts_snoc {ev : Event Op Op.Resp} {l : Trace} (hev : ev.1.note = some .context)
    (hl : ∀ ev ∈ l, ev.1.note = some .context) : ∀ ev' ∈ l ++ [ev], ev'.1.note = some .context := by
  intro ev' hev'
  rcases List.mem_append.1 hev' with hev' | hev'
  · exact hl ev' hev'
  · rw [List.mem_singleton.1 hev']
    exact hev

omit [Platform] in
/-- The descriptors that a run takes from a clean buffer. -/
theorem Buffer.Clean.slots {b : Buffer} (h : b.Clean) (n : Nat) :
    (if b.slots.length < n then List.replicate n OcTensor.zero else b.slots).take n =
      List.replicate n OcTensor.zero := by
  split
  · rw [List.take_of_length_le (by simp)]
  · refine List.eq_replicate_iff.2 ⟨?_, fun t ht => h t (List.mem_of_mem_take ht)⟩
    rw [List.length_take]
    omega

namespace Request

/-- A successful run: native execution, a context that is not done after it, and a copy of every
output of `Run`. -/
structure Done (q : Request) (R : List Tensor) (l : Trace) : Prop where
  log : ∃ pre n cs l₁, Early pre ∧
    Bridge.Answered q n.runtime.memory
      (pre ++ [⟨.enter (if q.into then .ocRunInto n else .ocRun n), ()⟩]) (cs.map Copy.reply) l₁ ∧
    l = l₁ ++ ⟨.ctxErr q.ctx, none⟩ :: copyEvents cs ∧ R = cs.map Copy.tensor ∧ ∀ c ∈ cs, c.Valid

/-- The outcome of a run past its checks. -/
structure Inner (q : Request) (res : Except GoError (List Tensor)) (l : Trace) : Prop where
  done : ∀ R, res = .ok R → q.Done R l
  apart : ∀ i, res ≠ .error (overlapError i)

/-- The request has a tensor for each port it must have one for. -/
def Counted (q : Request) : Prop :=
  q.inputs.length = q.s.inputs.length ∧ (q.into = true → q.outputs.length = q.s.outputs.length)

/-- The outcome of a run: it fails with the overlap error exactly when the overlap test has found an
output and neither its session nor its context has stopped it before. -/
structure Outcome (q : Request) (res : Except GoError (List Tensor)) (l : Trace) : Prop where
  done : ∀ R, res = .ok R → q.Done R l
  overlap : ∀ i, res = .error (overlapError i) ↔ q.Counted ∧
    Session.firstOverlap q.inputs [] q.outputs = some i ∧ res ≠ .error .closed ∧
    ∀ e, res ≠ .error (.ctx e)

/-- A run that its session or its context has stopped. -/
theorem Outcome.stopped {q : Request} {l : Trace} {err : GoError}
    (h : err = .closed ∨ ∃ e, err = .ctx e) : q.Outcome (.error err) l := by
  refine ⟨fun _ h => (by cases h), fun i => ⟨fun hi => ?_, fun hi => ?_⟩⟩
  · rcases h with rfl | ⟨e, rfl⟩ <;> cases hi
  · obtain ⟨-, -, hclosed, hctx⟩ := hi
    rcases h with rfl | ⟨e, rfl⟩
    · exact absurd rfl hclosed
    · exact absurd rfl (hctx e)

/-- A run that has not been rejected for an overlap. -/
theorem Outcome.apart {q : Request} {l : Trace} {res : Except GoError (List Tensor)}
    (hdone : ∀ R, res = .ok R → q.Done R l) (hres : ∀ i, res ≠ .error (overlapError i))
    (h : ∀ i, q.Counted → Session.firstOverlap q.inputs [] q.outputs ≠ some i) : q.Outcome res l :=
  ⟨hdone, fun i => ⟨fun hi => absurd hi (hres i), fun hi => absurd hi.2.1 (h i hi.1)⟩⟩

theorem Inner.error {q : Request} {l : Trace} {err : GoError} (h : ∀ i, err ≠ overlapError i) :
    q.Inner (.error err) l :=
  ⟨fun _ h => (by cases h), fun i hi => h i (Except.error.inj hi)⟩

end Request

end

/-- An error of a fold is the error of one of its steps. -/
theorem foldlM_error {α β ε : Type} {f : β → α → Except ε β} {xs : List α} {b : β} {err : ε}
    (h : xs.foldlM f b = .error err) : ∃ b' x, f b' x = .error err := by
  induction xs generalizing b with
  | nil => cases h
  | cons x xs ih =>
    rw [List.foldlM_cons] at h
    cases hx : f b x with
    | error e =>
      rw [hx] at h
      exact ⟨b, x, hx.trans h⟩
    | ok b' =>
      rw [hx] at h
      exact ih h

section
variable [Platform]

theorem tensorSize_error {shape : List Int} {size : Int} {err : GoError}
    (h : tensorSize shape size = .error err) : ∀ i, err ≠ overlapError i := by
  have hne : ∀ (format : String) (args : List Arg) (i : Nat),
      format ≠ "onnxcraft: output %d overlaps another tensor" → GoError.text format args ≠ overlapError i :=
    fun format args i hf h => hf (GoError.text.inj h).1
  unfold tensorSize at h
  split at h
  next e he =>
    obtain rfl := Except.error.inj h
    obtain ⟨b, d, hstep⟩ := foldlM_error he
    split at hstep
    · obtain rfl := Except.error.inj hstep
      exact fun i => hne _ _ i (by decide)
    · cases hstep
  next =>
  split at h
  · obtain rfl := Except.error.inj h
    exact fun i => hne _ _ i (by decide)
  split at h
  · cases h
  split at h
  next e he =>
    obtain rfl := Except.error.inj h
    obtain ⟨b, d, hstep⟩ := foldlM_error he
    split at hstep
    · obtain rfl := Except.error.inj hstep
      exact fun i => hne _ _ i (by decide)
    · cases hstep
  next =>
  split at h
  · obtain rfl := Except.error.inj h
    exact fun i => hne _ _ i (by decide)
  · cases h

namespace Session

variable {q : Request} {l : Trace}

/-- One output: it is copied as ORT has replied, or rejected. -/
theorem collectOutput_log {o : Reply} (ho : o.shape.length < 2 ^ (Platform.bits - 1))
    (hinto : q.into = false) (hl : noted .entry l ≠ []) {result : List Tensor} :
    wpc q.logged (collectOutput o.filled)
      (fun r result' l' => match r with
        | .ok _ => ∃ c : Copy, c.reply = o ∧ c.Valid ∧ result' = result ++ [c.tensor] ∧
          l' = l ++ copyEvents [c]
        | .error err => ∀ i, err ≠ overlapError i) result l := by
  simp only [collectOutput, wpc_bind, wpc_lift]
  rw [show o.filled.rank = o.shape.length from rfl, toInt_eq ho]
  refine wp_note_goSlice fun _ _ => ?_
  rw [show o.filled.shape = o.shape from rfl, Int.toNat_natCast, List.take_length]
  split
  next err herr => exact tensorSize_error herr
  next length hlength =>
  obtain ⟨-, h0, hmax⟩ := tensorSize_bounds (DataType.size_nonneg _) hlength
  rw [wrapInt_eq h0 hmax]
  simp only [wpc_bind, wpc_get]
  split
  · exact fun i h => absurd (GoError.text.inj h).1 (by decide)
  next hok =>
  rw [toSize_eq h0 hmax] at hok
  have hbytes : length * (DataType.ofCode o.type.code).size = o.bytes := by
    have : ¬(_ ≠ _) := fun h => hok (.inl h)
    have : (length * (DataType.ofCode o.type.code).size).toNat = o.bytes := not_not.1 this
    have hnn : 0 ≤ length * (DataType.ofCode o.type.code).size := h0
    omega
  have hdata : o.bytes ≠ 0 → o.data ≠ 0 := by
    intro hb hd
    refine hok (.inr ⟨?_, hd⟩)
    show length * (DataType.ofCode o.type.code).size ≠ 0
    omega
  have hmax : (o.bytes : Int) ≤ maxInt := by
    rw [← hbytes]
    exact hmax
  rw [show o.filled.type = o.type.code from rfl, hbytes, words_eq hmax, if_neg (by omega)]
  simp only [wpc_bind, wpc_lift, wpc_pure, wpc_modify, Int.toNat_natCast]
  refine (wp_note (k := .copy) (by rfl)).2 ⟨⟨hinto, hl⟩, fun ptr _ => ?_⟩
  refine (wp_note (k := .copy) (by rfl)).2 ⟨⟨hinto, by simp [hl]⟩, fun bs hbs => ?_⟩
  refine (wp_note (k := .copy) (by rfl)).2 ⟨⟨hinto, by simp [hl]⟩, fun _ _ => ?_⟩
  refine ⟨⟨o, ⟨ptr, o.shape, length, DataType.ofCode o.type.code⟩, bs⟩, rfl,
    ⟨⟨ho, rfl, rfl, hlength, hbytes, hdata⟩, hbs⟩, rfl, ?_⟩
  simp only [copyEvents, Reply.copies, List.flatMap_cons, List.flatMap_nil, List.append_nil,
    List.append_assoc, List.cons_append, List.nil_append]
  rfl

/-- The outputs are copied in order. -/
theorem collectOutputs_log {outs : List Reply}
    (houts : ∀ o ∈ outs, o.shape.length < 2 ^ (Platform.bits - 1)) (hinto : q.into = false)
    (hl : noted .entry l ≠ []) :
    wpc q.logged (Code.forEach collectOutput (outs.map Reply.filled))
      (fun r result l' => match r with
        | .ok _ => ∃ cs : List Copy, cs.map Copy.reply = outs ∧ (∀ c ∈ cs, c.Valid) ∧
          result = cs.map Copy.tensor ∧ l' = l ++ copyEvents cs
        | .error err => ∀ i, err ≠ overlapError i) [] l := by
  refine wpc_forEach (fun done result l' => ∃ cs : List Copy,
    cs.map Copy.reply = outs.take done.length ∧ (∀ c ∈ cs, c.Valid) ∧
    result = cs.map Copy.tensor ∧ l' = l ++ copyEvents cs) ?_ ?_ ⟨[], rfl, by simp, rfl, by simp [copyEvents]⟩
  · rintro done d rest result l' hsplit ⟨cs, hcs, hvalid, rfl, rfl⟩
    obtain ⟨o, ho, rfl⟩ : ∃ o, outs[done.length]? = some o ∧ d = o.filled := by
      have : (outs.map Reply.filled)[done.length]? = some d := by rw [hsplit]; simp
      rw [List.getElem?_map, Option.map_eq_some_iff] at this
      obtain ⟨o, ho, hd⟩ := this
      exact ⟨o, ho, hd.symm⟩
    have hmem := List.mem_of_getElem? ho
    refine wpc_mono ?_ (collectOutput_log (houts o hmem) hinto (by simp [hl]))
    rintro (err | _) result' l'' h
    · exact h
    · obtain ⟨c, hc, hv, rfl, rfl⟩ := h
      refine ⟨cs ++ [c], ?_, ?_, by simp, by simp [copyEvents]⟩
      · obtain ⟨hlt, rfl⟩ := List.getElem?_eq_some_iff.1 ho
        rw [List.length_append, List.length_singleton, ← List.take_concat_get' outs _ hlt, List.map_append,
          hcs, List.map_singleton, hc]
      · intro c' hc'
        rcases List.mem_append.1 hc' with hc' | hc'
        · exact hvalid c' hc'
        · rw [List.mem_singleton.1 hc']
          exact hv
  · rintro result l' ⟨cs, hcs, hvalid, rfl, rfl⟩
    rw [List.length_map, List.take_length] at hcs
    exact ⟨cs, hcs, hvalid, rfl, rfl⟩

/-- Reading an error is not logged. -/
theorem nativeError_log {α : Type} {r : Option OcRuntime} {x : Fallible α} :
    wp q.logged (nativeError r x) (fun res l' => l' = l ∧ ∀ a, res = .ok a → x = .ok a) l := by
  cases x with
  | ok a => exact ⟨rfl, fun a h => by rw [Except.ok.inj h]⟩
  | error st =>
    simp only [nativeError, wp_bind]
    refine wp_note_deref fun r _ => ?_
    refine wp_tidy (cgo_uses (by trivial) (by trivial) (.perform (by trivial))) fun _ => ?_
    refine wp_tidy (cgo_uses (by trivial) (by trivial) (.perform (by trivial))) fun _ => ?_
    refine wp_tidy (cgo_uses (by trivial) (by trivial) (.perform (by trivial))) fun _ => ?_
    exact ⟨rfl, fun a h => (by cases h)⟩

/-- `ctx.Err()`: once it has been seen to be done it stays so. -/
theorem wp_note_ctxErr {c : Ctx} {Q : Option CtxError → Trace → Prop} :
    wp q.logged (ctxErr c) Q l ↔
      ∀ e, (l.any cancels → e.isSome) → Q e (l ++ [⟨.ctxErr c, e⟩]) :=
  (wp_note (k := .context) (by rfl)).trans (by simp [Request.May, Request.Knows])

/-- `run` after the native call. -/
theorem collect_log {pre l : Trace} {n : OcSession} (r : Option OcRuntime)
    (status : Option OrtStatus) (descs : List OcTensor) (hpre : Early pre)
    (hans : status = none → ∃ outs, Bridge.Answered q n.runtime.memory
      (pre ++ [⟨.enter (if q.into then .ocRunInto n else .ocRun n), ()⟩]) outs l ∧
      (q.into = false → descs = outs.map Reply.filled)) :
    wp q.logged (collect q.ctx r q.into status descs) q.Inner l := by
  simp only [collect, wp_bind]
  refine wp_mono ?_ nativeError_log
  rintro err l' ⟨hl', hok⟩
  obtain rfl : l = l' := hl'.symm
  refine wp_note_ctxErr.2 fun e _ => ?_
  cases e with
  | some e =>
    simp only [wp_bind]
    refine wp_note_ctxErr.2 fun e' he' => ?_
    cases e' with
    | none => exact absurd (he' (by simp [cancels])) (by simp)
    | some e' => exact .error fun i h => (by cases h)
  | none =>
    cases err with
    | error err => exact .error fun i h => (by cases h)
    | ok _ =>
      have hst : status = none := by
        cases status with
        | none => rfl
        | some st => cases hok () rfl
      obtain ⟨outs, hanswered, hdescs⟩ := hans hst
      dsimp only
      split
      next hinto =>
        obtain ⟨reply, l₁, hst, hcalled, hlog, hnil, -⟩ := hanswered.log
        obtain rfl := hnil hinto
        refine ⟨fun R hR => ⟨pre, n, [], _, hpre, hanswered, ?_, ?_, by simp⟩, fun i h => (by cases h)⟩
        · simp [copyEvents]
        · exact (Except.ok.inj hR).symm
      next hinto =>
        have hinto : q.into = false := by simpa using hinto
        rw [hdescs hinto]
        simp only [wp_bind, wp_code]
        have hl : noted .entry l ≠ [] := by
          obtain ⟨reply, l₁, -, ⟨hs, session, options, _, _, _, _, -, rfl⟩, rfl, -⟩ := hanswered.log
          rw [if_neg (by simp [hinto])]
          simp [Op.note]
        refine wpc_mono ?_ (collectOutputs_log hanswered.rank hinto (by simp [hl]))
        rintro (err | _) result l' h
        · exact .error h
        · obtain ⟨cs, rfl, hvalid, rfl, rfl⟩ := h
          refine ⟨fun R hR => ⟨pre, n, cs, l, hpre, hanswered, by simp, ?_, hvalid⟩,
            fun i h => (by cases h)⟩
          exact (Except.ok.inj hR).symm

theorem wp_note_getNative {s : Nat} {Q : Option OcSession → Trace → Prop} :
    wp q.logged (sess s .getNative) Q l ↔
      ∀ a, (∀ n, a = some n → n.Matches q.s.inputs q.s.outputs) → Q a l :=
  wp_silent (by rfl)

/-- A C function that is not logged itself. -/
theorem wp_note_cgo {α : Type} {f : CFunc} {body : Act α} (hf : (Op.enter f).note = none)
    {Q : α → Trace → Prop} (h : wp q.logged body Q l) : wp q.logged (cgo f body) Q l := by
  simp only [cgo, wp_bind]
  refine (wp_silent hf).2 fun _ _ => wp_mono (fun a l' hQ => ?_) h
  exact (wp_silent (by rfl)).2 fun _ _ => hQ

/-- **`run` from the native call on**: native execution is entered with the descriptors of the
request. -/
theorem runNative_log {r : Option OcRuntime} {options : Option Handle} (hq : q.Ready)
    (hl : Early l) :
    wp q.logged (q.s.runNative q.ctx r options q.into q.descriptors) q.Inner l := by
  have hentry : noted .entry l = [] := hl.noted (by decide) (by decide)
  unfold runNative
  split
  · exact wp_note_fault
  simp only [wp_bind]
  refine wp_note_getNative.2 fun a hn => wp_note_deref fun n hsome => ?_
  have hn := hn n hsome
  have hentered : ∀ f, (Op.enter f).note = some .entry → Entered (l ++ [⟨.enter f, ()⟩]) := by
    intro f hf
    refine ⟨?_, ?_, ?_⟩
    · simp [hf]
    · simp [hf, hl.noted (k := .create) (by decide) (by decide)]
    · simp [hf, hl.noted (k := .run) (by decide) (by decide)]
  by_cases hinto : q.into = true
  · rw [if_pos hinto]
    simp only [wp_bind, cgo]
    refine (wp_note (e := .enter (.ocRunInto n)) (by rfl)).2 ⟨⟨hinto, hq, hentry⟩, fun _ _ => ?_⟩
    simp only [Bridge.ocRunInto, wp_bind]
    have hrun := Bridge.run_log hn hq (hentered (.ocRunInto n) rfl) options
    simp only [Request.preallocated, Bridge.outputs, hinto, if_true] at hrun
    refine wp_mono (fun res l' hres => ?_) hrun
    refine (wp_silent (e := .leave (.ocRunInto n)) (by rfl)).2 fun _ _ => ?_
    have hcollect := collect_log (q := q) (n := n) (l := l') r res.1 [] hl
      fun hst => by
        obtain ⟨outs, hans, -⟩ := hres hst
        rw [if_pos hinto]
        exact ⟨outs, hans, fun h => by simp [hinto] at h⟩
    exact hcollect
  · have hinto : q.into = false := by simpa using hinto
    rw [hinto, if_neg Bool.false_ne_true]
    simp only [wp_bind, cgo]
    refine (wp_note (e := .enter (.ocRun n)) (by rfl)).2 ⟨⟨hinto, hq, hentry⟩, fun _ _ => ?_⟩
    simp only [Bridge.ocRun, wp_bind]
    have hrun := Bridge.run_log hn hq (hentered (.ocRun n) rfl) options
    simp only [Request.preallocated, Bridge.outputs, hinto, Bool.false_eq_true, if_false] at hrun
    refine wp_mono (fun res l' hres => ?_) hrun
    refine wp_note_deref fun descs hdescs => ?_
    refine (wp_silent (e := .leave (.ocRun n)) (by rfl)).2 fun _ _ => ?_
    refine wp_note_getNative.2 fun a _ => wp_note_deref fun n' _ => ?_
    simp only [wp_deferring]
    have hcollect := collect_log (q := q) (n := n) (l := l') r res.1 descs hl
      fun hst => by
        obtain ⟨outs, hans, hout⟩ := hres hst
        rw [if_neg (by simp [hinto])]
        refine ⟨outs, hans, fun _ => ?_⟩
        have := hout trivial
        rw [hdescs] at this
        exact Option.some.inj this
    rw [hinto] at hcollect
    refine wp_mono (fun res l' hinner => ?_) hcollect
    exact wp_tidy (cgo_uses (by trivial) (by trivial)
      ((Bridge.ocOutputsFree_uses _ _).bind fun _ => .pure _)) fun _ => hinner

/-- Pinning is not logged. -/
theorem wpc_note_pin {σ : Type} {c : Prop} [Decidable c] {p : Act Unit}
    (hp : (∃ t, p = mem (.pinShape t)) ∨ ∃ a, p = mem (.pin a)) {v : σ}
    {Q : Except GoError Unit → σ → Trace → Prop} (hQ : Q (.ok ()) v l) :
    wpc q.logged (if c then pure () else .lift p) Q v l := by
  split
  · exact hQ
  · rw [wpc_lift]
    rcases hp with ⟨t, rfl⟩ | ⟨a, rfl⟩ <;> exact (wp_silent (by rfl)).2 fun _ _ => hQ

/-- The loop that fills the descriptors: one for each tensor in order, all of known types. -/
theorem fillDescriptors_log {descs : List OcTensor} :
    wpc q.logged (Code.forEach fillDescriptor q.tensors)
      (fun r st l' => l' = l ∧ match r with
        | .ok _ => st.1 = q.tensors.map descriptor ++ descs.drop q.tensors.length ∧
          ∀ t ∈ q.tensors, t.dtype.size ≠ 0
        | .error err => ∀ i, err ≠ overlapError i) (descs, 0) l := by
  refine wpc_forEach (fun done st l' => l' = l ∧ st.2 = done.length ∧
    st.1 = done.map descriptor ++ descs.drop done.length ∧ ∀ t ∈ done, t.dtype.size ≠ 0) ?_ ?_ ?_
  · rintro done t rest ⟨ds, index⟩ l' hsplit ⟨rfl, hindex, hds, htyped⟩
    simp only at hindex hds
    simp only [fillDescriptor, wpc_bind, wpc_get]
    split
    · exact ⟨rfl, fun i h => absurd (GoError.text.inj h).1 (by decide)⟩
    next hsize =>
    simp only [wpc_bind, wpc_lift, wpc_modify]
    refine wpc_note_pin (.inl ⟨_, rfl⟩) (wpc_note_pin (.inr ⟨_, rfl⟩) (wp_note_wr fun hlt => ?_))
    refine ⟨rfl, by simp [hindex], ?_, ?_⟩
    · subst hds
      have hlt : done.length < descs.length := by
        simp only [List.length_append, List.length_map, List.length_drop] at hlt
        omega
      simp only [hindex, List.map_append, List.map_singleton, List.length_append, List.length_singleton]
      rw [List.set_append_right done.length (descriptor t) (by simp), List.length_map, Nat.sub_self,
        List.drop_eq_getElem_cons hlt, List.set_cons_zero, List.append_assoc]
      rfl
    · intro t' ht'
      rcases List.mem_append.1 ht' with ht' | ht'
      · exact htyped t' ht'
      · rw [List.mem_singleton.1 ht']
        exact hsize
  · rintro st l' ⟨rfl, -, hds, htyped⟩
    exact ⟨rfl, hds, htyped⟩
  · exact ⟨rfl, rfl, rfl, by simp⟩

/-- `watchContext`: the run options are made once, before native execution. -/
theorem watchContext_log {r : Option OcRuntime} (hc : q.ctx.cancelable)
    (hl : ∀ ev ∈ l, ev.1.note = some .context) :
    wp q.logged (watchContext q.ctx r)
      (fun res l' => Early l' ∧ ∀ o fin, res = .ok (o, fin) → Uses Op.Finishes fin) l := by
  have hearly : Early l := fun ev hev => .inl (hl ev hev)
  have hnone : ∀ k, k ≠ .context → noted k l = [] := fun k hk =>
    List.filter_eq_nil_iff.2 fun ev hev => by simp [hl ev hev, Ne.symm hk]
  simp only [watchContext, wp_bind]
  refine wp_note_deref fun native _ => wp_note_cgo (by rfl) ?_
  refine (wp_note_nat (by rfl)).2 ⟨⟨hc, hnone _ (by decide), hnone _ (by decide)⟩, fun a _ => ?_⟩
  have hmade : Early (l ++ [⟨.nat .createRunOptions, a⟩]) := by
    intro ev hev
    rcases List.mem_append.1 hev with hev | hev
    · exact hearly ev hev
    · rw [List.mem_singleton.1 hev]
      exact .inr rfl
  refine wp_mono ?_ nativeError_log
  rintro res l' ⟨rfl, -⟩
  cases res with
  | error err => exact ⟨hmade, fun o fin h => (by cases h)⟩
  | ok options =>
    simp only [wp_bind]
    refine (wp_silent (by rfl)).2 fun id _ => ⟨hmade, fun o fin h => ?_⟩
    obtain ⟨rfl, rfl⟩ := Prod.mk.inj (Except.ok.inj h)
    exact finish_uses _ _ _

/-- `run` once the descriptor buffer is to be put back. -/
theorem runPinned_log (hcounted : q.Counted)
    (hapart : firstOverlap q.inputs [] q.outputs = none)
    (hl : ∀ ev ∈ l, ev.1.note = some .context) :
    wp q.logged (q.s.runPinned q.ctx q.inputs q.outputs q.into
      (List.replicate q.ports OcTensor.zero)) q.Inner l := by
  have hearly : Early l := fun ev hev => .inl (hl ev hev)
  simp only [runPinned, wp_bind, wp_code]
  refine wpc_mono ?_ fillDescriptors_log
  rintro (err | _) st l' ⟨rfl, h⟩
  · exact .error h
  obtain ⟨hds, htyped⟩ := h
  have hq : q.Ready := ⟨hcounted.1, hcounted.2, hapart, htyped⟩
  have hds : st.1 = q.descriptors := by
    rw [hds, List.drop_replicate]
    rfl
  obtain ⟨ds, index⟩ := st
  obtain rfl : ds = q.descriptors := hds
  simp only [wp_bind]
  refine (wp_silent (by rfl)).2 fun r _ => ?_
  split
  next hc =>
    simp only [wp_bind]
    refine wp_mono ?_ (watchContext_log hc hl)
    rintro (err | ⟨o, fin⟩) l' ⟨hmade, hfin⟩
    · exact .error fun i h => (by cases h)
    · simp only [wp_deferring]
      refine wp_mono (fun res l'' hinner => ?_) (runNative_log hq hmade)
      exact wp_unrecorded ((hfin o fin rfl).mono fun _ h => h.silent) fun _ => hinner
  next => exact runNative_log hq hearly

/-- `run` past the gate. -/
theorem runGated_log (hl : ∀ ev ∈ l, ev.1.note = some .context) :
    wp q.logged (q.s.runGated q.ctx q.inputs q.outputs q.into) q.Outcome l := by
  unfold runGated
  split
  next hin =>
    exact .apart (fun _ h => (by cases h)) (fun i h => absurd (GoError.text.inj (Except.error.inj h)).1 (by decide))
      fun i hc _ => hin hc.1
  next hin =>
  split
  next hout =>
    exact .apart (fun _ h => (by cases h)) (fun i h => absurd (GoError.text.inj (Except.error.inj h)).1 (by decide))
      fun i hc _ => hout.2 (hc.2 hout.1)
  next hout =>
  have hcounted : q.Counted := by
    refine ⟨not_not.1 hin, fun h => ?_⟩
    by_contra hne
    exact hout ⟨h, hne⟩
  split
  next i hi =>
    refine ⟨fun _ h => (by cases h), fun j => ?_⟩
    constructor
    · intro h
      have hij := (GoError.text.inj (Except.error.inj h)).2
      have : i = j := by simpa using hij
      subst this
      exact ⟨hcounted, hi, fun h => (by cases h), fun e h => (by cases h)⟩
    · rintro ⟨-, hj, -, -⟩
      rw [hi, Option.some.injEq] at hj
      rw [hj]
      rfl
  next hnone =>
    simp only [runBuffered, wp_bind]
    refine (wp_silent (by rfl)).2 fun b hb => ?_
    rw [hb.slots (q.s.inputs.length + q.s.outputs.length)]
    simp only [wp_deferring]
    refine wp_mono (fun res l' hinner => ?_) (runPinned_log hcounted hnone hl)
    refine (wp_silent (by rfl)).2 fun _ _ => (wp_silent (by rfl)).2 fun _ _ => ?_
    exact .apart hinner.done hinner.apart fun i _ h => by
      rw [hnone] at h
      cases h

/-- `run` under the read lock. -/
theorem runLocked_log (hl : ∀ ev ∈ l, ev.1.note = some .context) :
    wp q.logged (q.s.runLocked q.ctx q.inputs q.outputs q.into) q.Outcome l := by
  simp only [runLocked, wp_bind]
  refine wp_note_getNative.2 fun a _ => ?_
  cases a with
  | none => exact .stopped (.inl rfl)
  | some n =>
  dsimp only
  split
  · simp only [wp_bind]
    refine (wp_note (k := .context) (by rfl)).2 ⟨trivial, fun sent _ => ?_⟩
    cases sent with
    | true =>
      simp only [if_true, wp_deferring, wp_bind]
      refine wp_note_ctxErr.2 fun e _ => ?_
      cases e with
      | some e => exact (wp_silent (by rfl)).2 fun _ _ => .stopped (.inr ⟨e, rfl⟩)
      | none =>
        refine wp_mono (fun res l' h => ?_) (runGated_log (contexts_snoc rfl (contexts_snoc rfl hl)))
        exact (wp_silent (by rfl)).2 fun _ _ => h
    | false =>
      simp only [Bool.false_eq_true, if_false, wp_bind]
      refine wp_note_ctxErr.2 fun e he => ?_
      cases e with
      | some e => exact .stopped (.inr ⟨e, rfl⟩)
      | none => exact absurd (he (by simp [cancels])) (by simp)
  · exact runGated_log hl

end Session

/-- **The log of a run.** -/
theorem run_log (q : Request) : wp q.logged q.prog q.Outcome [] := by
  simp only [Request.prog, Session.run, wp_bind]
  refine Session.wp_note_ctxErr.2 fun e _ => ?_
  cases e with
  | some e => exact .stopped (.inr ⟨e, rfl⟩)
  | none =>
    simp only [wp_bind, wp_deferring]
    refine (wp_silent (by rfl)).2 fun _ _ => ?_
    refine wp_mono (fun res l' h => ?_) (Session.runLocked_log (by simp [Op.note]))
    exact (wp_silent (by rfl)).2 fun _ _ => h

end

end Onnxcraft
