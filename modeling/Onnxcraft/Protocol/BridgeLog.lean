import Onnxcraft.Protocol.Request

/-!
# The log of the bridge

`Bridge.run_log`: the C function `run` makes a value of every tensor in order, hands them to ORT
under the session's names and, for `Run`, asks ORT about every output in order.
-/

namespace Onnxcraft

open Effect

/-! ## The bridge -/

section
variable [Platform]

namespace Request

/-- The descriptors that a run hands to the bridge. -/
def descriptors (q : Request) : List OcTensor :=
  q.tensors.map Session.descriptor ++ List.replicate (q.ports - q.tensors.length) .zero

/-- The output descriptors of `RunInto`, as the bridge sees them. -/
def preallocated (q : Request) : Option (List OcTensor) :=
  if q.into then some (q.descriptors.drop q.s.inputs.length) else none

theorem Ready.tensors {q : Request} (h : q.Ready) :
    q.tensors.length = if q.into then q.ports else q.s.inputs.length := by
  have hin := h.inputs
  unfold Request.tensors Request.ports
  cases hinto : q.into with
  | false =>
    rw [q.nil hinto]
    simpa using hin
  | true =>
    have := h.outputs hinto
    simp only [List.length_append, if_true]
    omega

theorem descriptors_get {q : Request} {i : Nat} {t : Tensor} (h : q.tensors[i]? = some t) :
    q.descriptors[i]? = some (Session.descriptor t) := by
  have hi : i < q.tensors.length := (List.getElem?_eq_some_iff.1 h).1
  rw [descriptors, List.getElem?_append_left (by simpa using hi), List.getElem?_map, h]
  rfl

end Request

/-- Appending a value to the values made so far. -/
theorem createEvents_snoc {memory : Option Handle} {ts : List Tensor} {hs : List Handle} {t : Tensor}
    (ht : ts[hs.length]? = some t) (h : Handle) :
    createEvents memory ts (hs ++ [h]) = createEvents memory ts hs ++ [createEvent memory t h] := by
  induction hs generalizing ts with
  | nil =>
    cases ts with
    | nil => cases ht
    | cons t' ts =>
      obtain rfl : t' = t := by simpa using ht
      simp [createEvents]
  | cons h' hs ih =>
    cases ts with
    | nil => cases ht
    | cons t' ts =>
      have := ih (show ts[hs.length]? = some t by simpa using ht)
      simpa [createEvents] using this

theorem createEvents_note {memory : Option Handle} {ts : List Tensor} {hs : List Handle} :
    ∀ ev ∈ createEvents memory ts hs, ev.1.note = some .create := by
  intro ev hev
  obtain ⟨i, hi, rfl⟩ := List.mem_iff_getElem.1 hev
  simp [createEvents, createEvent, Op.note]

/-- The log before the C function `run`: native execution has been entered. -/
structure Entered (l : Trace) : Prop where
  entry : noted .entry l ≠ []
  create : noted .create l = []
  run : noted .run l = []

namespace Bridge

variable {q : Request} {l : Trace} {n : OcSession}

/-- The values array is empty, and has a slot for each port. -/
theorem runValues_log (c : Nat) :
    wp q.logged (runValues c) (fun r l' => l' = l ∧ (∀ base values, r = some (base, values) →
      ∃ len, values = List.replicate len none ∧ c ≤ len)) l := by
  unfold runValues
  split
  next hc =>
    refine ⟨rfl, fun base values h => ?_⟩
    obtain ⟨rfl, rfl⟩ := Prod.mk.inj (Option.some.inj h)
    exact ⟨16, rfl, hc⟩
  next =>
    simp only [wp_bind]
    refine (wp_silent_nat (by rfl)).2 fun p _ => ⟨rfl, fun base values h => ?_⟩
    cases p with
    | none => cases h
    | some p =>
      obtain ⟨rfl, rfl⟩ := Prod.mk.inj (Option.some.inj h)
      exact ⟨c, rfl, le_rfl⟩

/-- The variables of `run` once the tensors of the values `hs` have been handed over. -/
structure Creating (q : Request) (memory : Option Handle) (l : Trace) (outs : Option (List OcTensor))
    (len i : Nat) (v : RunVars) (l' : Trace) : Prop where
  log : ∃ hs, hs.length = min i q.tensors.length ∧ l' = l ++ createEvents memory q.tensors hs ∧
    v.values = hs.map some ++ List.replicate (len - hs.length) none
  outs : v.outputs = outs

/-- One iteration of the first loop: the next tensor, if there is one. -/
theorem runCreate_log (hn : n.Matches q.s.inputs q.s.outputs) (hq : q.Ready) (hl : Entered l)
    {outs : Option (List OcTensor)} {len i : Nat} {v : RunVars} {l' : Trace} (hi : i < q.ports)
    (hlen : q.ports ≤ len) (h : Creating q n.runtime.memory l outs len i v l') :
    wpc q.logged (runCreate n q.descriptors q.preallocated i)
      (fun r v' l'' => r.isOk → Creating q n.runtime.memory l outs len (i + 1) v' l'') v l' := by
  obtain ⟨hs, hslen, rfl, hvalues⟩ := h.log
  have hT := hq.tensors
  unfold runCreate
  rw [hn.inputs]
  split
  next hbreak =>
    -- `Run` has no more tensors
    have hinto : q.into = false := by
      cases hinto : q.into with
      | false => rfl
      | true => simp [Request.preallocated, hinto] at hbreak
    rw [hinto] at hT
    simp only [Bool.false_eq_true, if_false] at hT
    refine fun _ => ⟨⟨hs, by omega, rfl, hvalues⟩, h.outs⟩
  next hgo =>
    have hlt : i < q.tensors.length := by
      rw [hT]
      cases hinto : q.into with
      | false =>
        simp only [Request.preallocated, hinto, Bool.false_eq_true, if_false, Option.isNone_none,
          and_true] at hgo ⊢
        omega
      | true => simpa using hi
    have hslen : hs.length = i := by omega
    obtain ⟨t, ht⟩ : ∃ t, q.tensors[i]? = some t := ⟨_, List.getElem?_eq_getElem hlt⟩
    have hd := Request.descriptors_get ht
    simp only [wpc_bind, wpc_lift]
    have hread : wp q.logged (if i < q.s.inputs.length then rd q.descriptors i
        else do rd (← deref q.preallocated) (i - q.s.inputs.length))
        (fun d l'' => d = Session.descriptor t ∧
          l'' = l ++ createEvents n.runtime.memory q.tensors hs)
        (l ++ createEvents n.runtime.memory q.tensors hs) := by
      split
      next =>
        refine wp_note_rd fun d hd' => ⟨?_, rfl⟩
        rw [hd] at hd'
        exact (Option.some.inj hd').symm
      next hge =>
        simp only [wp_bind]
        refine wp_note_deref fun p hp => wp_note_rd fun d hd' => ⟨?_, rfl⟩
        have hp : p = q.descriptors.drop q.s.inputs.length := by
          unfold Request.preallocated at hp
          split at hp
          · exact (Option.some.inj hp).symm
          · cases hp
        rw [hp, List.getElem?_drop, Nat.add_sub_cancel' (by omega), hd] at hd'
        exact (Option.some.inj hd').symm
    refine wp_mono ?_ hread
    rintro _ _ ⟨rfl, rfl⟩
    simp only [wpc_check]
    refine (wp_note_nat (by rfl)).2 ⟨⟨?_, ?_, t, 0, ?_, rfl⟩, ?_⟩
    · simp [hl.entry]
    · simp [hl.run, noted_other createEvents_note]
    · simp only [noted_append, hl.create, List.nil_append, noted_self createEvents_note]
      have : (createEvents n.runtime.memory q.tensors hs).length = i := by
        simp only [createEvents, List.length_zipWith]
        omega
      rw [this]
      exact ht
    · intro a _
      cases a with
      | error st => exact fun h => (by cases h)
      | ok value =>
        simp only [wpc_get, wpc_modify]
        refine wp_note_wr fun _ _ => ⟨⟨hs ++ [value], by simp; omega, ?_, ?_⟩, h.outs⟩
        · rw [createEvents_snoc (by rw [hslen]; exact ht), List.append_assoc]
          rfl
        · have hsplit : List.replicate (len - hs.length) (none : Option Handle) =
              none :: List.replicate (len - (hs ++ [value]).length) none := by
            rw [← List.replicate_succ]
            congr 1
            simp
            omega
          simp only [hvalues, hsplit, List.map_append, List.map_cons, List.map_nil]
          rw [List.set_append_right i (some value) (by simp [hslen]), List.append_assoc]
          simp [hslen]

/-- The call of ORT's `Run` of a request. -/
structure Called (q : Request) (memory : Option Handle) (l : Trace) (reply : RunReply) (l' : Trace) :
    Prop where
  log : ∃ hs session options inputNames ins outputNames outs, hs.length = q.tensors.length ∧
    l' = l ++ createEvents memory q.tensors hs ++
      [⟨.nat (.run session options inputNames ins outputNames outs), reply⟩]

theorem names_log (hn : n.Matches q.s.inputs q.s.outputs) : ∃ names, n.names = some names ∧
    names.slots.length = q.ports ∧
    (names.slots.take n.inputs).map (·.map (·.text)) = q.s.inputs.map (some ·.name) ∧
    ((names.slots.drop n.inputs).take n.outputs).map (·.map (·.text)) =
      q.s.outputs.map (some ·.name) := by
  obtain ⟨ports, names, -, hnames, hinfo, hslots, hfilled⟩ := hn.ports
  have hall : names.slots.map (·.map (·.text)) = (q.s.inputs ++ q.s.outputs).map (some ·.name) := by
    rw [← hinfo, hslots, List.map_map, List.map_map]
    apply List.map_congr_left
    intro p hp
    obtain ⟨name, hname⟩ := Option.isSome_iff_exists.1 (hfilled p hp).name
    simp [OcPort.info, goString, hname]
  have hlen : names.slots.length = q.ports := by
    simpa [Request.ports] using congrArg List.length hall
  refine ⟨names, hnames, hlen, ?_, ?_⟩
  · rw [List.map_take, hall, hn.inputs, List.map_append, List.take_left' (by simp)]
  · rw [List.map_take, List.map_drop, hall, hn.inputs, List.map_append, List.drop_left' (by simp),
      List.take_of_length_le (by simp [hn.outputs])]

/-- **The call of ORT's `Run`**: it is handed the values of all tensors, under the names of the
session. -/
theorem runCall_log (hn : n.Matches q.s.inputs q.s.outputs) (hq : q.Ready) (hl : Entered l)
    {outs : Option (List OcTensor)} {len : Nat} {v : RunVars} {l' : Trace} (options : Option Handle)
    (hlen : q.ports ≤ len) (h : Creating q n.runtime.memory l outs len q.ports v l') :
    wpc q.logged (runCall n options)
      (fun r v' l'' => r.isOk → ∃ reply, reply.status = none ∧
        Called q n.runtime.memory l reply l'' ∧ v'.outputs = outs ∧
        (q.into = false → ∃ vs : List Handle, reply.filled = vs.map some ∧
          vs.length = q.s.outputs.length ∧
          ∀ j < vs.length, v'.values[q.s.inputs.length + j]? = some vs[j]?)) v l' := by
  obtain ⟨hs, hslen, rfl, hvalues⟩ := h.log
  obtain ⟨names, hnames, hnlen, hin, hout⟩ := names_log hn
  have hT := hq.tensors
  have hle : q.s.inputs.length ≤ q.tensors.length ∧ q.tensors.length ≤ q.ports := by
    rw [hT]
    unfold Request.ports
    split <;> omega
  have hslen : hs.length = q.tensors.length := by omega
  simp only [runCall, wpc_bind, wpc_get, wpc_lift, wpc_modify]
  refine wp_note_deref fun names' hnames' => ?_
  obtain rfl : names' = names := by
    rw [hnames] at hnames'
    exact (Option.some.inj hnames').symm
  refine wp_note_slice fun _ => wp_note_slice fun _ => wp_note_slice fun _ => wp_note_slice fun _ => ?_
  rw [hn.inputs] at hin hout
  -- what `Run` is handed
  have hins : (v.values.drop 0).take q.s.inputs.length = (hs.take q.s.inputs.length).map some := by
    rw [List.drop_zero, hvalues, List.take_append_of_le_length (by simp; omega), List.map_take]
  have houts : (v.values.drop q.s.inputs.length).take n.outputs =
      if q.into then (hs.drop q.s.inputs.length).map some
      else List.replicate q.s.outputs.length none := by
    rw [hvalues, hn.outputs, List.drop_append_of_le_length (by simp; omega)]
    cases hinto : q.into with
    | false =>
      simp only [hinto, Bool.false_eq_true, if_false] at hT ⊢
      rw [List.drop_of_length_le (by simp; omega), List.nil_append, List.take_replicate]
      congr 1
      unfold Request.ports at hlen
      omega
    | true =>
      simp only [hinto, if_true] at hT ⊢
      unfold Request.ports at hT
      rw [List.take_append_of_le_length (by simp; omega), List.map_drop,
        List.take_of_length_le (by simp; omega)]
  rw [hn.inputs] at *
  refine (wp_note_nat (by rfl)).2 ⟨⟨?_, ?_, ⟨n.runtime.memory, hs, ?_, hslen, hins, houts⟩,
    by simpa using hin, hout⟩, fun reply hreply => ?_⟩
  · simp [hl.entry]
  · simp [hl.run, noted_other createEvents_note]
  · simp [hl.create, noted_self createEvents_note]
  cases hst : reply.status with
  | some st => exact fun h => (by cases h)
  | none =>
    refine fun _ => ⟨reply, hst, ⟨hs, _, _, _, _, _, _, hslen, rfl⟩, h.outs, fun hinto => ?_⟩
    obtain ⟨hfilled, hnull⟩ := hreply
    simp only [hinto, Bool.false_eq_true, if_false] at houts
    rw [houts] at hfilled hnull ⊢
    rw [List.length_replicate] at hfilled
    -- all slots were NULL, so `Run` has filled all of them
    obtain ⟨vs, hvs⟩ : ∃ vs : List Handle, reply.filled = vs.map some := by
      refine ⟨reply.filled.filterMap id, ?_⟩
      rw [List.map_filterMap_some_eq_filter_map_isSome, List.map_id, eq_comm, List.filter_eq_self]
      intro x hx
      obtain ⟨j, hj, rfl⟩ := List.mem_iff_getElem.1 hx
      refine (hnull (none, reply.filled[j]) (List.mem_iff_getElem.2 ⟨j, ?_, ?_⟩)).2 hst rfl
      · simp
        omega
      · simp
    have hvlen : vs.length = q.s.outputs.length := by
      rw [← hfilled, hvs, List.length_map]
    refine ⟨vs, hvs, hvlen, fun j hj => ?_⟩
    have hfill : fill (List.replicate q.s.outputs.length none) reply.filled = vs.map some := by
      rw [hvs, fill]
      refine List.ext_getElem (by simp [hvlen]) fun i h1 h2 => ?_
      simp
    have hmlen : (v.values.take q.s.inputs.length).length = q.s.inputs.length := by
      rw [List.length_take, hvalues]
      simp
      omega
    rw [hfill, List.append_assoc, List.getElem?_append_right (by omega), hmlen,
      Nat.add_sub_cancel_left, List.getElem?_append_left (by simpa using hj)]
    simp [hj]

/-- The variables of `run` once ORT has replied about the outputs before `i`. -/
structure Replying (q : Request) (vs : List Handle) (l : Trace) (i : Nat) (v : RunVars) (l' : Trace) :
    Prop where
  log : ∃ outs : List Reply, outs.length = i ∧ outs.map (·.value) = vs.take i ∧
    (∀ o ∈ outs, o.shape.length < 2 ^ (Platform.bits - 1)) ∧ l' = l ++ outs.flatMap Reply.queries ∧
    ∃ descs, v.outputs = some descs ∧ descs.length = vs.length ∧
      descs.take i = outs.map Reply.filled
  values : ∀ j, i ≤ j → j < vs.length → v.values[q.s.inputs.length + j]? = some vs[j]?

/-- One iteration of the last loop: ORT replies about one more output. -/
theorem runOutput_log (hn : n.Matches q.s.inputs q.s.outputs) {vs : List Handle} {i : Nat}
    {v : RunVars} {l' : Trace} (hi : i < vs.length) (h : Replying q vs l i v l') :
    wpc q.logged (runOutput n i) (fun r v' l'' => r.isOk → Replying q vs l (i + 1) v' l'') v l' := by
  obtain ⟨outs, holen, hovs, hrank, rfl, descs, hdescs, hdlen, htake⟩ := h.log
  have hvi : vs[i]? = some vs[i] := List.getElem?_eq_getElem hi
  simp only [runOutput, wpc_bind, wpc_get, wpc_lift, wpc_modify, wpc_check]
  refine wp_note_deref fun descs' hd => ?_
  obtain rfl : descs' = descs := by
    rw [hdescs] at hd
    exact (Option.some.inj hd).symm
  refine wp_note_rd fun t ht => wp_note_rd fun value hvalue => ?_
  obtain rfl : value = some vs[i] := by
    rw [hn.inputs, h.values i le_rfl hi, hvi] at hvalue
    exact (Option.some.inj hvalue).symm
  refine (wp_silent_nat (by rfl)).2 fun a _ => ?_
  cases a with
  | error st => exact fun h => (by cases h)
  | ok memory =>
  refine (wp_silent_nat (by rfl)).2 fun device _ => ?_
  split
  · simp only [wpc_bind, wpc_lift]
    exact (wp_silent_nat (by rfl)).2 fun st _ => fun h => (by cases h)
  simp only [wpc_bind, wpc_check, wpc_modify]
  refine (wp_note_nat (by rfl)).2 ⟨trivial, fun a ha => ?_⟩
  cases a with
  | error st => exact fun h => (by cases h)
  | ok reply =>
  refine (wp_note_nat (by rfl)).2 ⟨trivial, fun a _ => ?_⟩
  cases a with
  | error st => exact fun h => (by cases h)
  | ok bytes =>
  refine (wp_note_nat (by rfl)).2 ⟨trivial, fun a _ => ?_⟩
  cases a with
  | error st => exact fun h => (by cases h)
  | ok data =>
  intro _
  let o : Reply := ⟨vs[i], reply.1, reply.2, bytes, data⟩
  refine ⟨⟨outs ++ [o], by simp [holen], ?_, ?_, ?_, descs'.set i o.filled, ?_, by simpa using hdlen,
    ?_⟩, fun j hj hjlt => ?_⟩
  · rw [List.map_append, hovs, ← List.take_concat_get' vs i hi]
    rfl
  · intro o' ho'
    rcases List.mem_append.1 ho' with ho' | ho'
    · exact hrank o' ho'
    · rw [List.mem_singleton.1 ho']
      exact ha
  · simp [o, Reply.queries]
  · simp [RunVars.setOutput, hdescs, o, Reply.filled]
  · have hilt : i < (descs'.set i o.filled).length := by simpa [hdlen] using hi
    rw [← List.take_concat_get' _ i hilt, List.take_set_of_le (by omega), htake, List.getElem_set_self,
      List.map_append]
    rfl
  · have hne : q.s.inputs.length + i ≠ q.s.inputs.length + j := by omega
    rw [← h.values j (by omega) hjlt]
    simp [RunVars.setOutput, hn.inputs, List.getElem?_set_ne hne]

/-- The bridge has run the model: what it has handed to ORT and, for `Run`, what ORT has replied. -/
structure Answered (q : Request) (memory : Option Handle) (l : Trace) (outs : List Reply)
    (l' : Trace) : Prop where
  log : ∃ reply l₁, reply.status = none ∧ Called q memory l reply l₁ ∧
    l' = l₁ ++ outs.flatMap Reply.queries ∧ (q.into = true → outs = []) ∧
    (q.into = false → reply.filled = outs.map fun o => some o.value)
  length : q.into = false → outs.length = q.s.outputs.length
  rank : ∀ o ∈ outs, o.shape.length < 2 ^ (Platform.bits - 1)

/-- The output descriptors that `run` is given. -/
def outputs (q : Request) : Option (List OcTensor) :=
  if q.into then none else some (q.descriptors.drop q.s.inputs.length)

/-- What a run of the bridge that has not failed leaves. -/
def Succeeds (q : Request) (memory : Option Handle) (l : Trace) (r : Except OrtStatus Unit)
    (v : RunVars) (l' : Trace) : Prop :=
  r.isOk → ∃ outs, Answered q memory l outs l' ∧
    (q.into = false → v.outputs = some (outs.map Reply.filled))

/-- `run` before its label `fail`. -/
theorem runBody_log (hn : n.Matches q.s.inputs q.s.outputs) (hq : q.Ready) (hl : Entered l)
    (options : Option Handle) {len : Nat} (hlen : q.ports ≤ len) :
    wpc q.logged (runBody n options q.descriptors q.preallocated q.ports)
      (Succeeds q n.runtime.memory l) ⟨List.replicate len none, outputs q⟩ l := by
  simp only [runBody, wpc_bind]
  refine wpc_forRange (fun i v l' => Creating q n.runtime.memory l (outputs q) len i v l') ?_ ?_ ?_
  · intro i v l' hi h
    refine wpc_mono ?_ (runCreate_log hn hq hl hi hlen h)
    rintro (st | _) v' l'' hr
    · exact fun h => (by cases h)
    · exact hr rfl
  · intro v l' h
    refine wpc_mono ?_ (runCall_log hn hq hl options hlen h)
    rintro (st | _) v' l'' hr
    · exact fun h => (by cases h)
    obtain ⟨reply, hst, hcalled, hout, hvs⟩ := hr rfl
    dsimp only
    by_cases hinto : q.into = true
    · have hpre : q.preallocated.isNone = false := by simp [Request.preallocated, hinto]
      rw [hpre, if_neg Bool.false_ne_true, wpc_pure]
      refine fun _ => ⟨[], ⟨⟨reply, l'', hst, hcalled, by simp, fun _ => rfl, ?_⟩, ?_, ?_⟩, ?_⟩
      all_goals simp [hinto]
    · have hinto : q.into = false := by simpa using hinto
      obtain ⟨vs, hfilled, hvlen, hget⟩ := hvs hinto
      have hpre : q.preallocated.isNone = true := by simp [Request.preallocated, hinto]
      rw [hpre, if_pos rfl, hn.outputs, ← hvlen]
      refine wpc_forRange (fun i v l' => Replying q vs l'' i v l') ?_ ?_ ?_
      · intro i v l' hi h
        refine wpc_mono ?_ (runOutput_log hn hi h)
        rintro (st | _) v' l'' hr
        · exact fun h => (by cases h)
        · exact hr rfl
      · intro v l' h
        obtain ⟨outs, holen, hovs, hrank, rfl, descs, hdescs, hdlen, htake⟩ := h.log
        rw [List.take_of_length_le le_rfl] at hovs
        rw [← hdlen, List.take_length] at htake
        refine fun _ => ⟨outs, ⟨⟨reply, l'', hst, hcalled, rfl, ?_, fun _ => ?_⟩,
          fun _ => by omega, hrank⟩, fun _ => by rw [hdescs, htake]⟩
        · simp [hinto]
        · rw [hfilled, ← hovs, List.map_map]
          rfl
      · refine ⟨⟨[], rfl, rfl, by simp, by simp, q.descriptors.drop q.s.inputs.length, ?_, ?_, rfl⟩,
          fun j _ hj => hget j hj⟩
        · simp [hout, outputs, hinto]
        · have hT := hq.tensors
          simp only [hinto, Bool.false_eq_true, if_false] at hT
          simp only [hvlen, Request.descriptors, Request.ports, List.length_drop, List.length_append,
            List.length_map, List.length_replicate]
          omega
  · exact ⟨⟨[], by simp, by simp [createEvents], by simp⟩, rfl⟩

/-- **The C function `run`** of a request. -/
theorem run_log (hn : n.Matches q.s.inputs q.s.outputs) (hq : q.Ready) (hl : Entered l)
    (options : Option Handle) :
    wp q.logged (run n options q.descriptors q.preallocated (outputs q))
      (fun res l' => res.1 = none → ∃ outs, Answered q n.runtime.memory l outs l' ∧
        (q.into = false → res.2 = some (outs.map Reply.filled))) l := by
  have hports : sizeMod (n.inputs + n.outputs) = q.ports := by
    rw [hn.inputs, hn.outputs]
    exact Nat.mod_eq_of_lt hn.bound
  simp only [run, wp_bind]
  rw [hports]
  refine wp_mono ?_ (runValues_log q.ports)
  rintro (_ | ⟨base, values⟩) l' ⟨hl', hvalues⟩
  · simp only [wp_bind]
    exact (wp_silent_nat (by rfl)).2 fun _ _ h => (by cases h)
  obtain rfl : l = l' := hl'.symm
  obtain ⟨len, rfl, hlen⟩ := hvalues base values rfl
  simp only [wp_bind]
  refine wp_mono ?_ (runBody_log hn hq hl options hlen)
  rintro ⟨v, r⟩ l' hr
  -- what follows the body is not logged
  refine wp_tidy (.fold (fun i _ => runRelease_uses v.values i) _ _) fun _ => ?_
  refine wp_tidy (freePtr_uses _ fun _ => trivial) fun _ => ?_
  cases r with
  | ok _ => exact fun _ => hr rfl
  | error st =>
    obtain ⟨values, outputs⟩ := v
    cases outputs with
    | none => exact fun h => (by cases h)
    | some outputs =>
      simp only [wp_bind]
      exact wp_tidy (ocOutputsFree_uses _ _) fun _ h => (by cases h)

end Bridge

end

end Onnxcraft
