import Onnxcraft.Protocol.Native

/-!
# Running keeps the protocol

`run_spec`: whatever the native calls answer, the C function `run` releases every value it or ORT
has created, but the outputs it hands over when it succeeds. The values move from the table of
values to the descriptors one by one (`runOutput_spec`); what both hold together is the invariant
(`RunVars.resources`).
-/

namespace Onnxcraft

open Effect

namespace Held

/-- What the answer of `Run` says about the context. -/
def ran (g : Held) (aborted : Bool) : Held :=
  if aborted then { g with canceled := true, aborted := true } else g

theorem ran_phase (g : Held) (b : Bool) : (g.ran b).phase = g.phase := by cases b <;> rfl

end Held

/-- The values in the descriptors. -/
def outputValues (outputs : List OcTensor) : Multiset Resource :=
  total (fun t => owned .value t.value) outputs

/-- The values in optional descriptors. -/
def optionValues (outputs : Option (List OcTensor)) : Multiset Resource :=
  outputs.elim 0 outputValues

theorem outputValues_eq_zero {outputs : List OcTensor} (h : ∀ t ∈ outputs, t.value = none) :
    outputValues outputs = 0 :=
  total_eq_zero_of fun t ht => by rw [h t ht, owned_none]

/-! ## The table of values -/

theorem values_append (slots slots' : List (Option Handle)) :
    slotValues (slots ++ slots') = slotValues slots + slotValues slots' := total_append _ _

theorem values_set {slots : List (Option Handle)} {i : Nat} {h : Handle}
    (hi : slots[i]? = some none) : slotValues (slots.set i (some h)) = {.value h} + slotValues slots := by
  have := total_set (f := owned Resource.value) (b := some h) hi
  rw [slotValues, slotValues, add_comm ({_} : Multiset Resource)]
  simpa using this

theorem values_clear {slots : List (Option Handle)} {i : Nat} {v : Option Handle}
    (hi : slots[i]? = some v) : slotValues slots = owned .value v + slotValues (slots.set i none) := by
  have := total_set (f := owned Resource.value) (b := none) hi
  rw [slotValues, slotValues, add_comm]
  simpa using this.symm

/-- ORT fills only slots that were NULL. -/
theorem values_fill {slots filled : List (Option Handle)} (hlen : filled.length = slots.length)
    (h : ∀ p ∈ slots.zip filled, p.1.isSome → p.2 = none) :
    slotValues (Bridge.fill slots filled) = slotValues slots + slotValues filled := by
  induction slots generalizing filled with
  | nil =>
    obtain rfl : filled = [] := List.length_eq_zero_iff.1 hlen
    rfl
  | cons a slots ih =>
    obtain ⟨b, filled, rfl⟩ := List.exists_cons_of_length_eq_add_one hlen
    have hrest := ih (by simpa using hlen) fun p hp => h p (by simp [hp])
    have hhead := h (a, b) (by simp)
    simp only [slotValues, Bridge.fill, List.zipWith_cons_cons, total_cons] at hrest ⊢
    rw [hrest]
    cases a with
    | none => simp only [Option.none_or, owned_none]; abel
    | some a =>
      obtain rfl : b = none := hhead rfl
      simp only [Option.some_or, owned_none]
      abel

theorem fill_length {slots filled : List (Option Handle)} (h : filled.length = slots.length) :
    (Bridge.fill slots filled).length = slots.length := by
  simp [Bridge.fill, h]

/-- The table cut at the inputs and at the outputs. -/
theorem values_cut (slots : List (Option Handle)) (m k : Nat) :
    slotValues slots =
      slotValues (slots.take m) + (slotValues ((slots.drop m).take k) + slotValues (slots.drop (m + k))) := by
  rw [← values_append, ← List.drop_drop, List.take_append_drop, ← values_append,
    List.take_append_drop]

section
variable [Platform] {g : Held} {L : Multiset Resource}

/-- A descriptor that Go can read: its rank is the length of its shape, and an `int`. -/
def OcTensor.Ranked (t : OcTensor) : Prop :=
  t.rank = t.shape.length ∧ t.rank < 2 ^ (Platform.bits - 1)

/-- Values are released only while the run is native, or its outputs are freed. -/
theorem wp_releaseValue {v : Handle} (hp : g.phase = .native ∨ g.phase = .freeing)
    {Q : Unit → Held → Prop} (hQ : Q () (g.withLive L)) :
    wp protocol (nat (.releaseValue v)) Q (g.withLive ({.value v} + L)) := by
  refine ⟨⟨Multiset.le_add_right _ _, hp⟩, fun _ _ => ?_⟩
  show Q () (g.withLive (0 + ({.value v} + L - {.value v})))
  rwa [add_tsub_cancel_left, zero_add]

theorem wp_releaseSlot {v : Option Handle} (hp : g.phase = .native ∨ g.phase = .freeing)
    {Q : Unit → Held → Prop} (hQ : Q () (g.withLive L)) :
    wp protocol (whenSome v fun v => nat (.releaseValue v)) Q
      (g.withLive (owned .value v + L)) := by
  cases v with
  | none => simpa [whenSome] using hQ
  | some v => exact wp_releaseValue hp hQ

/-- The call of ORT's `Run`. -/
theorem wp_runOp {session options : Option Handle} {inputNames outputNames : List (Option CStr)}
    {inputs outputs : List (Option Handle)} (hp : g.phase = .native) (hctx : g.call.ctx.isSome)
    (hopt : ∀ o, options = some o → .runOptions o ∈ L) {Q : RunReply → Held → Prop}
    (hQ : ∀ reply, NativeOp.Allows (.run session options inputNames inputs outputNames outputs)
        reply →
      Q reply ((g.ran reply.aborted).withLive
        (owned (.status ·.addr) reply.status + (slotValues reply.filled + L)))) :
    wp protocol (nat (.run session options inputNames inputs outputNames outputs)) Q
      (g.withLive L) := by
  refine ⟨⟨Multiset.zero_le _, hp, hctx, hopt⟩, fun reply ha => ?_⟩
  have := hQ reply ha
  rw [← add_assoc] at this
  simp only [protocol_upd, Op.upd, NativeOp.upd]
  unfold NativeOp.releases NativeOp.acquires
  simp only [tsub_zero]
  unfold Held.ran at this
  split <;> simp_all [Held.withLive]

namespace Bridge

/-! ## Freeing the outputs -/

theorem ocOutputsFreeSlot_spec {i : Nat} {outputs : List OcTensor} {t : OcTensor}
    (hp : g.phase = .native ∨ g.phase = .freeing) (ht : outputs[i]? = some t) :
    wp protocol (ocOutputsFreeSlot i outputs)
      (fun outputs' g' => outputs' = outputs.set i .zero ∧
        g' = g.withLive (outputValues outputs' + L)) (g.withLive (outputValues outputs + L)) := by
  have hset : outputValues outputs =
      owned .value t.value + outputValues (outputs.set i .zero) := by
    have := total_set (f := fun t : OcTensor => owned Resource.value t.value) (b := .zero) ht
    rw [outputValues, outputValues, add_comm]
    simpa [OcTensor.zero] using this.symm
  simp only [ocOutputsFreeSlot, wp_bind, wp_pure]
  refine wp_rd ht ?_
  rw [hset, add_assoc]
  exact wp_releaseSlot hp ⟨trivial, rfl⟩

/-- **`oc_outputs_free`** releases every value in the descriptors and zeroes them. -/
theorem ocOutputsFree_spec {s : OcSession} {outputs : List OcTensor}
    (hp : g.phase = .native ∨ g.phase = .freeing) (hlen : outputs.length = s.outputs) :
    wp protocol (ocOutputsFree s outputs)
      (fun outputs' g' => outputs' = List.replicate s.outputs .zero ∧ g' = g.withLive L)
      (g.withLive (outputValues outputs + L)) := by
  refine wp_foldRange (fun i outputs' g' => outputs'.length = s.outputs ∧
      (∀ j < i, outputs'[j]? = some OcTensor.zero) ∧
      g' = g.withLive (outputValues outputs' + L)) ?_ ?_ ⟨hlen, nofun, rfl⟩
  · rintro i outputs' _ hi ⟨hlen', hzero, rfl⟩
    have hi' : i < outputs'.length := hlen'.symm ▸ hi
    refine wp_mono ?_ (ocOutputsFreeSlot_spec hp (List.getElem?_eq_getElem hi'))
    rintro _ _ ⟨rfl, rfl⟩
    refine ⟨by simpa using hlen', fun j hj => ?_, rfl⟩
    rcases Nat.lt_succ_iff_lt_or_eq.1 hj with hj | rfl
    · simpa [List.getElem?_set, Nat.ne_of_gt hj] using hzero j hj
    · simp [hi']
  · rintro outputs' _ ⟨hlen', hzero, rfl⟩
    have hall : outputs' = List.replicate s.outputs OcTensor.zero := by
      refine List.ext_getElem? fun j => ?_
      rcases Nat.lt_or_ge j s.outputs with hj | hj
      · rw [hzero j hj]
        simp [hj]
      · rw [List.getElem?_eq_none (by omega), List.getElem?_eq_none (by simpa using hj)]
    refine ⟨hall, ?_⟩
    have hnone : ∀ t ∈ outputs', t.value = none := fun t ht => by
      rw [hall] at ht
      rw [List.eq_of_mem_replicate ht]
      rfl
    rw [outputValues_eq_zero hnone, zero_add]

namespace RunVars

/-- Everything the variables of `run` hold. -/
def resources (v : RunVars) : Multiset Resource := slotValues v.values + optionValues v.outputs

/-- The table has a slot for each of the `n` ports, and the slots behind them are empty; there is a
descriptor for each output. -/
structure Table (s : OcSession) (n : Nat) (v : RunVars) : Prop where
  len : n ≤ v.values.length
  rest : ∀ j, n ≤ j → j < v.values.length → v.values[j]? = some none
  outputs : ∀ outputs, v.outputs = some outputs → outputs.length = s.outputs

end RunVars

variable {s : OcSession} {n : Nat} {inputs : List OcTensor} {preallocated : Option (List OcTensor)}

/-- One input, or one preallocated output: its value goes into the table. -/
theorem runCreate_spec {i : Nat} {v : RunVars} (hn : n = s.inputs + s.outputs)
    (hin : s.inputs ≤ inputs.length) (hpre : ∀ p, preallocated = some p → p.length = s.outputs)
    (hi : i < n) (hv : v.Table s n) (hempty : ∀ j, i ≤ j → j < n → v.values[j]? = some none) :
    wpc protocol (runCreate s inputs preallocated i)
      (fun res v' g' => match res with
        | .ok _ => v'.outputs = v.outputs ∧ v'.Table s n ∧
          (∀ j, i + 1 ≤ j → j < n → v'.values[j]? = some none) ∧
          g' = g.withLive (v'.resources + L)
        | .error st => v' = v ∧ g' = g.withLive ({.status st.addr} + (v.resources + L))) v
      (g.withLive (v.resources + L)) := by
  simp only [runCreate]
  split
  · exact ⟨rfl, hv, fun j hj => hempty j (by omega), rfl⟩
  next hbranch =>
  simp only [wpc_bind, wpc_lift, wpc_get, wpc_modify]
  have hdesc : ∃ t, wp protocol (if i < s.inputs then rd inputs i
      else do rd (← deref preallocated) (i - s.inputs)) (fun t' g' => t' = t ∧
        g' = g.withLive (v.resources + L)) (g.withLive (v.resources + L)) := by
    split
    · next hlt =>
      have hi' : i < inputs.length := by omega
      exact ⟨inputs[i], wp_rd (List.getElem?_eq_getElem hi') ⟨rfl, rfl⟩⟩
    · next hge =>
      obtain ⟨p, hp⟩ : ∃ p, preallocated = some p := by
        cases preallocated with
        | none => exact absurd ⟨by omega, rfl⟩ hbranch
        | some p => exact ⟨p, rfl⟩
      have hlen := hpre p hp
      have hi' : i - s.inputs < p.length := by omega
      refine ⟨p[i - s.inputs], ?_⟩
      simp only [wp_bind]
      exact wp_deref hp (wp_rd (List.getElem?_eq_getElem hi') ⟨rfl, rfl⟩)
  obtain ⟨t, ht⟩ := hdesc
  refine wp_mono ?_ ht
  rintro _ _ ⟨rfl, rfl⟩
  refine wpc_acquires (c := .value) (fun _ _ => wp_native (by trivial) rfl) (fun h => ?_)
    fun st => ⟨rfl, rfl⟩
  have hlt : i < v.values.length := by
    have := hv.len
    omega
  refine wp_wr hlt ⟨rfl, ⟨by simpa using hv.len, fun j hj hj' => ?_, hv.outputs⟩,
    fun j hj hj' => ?_, ?_⟩
  · have hne : i ≠ j := by omega
    simpa [List.getElem?_set, hne] using hv.rest j hj (by simpa using hj')
  · have hne : i ≠ j := by omega
    simpa [List.getElem?_set, hne] using hempty j (by omega) hj'
  · simp only [RunVars.resources, values_set (hempty i le_rfl hi), add_assoc]

/-- **ORT's `Run`**: whatever it has filled is in the table. -/
theorem runCall_spec {options : Option Handle} {v : RunVars} (hn : n = s.inputs + s.outputs)
    (hnames : ∃ names, s.names = some names ∧ names.slots.length = n) (hv : v.Table s n)
    (hp : g.phase = .native) (hctx : g.call.ctx.isSome)
    (hopt : ∀ o, options = some o → .runOptions o ∈ L) :
    wpc protocol (runCall s options)
      (fun res v' g' => v'.outputs = v.outputs ∧ v'.Table s n ∧
        ∃ b, g' = (g.ran b).withLive (failing res + (v'.resources + L))) v
      (g.withLive (v.resources + L)) := by
  obtain ⟨names, hnames, hlen⟩ := hnames
  have hvlen := hv.len
  have htake : (v.values.take s.inputs).length = s.inputs := by simp; omega
  have houts : ((v.values.drop s.inputs).take s.outputs).length = s.outputs := by simp; omega
  simp only [runCall, wpc_bind, wpc_get, wpc_lift, wpc_modify]
  refine wp_deref hnames (wp_slice (by omega) (wp_slice (by omega) (wp_slice (by omega)
    (wp_slice (by omega) ?_))))
  refine wp_runOp hp hctx (fun o ho => Multiset.mem_add.2 (.inr (hopt o ho))) fun reply hreply => ?_
  obtain ⟨hfilled, hnull⟩ := hreply
  have hfill := fill_length hfilled
  -- the table after the call
  let v' : RunVars := ⟨v.values.take s.inputs ++
    fill ((v.values.drop s.inputs).take s.outputs) reply.filled ++
    v.values.drop (s.inputs + s.outputs), v.outputs⟩
  have hR : v'.resources = slotValues reply.filled + v.resources := by
    simp only [RunVars.resources, v', values_append]
    rw [values_fill hfilled fun p hp => (hnull p hp).1, values_cut v.values s.inputs s.outputs]
    abel
  have ht : v'.Table s n := by
    have hlen' : v'.values.length = v.values.length := by
      simp only [v', List.length_append, htake, hfill, houts, List.length_drop]
      omega
    refine ⟨hlen'.symm ▸ hv.len, fun j hj hj' => ?_, hv.outputs⟩
    rw [← hv.rest j hj (hlen' ▸ hj')]
    simp only [v']
    rw [List.getElem?_append_right (by simp only [List.length_append, htake, hfill, houts]; omega),
      List.getElem?_drop]
    congr 1
    simp only [List.length_append, htake, hfill, houts]
    omega
  have hlive : owned (Resource.status ·.addr) reply.status +
      (slotValues reply.filled + (v.resources + L)) =
      owned (Resource.status ·.addr) reply.status + (v'.resources + L) := by
    rw [hR, add_assoc (slotValues _)]
  rw [hlive]
  cases hst : reply.status with
  | none => exact ⟨rfl, ht, reply.aborted, rfl⟩
  | some st => exact ⟨rfl, ht, reply.aborted, rfl⟩

/-- Before iteration `i` of the last loop: the outputs from `i` on hold no value yet. -/
structure RunVars.Moving (s : OcSession) (n i : Nat) (v : RunVars) : Prop where
  table : v.Table s n
  outputs : ∃ outputs, v.outputs = some outputs ∧
    (∀ j t, j < i → outputs[j]? = some t → t.Ranked) ∧
    ∀ j t, i ≤ j → outputs[j]? = some t → t.value = none

omit [Platform] in
/-- Moving the value of output `i` from the table to its descriptor. -/
theorem RunVars.move_resources {v : RunVars} {outputs : List OcTensor} {i j : Nat} {t t' : OcTensor}
    {value : Option Handle} (hout : v.outputs = some outputs) (ht : outputs[i]? = some t)
    (hnone : t.value = none) (hvalue : v.values[j]? = some value) (ht' : t'.value = value) :
    (⟨v.values.set j none, some (outputs.set i t')⟩ : RunVars).resources = v.resources := by
  have hset : outputValues (outputs.set i t') = owned .value value + outputValues outputs := by
    have := total_set (f := fun t : OcTensor => owned Resource.value t.value) (b := t') ht
    rw [outputValues, outputValues, add_comm (owned _ _)]
    simpa [hnone, ht'] using this
  simp only [RunVars.resources, optionValues, hout, Option.elim_some, hset,
    values_clear hvalue]
  abel

/-- **One output** of `Run`: its value moves to its descriptor, which is then filled. -/
theorem runOutput_spec {i : Nat} {v : RunVars} (hn : n = s.inputs + s.outputs) (hi : i < s.outputs)
    (hv : v.Moving s n i) :
    wpc protocol (runOutput s i)
      (fun res v' g' => match res with
        | .ok _ => v'.Moving s n (i + 1) ∧ g' = g.withLive (v'.resources + L)
        | .error st => v'.Table s n ∧ v'.outputs.isSome ∧
          g' = g.withLive ({.status st.addr} + (v'.resources + L))) v
      (g.withLive (v.resources + L)) := by
  obtain ⟨outputs, hout, hranked, hnone⟩ := hv.outputs
  have hlen := hv.table.outputs outputs hout
  have hi' : i < outputs.length := by omega
  have hvlen := hv.table.len
  have hj : s.inputs + i < v.values.length := by omega
  have hti : outputs[i]? = some outputs[i] := List.getElem?_eq_getElem hi'
  have hvi : v.values[s.inputs + i]? = some v.values[s.inputs + i] := List.getElem?_eq_getElem hj
  -- the variables once the value has moved, with the descriptor `t`
  let mid (t : OcTensor) : RunVars :=
    ⟨v.values.set (s.inputs + i) none, some (outputs.set i t)⟩
  have htable : ∀ t, (mid t).Table s n := by
    refine fun t => ⟨by simpa [mid] using hv.table.len, fun j hj hj' => ?_, ?_⟩
    · have hne : s.inputs + i ≠ j := by omega
      simpa [mid, List.getElem?_set, hne] using hv.table.rest j hj (by simpa [mid] using hj')
    · rintro _ ⟨⟩
      simpa using hlen
  have hset : ∀ t t', (mid t).setOutput i t' = mid t' := by
    intro t t'
    simp [mid, RunVars.setOutput]
  simp only [runOutput, wpc_bind, wpc_get, wpc_lift, wpc_modify]
  refine wp_deref hout (wp_rd hti (wp_rd hvi ?_))
  generalize v.values[s.inputs + i] = value at hvi ⊢
  have hres : ∀ t : OcTensor, t.value = value → v.resources = (mid t).resources := fun t ht =>
    (RunVars.move_resources hout hti (hnone i _ le_rfl hti) hvi ht).symm
  have hmid : ({ v.setOutput i { outputs[i] with value } with
      values := v.values.set (s.inputs + i) none } : RunVars) =
      mid { outputs[i] with value } := by
    simp [mid, RunVars.setOutput, hout]
  have hfail : ∀ (t : OcTensor) (st : OrtStatus), t.value = value →
      (mid t).Table s n ∧ (mid t).outputs.isSome ∧
        g.withLive ({.status st.addr} + (v.resources + L)) =
          g.withLive ({.status st.addr} + ((mid t).resources + L)) :=
    fun t st ht => ⟨htable t, rfl, by rw [hres t ht]⟩
  rw [hmid]
  refine wpc_harmless (fun _ _ => wp_native (by trivial) rfl) (fun memory => ?_)
    fun st => hfail _ st rfl
  refine wp_ask (by trivial) rfl (fun _ => rfl) fun device _ => ?_
  split
  · simp only [wpc_bind, wpc_lift]
    exact wp_createStatus fun st => hfail _ st rfl
  simp only [wpc_bind, wpc_check, wpc_modify]
  refine wp_acquire (by trivial) rfl ?_
  rintro (st | ⟨type, shape⟩) hshape
  · exact hfail _ st rfl
  have hrank : shape.length < 2 ^ (Platform.bits - 1) := hshape
  unfold NativeOp.acquires
  simp only [failing_ok, zero_add]
  rw [hset]
  refine wp_mono ?_ (wp_native (by trivial) rfl)
  rintro (st | bytes) _ rfl
  · exact hfail _ st rfl
  unfold NativeOp.acquires
  simp only [failing_ok, zero_add]
  rw [hset]
  refine wp_mono ?_ (wp_native (by trivial) rfl)
  rintro (st | data) _ rfl
  · exact hfail _ st rfl
  unfold NativeOp.acquires
  simp only [failing_ok, zero_add, hset]
  refine ⟨⟨htable _, _, rfl, fun j t hj ht => ?_, fun j t hj ht => ?_⟩, by rw [← hres _ rfl]⟩
  · rcases Nat.lt_succ_iff_lt_or_eq.1 hj with hj | rfl
    · have hne : i ≠ j := by omega
      simp only [List.getElem?_set, hne, if_false] at ht
      exact hranked j t hj ht
    · simp only [List.getElem?_set_self hi', Option.some.injEq] at ht
      subst ht
      exact ⟨rfl, hrank⟩
  · have hne : i ≠ j := by omega
    simp only [List.getElem?_set, hne, if_false] at ht
    exact hnone j t (by omega) ht

/-! ## The function -/

/-- What `run` may rely on: the arguments fit the session, the output descriptors are empty, and
either outputs are preallocated or descriptors are given for them. -/
structure RunArgs (s : OcSession) (inputs : List OcTensor)
    (preallocated outputs : Option (List OcTensor)) : Prop where
  either : preallocated.isNone = outputs.isSome
  bound : sizeMod (s.inputs + s.outputs) = s.inputs + s.outputs
  names : ∃ names, s.names = some names ∧ names.slots.length = s.inputs + s.outputs
  inputs : s.inputs ≤ inputs.length
  preallocated : ∀ p, preallocated = some p → p.length = s.outputs
  outputs : ∀ o, outputs = some o → o.length = s.outputs ∧ ∀ t ∈ o, t.value = none

/-- `run` before `fail:`. -/
theorem runBody_spec {options : Option Handle} {outputs : Option (List OcTensor)}
    {slots : List (Option Handle)} (ha : RunArgs s inputs preallocated outputs)
    (hn : n = s.inputs + s.outputs) (hlen : n ≤ slots.length) (hslots : ∀ v ∈ slots, v = none)
    (hp : g.phase = .native) (hctx : g.call.ctx.isSome)
    (hopt : ∀ o, options = some o → .runOptions o ∈ L) :
    wpc protocol (runBody s options inputs preallocated n)
      (fun res v' g' => v'.Table s n ∧ v'.outputs.isSome = outputs.isSome ∧ ∃ b,
        g' = (g.ran b).withLive (failing res + (v'.resources + L)) ∧
        (res.isOk → ∀ o, v'.outputs = some o → ∀ t ∈ o, t.Ranked)) ⟨slots, outputs⟩
      (g.withLive L) := by
  have hget : ∀ j, j < slots.length → slots[j]? = some none := fun j hj => by
    rw [List.getElem?_eq_getElem hj, hslots _ (List.getElem_mem hj)]
  have hL : g.withLive L = g.withLive ((⟨slots, outputs⟩ : RunVars).resources + L) := by
    have h1 : slotValues slots = 0 := total_eq_zero_of fun v hv => by rw [hslots v hv, owned_none]
    have h2 : optionValues outputs = 0 := by
      cases houts : outputs with
      | none => rfl
      | some o => exact outputValues_eq_zero (ha.outputs o houts).2
    rw [RunVars.resources, h1, h2, zero_add, zero_add]
  simp only [runBody, wpc_bind]
  rw [hL]
  refine wpc_forRange (fun i v g' => v.outputs = outputs ∧ v.Table s n ∧
    (∀ j, i ≤ j → j < n → v.values[j]? = some none) ∧ g' = g.withLive (v.resources + L)) ?_ ?_
    ⟨rfl, ⟨hlen, fun j _ hj => hget j hj, fun o ho => (ha.outputs o ho).1⟩,
      fun j _ hj => hget j (by omega), rfl⟩
  · rintro i v _ hi ⟨hout, ht, hempty, rfl⟩
    refine wpc_mono ?_ (runCreate_spec hn ha.inputs ha.preallocated hi ht hempty)
    rintro (st | _) v' _ h
    · obtain ⟨rfl, rfl⟩ := h
      exact ⟨ht, by rw [hout], false, rfl, fun h => (by cases h)⟩
    · exact ⟨h.1.trans hout, h.2⟩
  rintro v _ ⟨hout, ht, -, rfl⟩
  dsimp only
  refine wpc_mono ?_ (runCall_spec hn (hn ▸ ha.names) ht hp hctx hopt)
  rintro (st | _) v' _ ⟨hout', ht', b, rfl⟩
  · exact ⟨ht', by rw [hout', hout], b, rfl, fun h => (by cases h)⟩
  simp only [failing_ok, zero_add]
  rw [hout] at hout'
  split
  · next hpre =>
    obtain ⟨o, ho⟩ : ∃ o, outputs = some o := Option.isSome_iff_exists.1 (ha.either ▸ hpre)
    refine wpc_forRange (fun i v g' => v.Moving s n i ∧ g' = (g.ran b).withLive (v.resources + L))
      ?_ ?_ ⟨⟨ht', o, hout'.trans ho, by simp, fun j t _ hj =>
        (ha.outputs o ho).2 t (List.mem_of_getElem? hj)⟩, rfl⟩
    · rintro i v _ hi ⟨hv, rfl⟩
      refine wpc_mono ?_ (runOutput_spec hn hi hv)
      rintro (st | _) v' _ h
      · obtain ⟨ht, hsome, rfl⟩ := h
        exact ⟨ht, by rw [hsome, ho]; rfl, b, rfl, fun h => (by cases h)⟩
      · exact h
    · rintro v _ ⟨hv, rfl⟩
      obtain ⟨o', ho', hranked, -⟩ := hv.outputs
      refine ⟨hv.table, by rw [ho', ho]; rfl, b, by rw [failing_ok, zero_add], fun _ o'' ho'' t ht => ?_⟩
      obtain rfl : o' = o'' := by rw [ho', Option.some.injEq] at ho''; exact ho''
      obtain ⟨j, hj⟩ := List.mem_iff_getElem?.1 ht
      have := hv.table.outputs o' ho'
      have := (List.getElem?_eq_some_iff.1 hj).1
      exact hranked j t (by omega) hj
  · next hpre =>
    have hnone : outputs = none := by
      have := ha.either
      cases outputs <;> simp_all
    refine ⟨ht', by rw [hout'], b, by rw [failing_ok, zero_add], fun _ o ho => ?_⟩
    rw [hout', hnone] at ho
    cases ho

/-- The table of values: on the stack, or on the heap; it is empty. -/
theorem runValues_spec (n : Nat) :
    wp protocol (runValues n)
      (fun res g' => match res with
        | none => g' = g.withLive L
        | some (base, slots) => n ≤ slots.length ∧ (∀ v ∈ slots, v = none) ∧
          g' = g.withLive (owned .mem base + L)) (g.withLive L) := by
  unfold runValues
  split
  · next hn =>
    refine ⟨by simpa using hn, fun v hv => List.eq_of_mem_replicate hv, ?_⟩
    rw [owned_none, zero_add]
  · simp only [wp_bind, wp_pure]
    refine wp_acquire (by trivial) rfl ?_
    rintro (_ | p) -
    · rw [show NativeOp.acquires (.calloc n pointerBytes) none = 0 from rfl, zero_add]
      rfl
    · exact ⟨by simp, fun v hv => List.eq_of_mem_replicate hv, rfl⟩

/-- The loop at `fail:` releases the whole table. -/
theorem runReleases_spec {v : RunVars} (hv : v.Table s n)
    (hp : g.phase = .native ∨ g.phase = .freeing) {Q : Unit → Held → Prop}
    (hQ : Q () (g.withLive L)) :
    wp protocol (.fold (fun i _ => runRelease v.values i) (List.range n) ()) Q
      (g.withLive (slotValues v.values + L)) := by
  have hvlen := hv.len
  refine wp_foldRange (fun i _ g' => g' = g.withLive (slotValues (v.values.drop i) + L)) ?_ ?_ rfl
  · rintro i _ _ hi rfl
    have hi' : i < v.values.length := by omega
    have hsplit : slotValues (v.values.drop i) =
        owned .value v.values[i] + slotValues (v.values.drop (i + 1)) := by
      rw [List.drop_eq_getElem_cons hi']
      exact total_cons
    simp only [runRelease, wp_bind, hsplit, add_assoc]
    exact wp_rd (List.getElem?_eq_getElem hi') (wp_releaseSlot hp rfl)
  · rintro _ _ rfl
    have hempty : slotValues (v.values.drop n) = 0 := total_eq_zero_of fun a ha => by
      obtain ⟨j, hj⟩ := List.mem_iff_getElem?.1 ha
      rw [List.getElem?_drop] at hj
      have hlt := (List.getElem?_eq_some_iff.1 hj).1
      rw [hv.rest (n + j) (by omega) hlt, Option.some.injEq] at hj
      rw [← hj, owned_none]
    rwa [hempty, zero_add]

/-- What `run` returns: the outputs it hands over when it succeeds, a status otherwise. -/
def RunResult (s : OcSession) (g : Held) (L : Multiset Resource) (given : Bool) :
    Option OrtStatus × Option (List OcTensor) → Held → Prop
  | (none, outputs), g' => outputs.isSome = given ∧
      (∀ o, outputs = some o → o.length = s.outputs ∧ ∀ t ∈ o, t.Ranked) ∧
      ∃ b, g' = (g.ran b).withLive (optionValues outputs + L)
  | (some st, outputs), g' => outputs.isSome = given ∧
      (∀ o, outputs = some o → o.length = s.outputs ∧ ∀ t ∈ o, t.value = none) ∧
      ∃ b, g' = (g.ran b).withLive ({.status st.addr} + L)

/-- With output descriptors: they hold what is left to release. -/
theorem RunResult.given {status : Option OrtStatus} {outputs : Option (List OcTensor)} {g' : Held}
    (h : RunResult s g L true (status, outputs) g') : ∃ o b, outputs = some o ∧
      o.length = s.outputs ∧ (status = none → ∀ t ∈ o, t.Ranked) ∧
      g' = (g.ran b).withLive (owned (.status ·.addr) status + (outputValues o + L)) := by
  rcases status with _ | st <;> obtain ⟨hsome, ho, b, rfl⟩ := h <;>
    obtain ⟨o, rfl⟩ := Option.isSome_iff_exists.1 hsome <;> obtain ⟨hl, ht⟩ := ho o rfl
  · refine ⟨o, b, rfl, hl, fun _ => ht, ?_⟩
    rw [owned_none, zero_add]
    rfl
  · refine ⟨o, b, rfl, hl, nofun, ?_⟩
    rw [outputValues_eq_zero ht, zero_add, owned_some]

/-- Without: nothing is left but the status. -/
theorem RunResult.none {status : Option OrtStatus} {outputs : Option (List OcTensor)} {g' : Held}
    (h : RunResult s g L false (status, outputs) g') :
    ∃ b, g' = (g.ran b).withLive (owned (.status ·.addr) status + L) := by
  rcases status with _ | st <;> obtain ⟨hsome, -, b, rfl⟩ := h
  · obtain rfl : outputs = .none := by cases outputs <;> simp_all
    exact ⟨b, rfl⟩
  · exact ⟨b, rfl⟩

/-- **`run`**: every value created has been released, but the outputs handed over. -/
theorem run_spec {options : Option Handle} {outputs : Option (List OcTensor)}
    (ha : RunArgs s inputs preallocated outputs) (hp : g.phase = .native)
    (hctx : g.call.ctx.isSome) (hopt : ∀ o, options = some o → .runOptions o ∈ L) :
    wp protocol (run s options inputs preallocated outputs)
      (RunResult s g L outputs.isSome) (g.withLive L) := by
  simp only [run, wp_bind, ha.bound]
  refine wp_mono ?_ (runValues_spec (s.inputs + s.outputs))
  rintro (_ | ⟨base, slots⟩) _ h
  · subst h
    simp only [wp_bind, wp_pure]
    exact wp_createStatus fun st => ⟨rfl, ha.outputs, false, rfl⟩
  obtain ⟨hlen, hslots, rfl⟩ := h
  simp only [wp_bind, wp_code]
  refine wpc_mono ?_ (runBody_spec ha rfl hlen hslots hp hctx fun o ho =>
    Multiset.mem_add.2 (.inr (hopt o ho)))
  rintro res v _ ⟨hv, hgiven, b, rfl, hranked⟩
  have hp' : (g.ran b).phase = .native ∨ (g.ran b).phase = .freeing := .inl (by rw [Held.ran_phase, hp])
  have hlive : failing res + (v.resources + (owned .mem base + L)) =
      slotValues v.values + (owned .mem base + (failing res + (optionValues v.outputs + L))) := by
    rw [RunVars.resources]
    abel
  rw [hlive]
  refine runReleases_spec hv hp' ?_
  have hfree : ∀ (R : Multiset Resource) (Q : Unit → Held → Prop), Q () ((g.ran b).withLive R) →
      wp protocol (freePtr base) Q ((g.ran b).withLive (owned .mem base + R)) := by
    intro R Q hQ
    cases base with
    | none => simpa [freePtr, whenSome] using hQ
    | some p => exact wp_free hQ
  refine hfree _ _ ?_
  rcases res with st | _
  · cases houts : v.outputs with
    | none =>
      simp only [wp_pure, optionValues, Option.elim, zero_add, failing_error]
      exact ⟨by rw [← hgiven, houts], by simp, b, rfl⟩
    | some o =>
      simp only [wp_bind, wp_pure, optionValues, Option.elim_some, failing_error]
      rw [add_left_comm]
      refine wp_mono ?_ (ocOutputsFree_spec hp' (hv.outputs o houts))
      rintro _ _ ⟨rfl, rfl⟩
      refine ⟨by rw [← hgiven, houts]; rfl, ?_, b, rfl⟩
      rintro _ ⟨⟩
      refine ⟨by simp, fun t ht => ?_⟩
      rw [List.eq_of_mem_replicate ht]
      rfl
  · refine ⟨hgiven, fun o ho => ⟨hv.outputs o ho, hranked rfl o ho⟩, b, ?_⟩
    rw [failing_ok, zero_add]

end Bridge

end

end Onnxcraft
