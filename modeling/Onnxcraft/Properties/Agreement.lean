import Onnxcraft.Properties.Serving

/-!
# What a run computes

When ORT serves a function `F` on values, a run returns normally exactly when `F` is defined at its
inputs, yields types of known size, and has places for them, and it leaves what `F` yields in its
results (`run_computes`). `Run` and `RunInto` therefore agree (`run_agreement`).
-/

namespace Onnxcraft

open Effect

section
variable [Platform]

namespace Ort

variable {O : Ort} {F : ModelFn} {q : Request} {ys : List Value} {σ : Global} {t : Goroutine}

/-- Only the reply of a run tells more than that it is calm. -/
theorem calm_of_serves {ev : Event Op Op.Resp} (h : O.serves F ev) (hev : ev.1.note ≠ some .run) :
    calm O.holds ev := by
  obtain ⟨e, a⟩ := ev
  cases e with
  | nat o =>
    cases o with
    | run => exact absurd rfl hev
    | createTensorWithDataAsOrtValue =>
      cases a with
      | error st => exact (Bool.false_ne_true h).elim
      | ok v => rfl
    | getTensorMutableData v =>
      cases a with
      | error st => exact (Bool.false_ne_true h).elim
      | ok p => exact calm_data.2 fun y hy => (serves_data.1 h y hy).2
    | _ => exact h
  | mem o =>
    cases o with
    | load p n => rfl
    | _ => exact h
  | _ => exact h

/-- The call of ORT's `Run` of a request: it is handed what the request says. -/
theorem called (hr : system.Reachable σ) (ht : t ∈ σ.threads) (hc : t.call.request = some q)
    (hq : q.Valid) (hserves : ∀ ev ∈ t.trace, O.serves F ev) {session options : Option Handle}
    {inNames outNames : List (Option CStr)} {ins outs : List (Option Handle)} {reply : RunReply}
    (hev : ⟨.nat (.run session options inNames ins outNames outs), reply⟩ ∈ t.trace) :
    O.values ins = q.inputs.map O.value ∧
      O.slots outs = (if q.into then q.outputs.map fun t => some (O.wrapped t)
        else List.replicate q.s.outputs.length none) ∧
      (q.into = false → outs = List.replicate q.s.outputs.length none) ∧
      O.Replies outs reply (F (q.inputs.map O.value)) := by
  obtain ⟨tr, tr', htr⟩ := List.append_of_mem hev
  obtain ⟨-, -, hhanded, -⟩ := Reachable.may hr ht hc htr (by rfl)
  have hcreate : ∀ ev ∈ noted .create (marked Op.Noted tr), O.serves F ev := by
    intro ev hev
    rw [noted_marked] at hev
    refine hserves ev ?_
    rw [htr]
    exact List.mem_append_left _ (mem_marked.1 hev).1
  obtain ⟨hins, houts, hnone⟩ := slots_handed hq hhanded hcreate
  have hvalues := values_inputs hins
  exact ⟨hvalues, houts, hnone, hvalues ▸ serves_run.1 (hserves _ hev)⟩

/-- Nothing disturbs a run whose request takes what `F` yields. -/
theorem undisturbed (hr : system.Reachable σ) (ht : t ∈ σ.threads) (hc : t.call.request = some q)
    (hq : q.Valid) (hserves : ∀ ev ∈ t.trace, O.serves F ev) (hF : F (q.inputs.map O.value) = some ys)
    (hproper : ∀ y ∈ ys, y.Proper) (htakes : q.Takes ys) : ∀ ev ∈ t.trace, calm O.holds ev := by
  intro ev hev
  by_cases hrun : ev.1.note = some .run
  · obtain ⟨e, a⟩ := ev
    cases e with
    | nat o =>
      cases o with
      | run session options inNames ins outNames outs =>
        obtain ⟨-, houts, -, hreply⟩ := called hr ht hc hq hserves hev
        rw [hF] at hreply
        have hst := hreply.1.2 ((Slots.fit_iff hq houts).2 htakes)
        refine calm_run.2 ⟨hst, fun v hmem h hv => ?_⟩
        obtain rfl : v = some h := hv
        obtain ⟨l, hlen, hnull⟩ := Reachable.knows hr ht hc _ hev
        obtain ⟨i, hi, hfilled⟩ := List.mem_iff_getElem.1 hmem
        have hi' : i < outs.length := hlen ▸ hi
        have hslot : outs[i] = none := by
          have := (hnull (outs[i], a.filled[i]) (List.mem_iff_getElem.2 ⟨i, by simp [hi, hi'], by simp⟩)).1
          rw [hfilled] at this
          cases hout : outs[i] with
          | none => rfl
          | some v => cases this (by simp [hout])
        have hlen' : outs.length = ys.length := by
          have := ((Slots.fit_iff hq houts).2 htakes).1
          simpa [slots] using this
        have hi'' : i < ys.length := hlen' ▸ hi'
        have := (hreply.2 hst).1 (outs[i], a.filled[i], ys[i])
          (List.mem_iff_getElem.2 ⟨i, by simp [hi, hi', hi''], by simp⟩) hslot
        rw [hfilled] at this
        exact ⟨ys[i], this, hproper _ (List.getElem_mem _)⟩
      | _ => cases hrun
    | mem o => cases o <;> cases hrun
    | sess s o => cases o <;> cases hrun
    | enter f => cases f <;> cases hrun
    | _ => cases hrun
  · exact calm_of_serves (hserves ev hev) hrun

/-- A copy is what ORT's value is. -/
theorem copied_value (hserves : ∀ ev ∈ t.trace, O.serves F ev) {R : List Tensor} {cs : List Copy}
    {ins outs : List (Option Handle)} {reply : RunReply} (h : Copied q R t.trace cs ins outs reply)
    {c : Copy} (hc : c ∈ cs) {y : Value} (hy : O.holds c.reply.value = some y) :
    c.tensor.dtype = y.type ∧ c.tensor.shape = y.shape ∧ c.bytes = y.bytes ∧
      c.tensor.bytes = c.bytes.length := by
  have hqueries : ∀ ev ∈ c.reply.queries, O.serves F ev := fun ev hev => hserves ev (h.queries c hc ev hev)
  have hcopies : ∀ ev ∈ c.reply.copies c.tensor c.bytes, O.serves F ev :=
    fun ev hev => hserves ev (h.copies c hc ev hev)
  have htells : c.reply.Tells y := by
    refine .of_queries (fun ev hev => calm_of_serves (hqueries ev hev) ?_) hy
    rw [queries_note ev (List.mem_flatMap.2 ⟨c.reply, List.mem_singleton_self _, hev⟩)]
    decide
  simp only [Reply.queries, List.forall_mem_cons] at hqueries
  simp only [Reply.copies, List.forall_mem_cons] at hcopies
  have hdata : O.memory.read c.reply.data y.bytes.length = y.bytes :=
    (serves_data.1 hqueries.2.2.1 y hy).1
  have hload : c.bytes = O.memory.read c.reply.data c.reply.bytes :=
    serves_load.1 hcopies.2.1
  obtain ⟨hgives, hlen⟩ := h.valid c hc
  refine ⟨by rw [hgives.dtype, htells.type], by rw [hgives.shape, htells.shape], ?_, ?_⟩
  · rw [hload, htells.bytes, hdata]
  · have := hgives.bytes
    unfold Tensor.bytes
    omega

/-- The call of ORT's `Run` of a run that has succeeded: `F` is defined, and what it yields has a
place and types of known size. -/
theorem copied_called (hr : system.Reachable σ) (ht : t ∈ σ.threads) (hc : t.call.request = some q)
    (hq : q.Valid) (hserves : ∀ ev ∈ t.trace, O.serves F ev) {R : List Tensor} {cs : List Copy}
    {ins outs : List (Option Handle)} {reply : RunReply} (h : Copied q R t.trace cs ins outs reply) :
    ∃ ys, F (q.inputs.map O.value) = some ys ∧ q.Takes ys ∧ (∀ y ∈ ys, y.type.size ≠ 0) ∧
      (q.into = false → cs.map (fun c => O.holds c.reply.value) = ys.map some) ∧
      reply.writes = if q.into then (q.outputs.zip ys).map fun p => ((O.wrapped p.1).1, p.2.bytes)
        else [] := by
  obtain ⟨session, options, inNames, outNames, hev⟩ := h.run
  obtain ⟨-, houts, hnone, hreply⟩ := called hr ht hc hq hserves hev
  cases hF : F (q.inputs.map O.value) with
  | none =>
    rw [hF] at hreply
    have hfailed : reply.status.isSome := hreply
    rw [h.status] at hfailed
    cases hfailed
  | some ys =>
    rw [hF] at hreply
    have hfit := hreply.1.1 h.status
    have htakes := (Slots.fit_iff hq houts).1 hfit
    obtain ⟨hfilled, hwrites⟩ := hreply.2 h.status
    have hvalues : q.into = false → cs.map (fun c => O.holds c.reply.value) = ys.map some := by
      intro hinto
      rw [h.filled hinto, hnone hinto] at hfilled
      obtain ⟨l, hlen, -⟩ := Reachable.knows hr ht hc _ hev
      rw [h.filled hinto, hnone hinto, List.length_map, List.length_replicate] at hlen
      have hys := htakes.1
      refine List.ext_getElem (by simp; omega) fun i h1 h2 => ?_
      have hi : i < cs.length := by simpa using h1
      have hi' : i < ys.length := by simpa using h2
      have := hfilled (none, some cs[i].reply.value, ys[i])
        (List.mem_iff_getElem.2 ⟨i, by simp; omega, by simp⟩) rfl
      simpa using this
    refine ⟨ys, rfl, htakes, fun y hy => ?_, hvalues, ?_⟩
    · cases hinto : q.into with
      | false =>
        -- what a result is made from has passed `tensorSize`
        have hmem : some y ∈ cs.map fun c => O.holds c.reply.value :=
          hvalues hinto ▸ List.mem_map_of_mem hy
        obtain ⟨c, hc, hvalue⟩ := List.mem_map.1 hmem
        rw [← (copied_value hserves h hc hvalue).1]
        have := (h.valid c hc).gives.size.1
        omega
      | true =>
        have hmem : (y.type, y.shape) ∈ q.outputs.map fun x => (x.dtype, x.shape) :=
          htakes.2 hinto ▸ List.mem_map_of_mem hy
        obtain ⟨x, hx, hkind⟩ := List.mem_map.1 hmem
        rw [← (Prod.mk.inj hkind).1]
        exact hq.ready.typed x (List.mem_append_right _ hx)
    · rw [hwrites, houts]
      split
      · exact Slots.writes_wrapped O _ ys
      · exact Slots.writes_replicate _ ys

/-- The results of `Run` are ORT's values. -/
theorem results_run (hserves : ∀ ev ∈ t.trace, O.serves F ev) (halloc : GoAllocated t.trace)
    {R : List Tensor} {cs : List Copy} {ins outs : List (Option Handle)} {reply : RunReply}
    (h : Copied q R t.trace cs ins outs reply)
    (hvalues : cs.map (fun c => O.holds c.reply.value) = ys.map some) (hwrites : reply.writes = []) :
    R.map (O.left t.trace) = ys := by
  have hwritten : written t.trace = cs.map fun c => (c.tensor.data, c.bytes) := by
    rw [h.written, hwrites, List.nil_append]
  have hapart : (cs.map fun c => (c.tensor.data, c.bytes)).Pairwise fun v w =>
      Memory.Apart v.1 v.2.length w.1 w.2.length := by
    have := halloc.apart
    rw [h.storages, List.pairwise_map] at this
    refine List.pairwise_map.2 (this.imp_of_mem fun {c d} hc hd hwords => ?_)
    have hc := (h.valid c hc).bytes
    have hd := (h.valid d hd).bytes
    have hcw := le_words c.reply.bytes
    have hdw := le_words d.reply.bytes
    unfold Memory.Apart
    simp only [Copy.words] at hwords ⊢
    omega
  have hlen : cs.length = ys.length := by simpa using congrArg List.length hvalues
  rw [h.results]
  refine List.ext_getElem (by simpa using hlen) fun i h1 h2 => ?_
  have hi : i < cs.length := by simpa using h1
  have hmem : cs[i] ∈ cs := List.getElem_mem hi
  have hy : O.holds cs[i].reply.value = some ys[i] := by
    have := congrArg (fun l => l[i]?) hvalues
    simpa [hi, h2] using this
  obtain ⟨htype, hshape, hbytes, hsize⟩ := copied_value hserves h hmem hy
  have hread := Memory.read_writeAll (m := O.memory) hapart (List.mem_map_of_mem hmem)
  rw [List.getElem_map, List.getElem_map, left, htype, hshape, hwritten, hsize]
  exact congrArg (Value.mk _ _) (hread.trans hbytes)

/-- An output takes as many bytes as the value that it takes. -/
theorem bytes_eq {x : Tensor} {y : Value} {a n : Nat} (hx : x.Valid a n) (hy : y.Proper)
    (htype : x.dtype = y.type) (hshape : x.shape = y.shape) : y.bytes.length = x.bytes := by
  have := hy.bytes
  unfold Tensor.bytes
  rw [hx.length, hshape, htype, this]
  rfl

/-- Tensors that do not meet are apart, as ORT sees them. -/
theorem apart_of_not_meets {x y : Tensor} (h : ¬Meets x y) :
    Memory.Apart (O.wrapped x).1 x.bytes (O.wrapped y).1 y.bytes ∧
      Memory.Apart (O.wrapped x).1 x.bytes y.data y.bytes := by
  rw [meets_iff] at h
  unfold Memory.Apart wrapped
  by_cases hx : x.bytes = 0
  · omega
  · rw [if_pos hx]
    by_cases hy : y.bytes = 0
    · omega
    · rw [if_pos hy]
      omega

/-- The outputs given to `RunInto` are ORT's values afterwards, and its inputs are what they were. -/
theorem results_into (hq : q.Valid) (hproper : ∀ y ∈ ys, y.Proper) (hinto : q.into = true)
    (htakes : q.Takes ys)
    (hwritten : written t.trace = (q.outputs.zip ys).map fun p => ((O.wrapped p.1).1, p.2.bytes)) :
    q.outputs.map (O.left t.trace) = ys ∧ q.inputs.map (O.left t.trace) = q.inputs.map O.value := by
  obtain ⟨hinputs, houtputs⟩ := overlapping_iff.1 hq.apart
  have hkinds := htakes.2 hinto
  have hlen : q.outputs.length = ys.length := by simpa using congrArg List.length hkinds
  have hkind : ∀ (i : Nat) (h : i < q.outputs.length) (h' : i < ys.length),
      q.outputs[i].dtype = ys[i].type ∧ q.outputs[i].shape = ys[i].shape := by
    intro i h h'
    have := congrArg (fun l => l[i]?) hkinds
    simpa [h, h'] using this
  have hbytes : ∀ (i : Nat) (h : i < q.outputs.length) (h' : i < ys.length),
      ys[i].bytes.length = q.outputs[i].bytes := fun i h h' =>
    bytes_eq (hq.tensors _ (List.mem_append_right _ (List.getElem_mem h)))
      (hproper _ (List.getElem_mem h')) (hkind i h h').1 (hkind i h h').2
  have hapart : ((q.outputs.zip ys).map fun p => ((O.wrapped p.1).1, p.2.bytes)).Pairwise fun v w =>
      Memory.Apart v.1 v.2.length w.1 w.2.length := by
    refine List.pairwise_map.2 (List.pairwise_iff_getElem.2 fun i j hi hj hij => ?_)
    rw [List.length_zip] at hi hj
    rw [List.getElem_zip, List.getElem_zip, hbytes i (by omega) (by omega),
      hbytes j (by omega) (by omega)]
    exact (apart_of_not_meets (O := O) (List.pairwise_iff_getElem.1 houtputs i j _ _ hij)).1
  constructor
  · refine List.ext_getElem (by simpa using hlen) fun i h1 h2 => ?_
    have hi : i < q.outputs.length := by simpa using h1
    have hmem : ((O.wrapped q.outputs[i]).1, ys[i].bytes) ∈
        (q.outputs.zip ys).map fun p => ((O.wrapped p.1).1, p.2.bytes) := by
      refine List.mem_map.2 ⟨(q.outputs[i], ys[i]), List.mem_iff_getElem.2 ⟨i, by simp; omega, by simp⟩, rfl⟩
    have hread := Memory.read_writeAll (m := O.memory) hapart hmem
    rw [hbytes i hi h2] at hread
    rw [List.getElem_map, left, (hkind i hi h2).1, (hkind i hi h2).2, hwritten]
    refine congrArg (Value.mk _ _) ?_
    by_cases hzero : q.outputs[i].bytes = 0
    · have hnil : ys[i].bytes = [] := List.length_eq_zero_iff.1 ((hbytes i hi h2).trans hzero)
      rw [hzero, Memory.read_zero]
      exact hnil.symm
    · rw [wrapped, if_pos hzero] at hread
      exact hread
  · refine List.map_congr_left fun x hx => ?_
    refine congrArg (Value.mk _ _) ?_
    rw [hwritten]
    apply Memory.read_writeAll_of_apart
    intro w hw
    obtain ⟨p, hp, rfl⟩ := List.mem_map.1 hw
    obtain ⟨i, hi, rfl⟩ := List.mem_iff_getElem.1 hp
    rw [List.length_zip] at hi
    rw [List.getElem_zip, hbytes i (by omega) (by omega)]
    exact (apart_of_not_meets (O := O) (hinputs _ (List.getElem_mem _) x hx)).2

end Ort

/-- A run returns normally exactly when what it is to compute is defined and has a place. -/
theorem Reachable.computes {σ : Global} {t : Goroutine} {q : Request} {O : Ort} {F : ModelFn}
    (hr : system.Reachable σ) (ht : t ∈ σ.threads) (hc : t.call.request = some q) (hq : q.Valid)
    (hF : ∀ xs ys, F xs = some ys → ∀ y ∈ ys, y.type.size ≠ 0 → y.Proper)
    (hserves : ∀ ev ∈ t.trace, O.serves F ev) (halloc : q.into = false → GoAllocated t.trace)
    {ret : Ret} (hret : t.rest = .ret ret) :
    ((∃ R, ret = .ofRun q.into (.ok R)) ↔ ∃ ys, F (q.inputs.map O.value) = some ys ∧ q.Takes ys ∧
      ∀ y ∈ ys, y.type.size ≠ 0) ∧
      ∀ R, ret = .ofRun q.into (.ok R) →
        F (q.inputs.map O.value) = some ((q.results R).map (O.left t.trace)) ∧
        (q.into = true → q.inputs.map (O.left t.trace) = q.inputs.map O.value) := by
  obtain ⟨res, hres, hout⟩ := Reachable.outcome hr ht hc hret
  have hok : ∀ R, ret = .ofRun q.into (.ok R) → ∃ R', res = .ok R' ∧ q.results R' = q.results R := by
    intro R hR
    rw [hres] at hR
    unfold Request.results
    cases hinto : q.into with
    | false =>
      rw [hinto] at hR
      exact ⟨R, Ret.tensors.inj hR, rfl⟩
    | true =>
      rw [hinto] at hR
      cases res with
      | error err => cases hR
      | ok R' => exact ⟨R', rfl, rfl⟩
  have hcalled : ∀ R, res = .ok R → ∃ ys, F (q.inputs.map O.value) = some ys ∧ q.Takes ys ∧
      (∀ y ∈ ys, y.type.size ≠ 0) ∧ (q.results R).map (O.left t.trace) = ys ∧
      (q.into = true → q.inputs.map (O.left t.trace) = q.inputs.map O.value) := by
    intro R hR
    obtain ⟨cs, ins, outs, reply, hcopied⟩ := (hout.done R hR).copied
    obtain ⟨ys, hys, htakes, hsized, hvalues, hwrites⟩ :=
      Ort.copied_called hr ht hc hq hserves hcopied
    refine ⟨ys, hys, htakes, hsized, ?_⟩
    unfold Request.results
    cases hinto : q.into with
    | false =>
      rw [hinto] at hwrites
      refine ⟨?_, fun h => by cases h⟩
      exact Ort.results_run hserves (halloc hinto) hcopied (hvalues hinto) hwrites
    | true =>
      rw [hinto, if_pos rfl] at hwrites
      have hwritten := hcopied.written
      rw [hwrites, hcopied.into hinto, List.map_nil, List.append_nil] at hwritten
      obtain ⟨houtputs, hinputs⟩ := Ort.results_into hq (fun y hy => hF _ _ hys y hy (hsized y hy))
        hinto htakes hwritten
      exact ⟨houtputs, fun _ => hinputs⟩
  refine ⟨⟨fun h => ?_, fun h => ?_⟩, fun R hR => ?_⟩
  · obtain ⟨R, hR⟩ := h
    obtain ⟨R', hR', -⟩ := hok R hR
    obtain ⟨ys, hys, htakes, hsized, -⟩ := hcalled R' hR'
    exact ⟨ys, hys, htakes, hsized⟩
  · obtain ⟨ys, hys, htakes, hsized⟩ := h
    exact Reachable.succeeded hr ht hc hq.ready
      (Ort.undisturbed hr ht hc hq hserves hys (fun y hy => hF _ _ hys y hy (hsized y hy)) htakes) hret
  · obtain ⟨R', hR', hsame⟩ := hok R hR
    obtain ⟨ys, hys, -, -, hleft, hinputs⟩ := hcalled R' hR'
    rw [← hsame, hleft]
    exact ⟨hys, hinputs⟩

/-- **What a run computes.** -/
theorem run_computes {σ : Global} {t : Goroutine} {q : Request} {O : Ort} {F : ModelFn}
    (hr : system.Reachable σ) (ht : t ∈ σ.threads) (hc : t.call.request = some q) (hq : q.Valid)
    (hF : ∀ xs ys, F xs = some ys → ∀ y ∈ ys, y.type.size ≠ 0 → y.Proper)
    (hserves : ∀ ev ∈ t.trace, O.serves F ev) (halloc : q.into = false → GoAllocated t.trace)
    {ret : Ret} (hret : t.rest = .ret ret) :
    ((∃ R, ret = .ofRun q.into (.ok R)) ↔ ∃ ys, F (q.inputs.map O.value) = some ys ∧ q.Takes ys ∧
      ∀ y ∈ ys, y.type.size ≠ 0) ∧
      ∀ R, ret = .ofRun q.into (.ok R) →
        F (q.inputs.map O.value) = some ((q.results R).map (O.left t.trace)) ∧
        (q.into = true → q.inputs.map (O.left t.trace) = q.inputs.map O.value) :=
  Reachable.computes hr ht hc hq hF hserves halloc hret

end

namespace Sample

/-- The address `a` holds `a`. -/
def cells : Memory UInt8 := fun a => UInt8.ofNat a

/-- The scalar at 8192. -/
def number : Value := ⟨⟨1⟩, [], [0, 1, 2, 3]⟩

/-- A model that yields its input. -/
def echo : ModelFn := fun xs => if xs = [number] then some xs else none

/-- What a run has made the value `h` of. -/
def wrapsIn (tr : Trace) (h : Handle) : Option (Nat × Value) :=
  tr.findSome? fun ev => match ev with
    | ⟨.nat (.createTensorWithDataAsOrtValue _ data bytes shape _ type), .ok v⟩ =>
      if v = h then some (data, ⟨DataType.ofCode type, shape, cells.read data bytes⟩) else none
    | _ => none

def ort (tr : Trace) : Ort := ⟨cells, wrapsIn tr, fun _ => some number⟩

/-- ORT runs `echo`: its own value is at 12288. -/
def echoing (σ : Global) (i : Nat) (e : Op) : Option e.Resp :=
  match e with
  | .nat (.run _ _ _ _ _ outs) =>
    some ⟨none, outs.map fun v => if v.isSome then none else some 700, false,
      if outs.all Option.isSome then [(16388, [0, 1, 2, 3])] else []⟩
  | .nat (.getTensorMutableData _) => some (.ok 12288)
  | .mem (.load p n) => some (cells.read p n)
  | e => reply σ i e

/-- A call of `Run`, and one of `RunInto` with an output that holds something else. -/
def echoed : List Cue :=
  loaded false ++ [.start (.run (session false) ctx [scalar 8192]), .steps 2 36 echoing,
    .start (.runInto (session false) ctx [scalar 16388] [scalar 8192]), .steps 3 27 echoing]

def allocating : Goroutine := (system.played echoed).threads.get ⟨2, by decide +kernel⟩

theorem allocating_mem : allocating ∈ (system.played echoed).threads := List.get_mem _ _

/-- What it has returned, and where it has put it. -/
theorem allocating_made : allocating.call = .run (session false) ctx [scalar 8192] ∧
    allocating.rest.value.bind Ret.results = some [scalar 2303] ∧ GoAllocated allocating.trace := by
  obtain ⟨hcall, hvalue, hs⟩ : allocating.call = .run (session false) ctx [scalar 8192] ∧
      allocating.rest.value.bind Ret.results = some [scalar 2303] ∧
      storages allocating.trace = [(2303, 1)] := by
    decide +kernel
  exact ⟨hcall, hvalue, by constructor <;> simp [hs, Platform.bits]⟩

theorem allocating_served : ∀ ev ∈ allocating.trace, (ort allocating.trace).serves echo ev := by
  decide +kernel

def filling : Goroutine := (system.played echoed).threads.get ⟨3, by decide +kernel⟩

theorem filling_mem : filling ∈ (system.played echoed).threads := List.get_mem _ _

def fillingDone : Returned filling (.runInto (session false) ctx [scalar 16388] [scalar 8192]) :=
  .of (by decide +kernel)

theorem filling_served : ∀ ev ∈ filling.trace, (ort filling.trace).serves echo ev := by decide +kernel

/-- A request for the run of the model, with or without an output. -/
def asking (into : Bool) : Request :=
  ⟨session false, ctx, [scalar 8192], if into then [scalar 16388] else [], into, fun h => by rw [h]; rfl⟩

theorem scalar_bytes (p : Nat) : (scalar p).bytes = 4 := rfl

theorem scalar_data (p : Nat) : (scalar p).data = p := rfl

theorem scalar_valid {p : Nat} (hp : p ≠ 0) : (scalar p).Valid (scalar p).data (scalar p).bytes where
  supported := List.mem_cons_self
  dims := List.forall_mem_nil _
  length := rfl
  fits := show (4 : Int) ≤ maxInt by decide
  data := rfl
  nonnil _ := hp
  storage := show (4 : Int) ≤ 4 by decide

theorem asking_valid (into : Bool) : (asking into).Valid where
  inputs := rfl
  outputs := by
    intro hinto
    obtain rfl : into = true := hinto
    rfl
  tensors := by cases into <;> simp [Request.tensors, asking, scalar_valid]
  ends := by cases into <;> decide
  apart := by
    rw [overlapping_iff]
    cases into <;> simp [asking, meets_iff, scalar_bytes, scalar_data]

theorem echo_proper : ∀ xs ys, echo xs = some ys → ∀ y ∈ ys, y.type.size ≠ 0 → y.Proper := by
  intro xs ys h y hy _
  unfold echo at h
  split at h
  next hxs =>
    obtain rfl := Option.some.inj h
    rw [hxs] at hy
    obtain rfl := List.mem_singleton.1 hy
    decide
  next => cases h

end Sample

open Sample in
theorem run_computes_sample :
    [scalar 16388].map (ort filling.trace).value = [⟨⟨1⟩, [], [4, 5, 6, 7]⟩] ∧
    [scalar 16388].map ((ort filling.trace).left filling.trace) = [number] := by
  refine ⟨by decide, ?_⟩
  obtain ⟨hcall, ret, hret⟩ := fillingDone
  obtain ⟨hiff, hresults⟩ := run_computes (q := asking true) (System.played_reachable echoed)
    filling_mem (by rw [hcall]; rfl) (asking_valid true) echo_proper filling_served
    (fun h => by cases h) hret
  have hdefined : echo ((asking true).inputs.map (ort filling.trace).value) = some [number] := by decide
  obtain ⟨R, hR⟩ := hiff.2 ⟨[number], hdefined, ⟨rfl, fun _ => rfl⟩, by decide⟩
  exact Option.some.inj ((hresults R hR).1.symm.trans hdefined)

end Onnxcraft
