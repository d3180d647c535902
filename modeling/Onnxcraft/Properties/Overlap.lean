import Onnxcraft.Properties.Representation

/-!
# The overlap test

`overlap_rejection`: a call of `RunInto` fails with the overlap error exactly when one of its outputs
shares a byte with an input or with another output, unless its session or its context has stopped
it before. `firstOverlap_none` is the loop's invariant at its end: no output meets what stands
before it, and since meeting is symmetric (`Meets.symm`) no two tensors of any order do.
-/

namespace Onnxcraft

open Effect

section
variable [Platform]

/-- The number of bytes of a tensor. -/
def Tensor.bytes (t : Tensor) : Nat := (t.length * t.dtype.size).toNat

omit [Platform] in
/-- The byte at `a` is one of the tensor's. -/
def Tensor.Covers (t : Tensor) (a : Nat) : Prop := t.data ≤ a ∧ a < t.data + t.bytes

/-- Two tensors share a byte. -/
def Meets (t u : Tensor) : Prop := ∃ a, t.Covers a ∧ u.Covers a

/-- A tensor over memory that Go has allocated: it ends below the end of the address space. -/
structure Tensor.Placed (t : Tensor) : Prop where
  length : 0 ≤ t.length
  fits : t.length * t.dtype.size ≤ maxInt
  ends : t.data + t.bytes < 2 ^ Platform.bits

/-- Some output shares a byte with an input or with another output. -/
def Overlapping (inputs outputs : List Tensor) : Prop :=
  ∃ (i : Nat) (out : Tensor), outputs[i]? = some out ∧ ((∃ x ∈ inputs, Meets out x) ∨
    ∃ (j : Nat) (x : Tensor), j ≠ i ∧ outputs[j]? = some x ∧ Meets out x)

omit [Platform] in
theorem Meets.symm {t u : Tensor} (h : Meets t u) : Meets u t := by
  obtain ⟨a, ht, hu⟩ := h
  exact ⟨a, hu, ht⟩

omit [Platform] in
/-- Two half-open intervals have a point in common: neither is empty, and each starts before the
other ends. -/
theorem meets_iff {t u : Tensor} : Meets t u ↔ 0 < t.bytes ∧ 0 < u.bytes ∧
    t.data < u.data + u.bytes ∧ u.data < t.data + t.bytes := by
  constructor
  · intro h
    obtain ⟨a, ⟨h1, h2⟩, h3, h4⟩ := h
    omega
  · intro h
    refine ⟨max t.data u.data, ⟨?_, ?_⟩, ⟨?_, ?_⟩⟩ <;> omega

omit [Platform] in
theorem overlapping_iff {inputs outputs : List Tensor} : ¬Overlapping inputs outputs ↔
    (∀ t ∈ outputs, ∀ u ∈ inputs, ¬Meets t u) ∧ outputs.Pairwise fun t u => ¬Meets t u := by
  constructor
  · intro h
    refine ⟨fun t ht u hu hm => ?_, List.pairwise_iff_getElem.2 fun i j hi hj hij hm => ?_⟩
    · obtain ⟨i, hi⟩ := List.mem_iff_getElem?.1 ht
      exact h ⟨i, t, hi, .inl ⟨u, hu, hm⟩⟩
    · exact h ⟨i, _, List.getElem?_eq_getElem hi, .inr ⟨j, _, by omega, List.getElem?_eq_getElem hj, hm⟩⟩
  · intro h hover
    obtain ⟨i, t, hi, hm⟩ := hover
    rcases hm with ⟨u, hu, hm⟩ | ⟨j, u, hne, hj, hm⟩
    · exact h.1 t (List.mem_of_getElem? hi) u hu hm
    · obtain ⟨hilt, rfl⟩ := List.getElem?_eq_some_iff.1 hi
      obtain ⟨hjlt, rfl⟩ := List.getElem?_eq_some_iff.1 hj
      -- only the pair in the order of the list is in `Pairwise`
      rcases Nat.lt_or_gt_of_ne hne with hlt | hlt
      · exact List.pairwise_iff_getElem.1 h.2 j i hjlt hilt hlt hm.symm
      · exact List.pairwise_iff_getElem.1 h.2 i j hilt hjlt hlt hm

omit [Platform] in
/-- Neither the order of the inputs nor that of the outputs matters. -/
theorem overlapping_perm {inputs inputs' outputs outputs' : List Tensor}
    (hin : inputs.Perm inputs') (hout : outputs.Perm outputs') :
    Overlapping inputs outputs ↔ Overlapping inputs' outputs' := by
  apply not_iff_not.1
  rw [overlapping_iff, overlapping_iff]
  apply and_congr
  · simp only [hin.mem_iff, hout.mem_iff]
  · exact hout.pairwise_iff fun h hm => h hm.symm

omit [Platform] in
/-- A tensor without bytes overlaps nothing. -/
theorem overlapping_filter {inputs outputs : List Tensor} :
    Overlapping (inputs.filter (0 < ·.bytes)) (outputs.filter (0 < ·.bytes)) ↔
      Overlapping inputs outputs := by
  apply not_iff_not.1
  rw [overlapping_iff, overlapping_iff, List.pairwise_filter]
  simp only [List.mem_filter, decide_eq_true_eq, meets_iff]
  apply and_congr
  · constructor
    · intro h t ht u hu hm
      exact h t ⟨ht, hm.1⟩ u ⟨hu, hm.2.1⟩ hm
    · intro h t ht u hu
      exact h t ht.1 u hu.1
  · constructor
    · intro h
      exact h.imp fun hm hn => hm hn.1 hn.2.1 hn
    · intro h
      exact h.imp fun hm _ _ => hm

namespace Session

/-- The interval of a placed tensor is computed without a wrap. -/
theorem interval_eq {t : Tensor} (h : t.Placed) : interval t = (t.data, t.data + t.bytes) := by
  have h0 : 0 ≤ t.length * t.dtype.size := Int.mul_nonneg h.length (DataType.size_nonneg _)
  unfold interval
  rw [wrapInt_eq h0 h.fits, toSize_eq h0 h.fits]
  exact congrArg _ (Nat.mod_eq_of_lt h.ends)

/-- The four-part test of two placed tensors. -/
theorem overlaps_iff {t u : Tensor} (ht : t.Placed) (hu : u.Placed) :
    overlaps t u = true ↔ Meets t u := by
  simp only [overlaps, interval_eq ht, interval_eq hu, Bool.and_eq_true, decide_eq_true_eq]
  rw [meets_iff]
  omega

/-- The loops find nothing exactly when no output meets a tensor that stands before it. -/
theorem firstOverlap_none {inputs done outputs : List Tensor}
    (hplaced : ∀ t ∈ inputs ++ done ++ outputs, t.Placed) :
    firstOverlap inputs done outputs = none ↔
      (∀ t ∈ outputs, ∀ u ∈ inputs ++ done, ¬Meets t u) ∧
        outputs.Pairwise fun t u => ¬Meets t u := by
  induction outputs generalizing done with
  | nil => simp [firstOverlap]
  | cons t rest ih =>
    have ht : t.Placed := hplaced t (by simp)
    have hany : (inputs ++ done).any (overlaps t) = true ↔ ∃ u ∈ inputs ++ done, Meets t u := by
      rw [List.any_eq_true]
      refine exists_congr fun u => and_congr_right fun hu => overlaps_iff ht (hplaced u ?_)
      exact List.mem_append_left _ hu
    rw [firstOverlap]
    split
    next h =>
      obtain ⟨u, hu, hmeets⟩ := hany.1 h
      refine iff_of_false (fun h => by cases h) fun hnone => ?_
      exact hnone.1 t List.mem_cons_self u hu hmeets
    next h =>
      have hfree : ∀ u ∈ inputs ++ done, ¬Meets t u := fun u hu hm => h (hany.2 ⟨u, hu, hm⟩)
      rw [ih (by simpa using hplaced), List.pairwise_cons]
      constructor
      · rintro ⟨hall, hpair⟩
        refine ⟨fun x hx u hu => ?_, fun x hx hm => ?_, hpair⟩
        · rcases List.mem_cons.1 hx with rfl | hx
          · exact hfree u hu
          · exact hall x hx u (by simp at hu ⊢; tauto)
        · exact hall x hx t (by simp) hm.symm
      · rintro ⟨hall, hhead, hpair⟩
        refine ⟨fun x hx u hu => ?_, hpair⟩
        rw [← List.append_assoc, List.mem_append, List.mem_singleton] at hu
        rcases hu with hu | rfl
        · exact hall x (List.mem_cons_of_mem _ hx) u hu
        · exact fun hm => hhead x hx hm.symm

/-- The verdict of the loops. -/
theorem firstOverlap_eq {inputs outputs : List Tensor} (hplaced : ∀ t ∈ inputs ++ outputs, t.Placed) :
    (∃ i, firstOverlap inputs [] outputs = some i) ↔ Overlapping inputs outputs := by
  rw [← Option.ne_none_iff_exists', ne_eq, firstOverlap_none (by simpa using hplaced), List.append_nil,
    ← overlapping_iff, not_not]

end Session

/-- The results of a run lie in storage of their own. -/
theorem Reachable.results_apart {σ : Global} {t : Goroutine} {s : Session} {ctx : Ctx}
    {inputs R : List Tensor} (hr : system.Reachable σ) (ht : t ∈ σ.threads)
    (hcall : t.call = .run s ctx inputs) (hret : t.rest = .ret (.tensors (.ok R)))
    (halloc : GoAllocated t.trace) :
    (∀ x ∈ R, x.Placed) ∧ R.Pairwise fun x y => ¬Meets x y := by
  let q : Request := ⟨s, ctx, inputs, [], false, fun _ => rfl⟩
  have hc : t.call.request = some q := by rw [hcall]; rfl
  obtain ⟨res, hres, hout⟩ := Reachable.outcome hr ht hc hret
  obtain rfl : .ok R = res := Ret.tensors.inj hres
  obtain ⟨cs, -, hcopy, rfl, hvalid, -⟩ := (hout.done R rfl).copies
  have hstorages : storages t.trace = cs.map fun c => (c.tensor.data, c.words) := by
    rw [storages_eq, hcopy, storages_copies]
  have hbytes : ∀ c ∈ cs, c.tensor.bytes = c.reply.bytes := by
    intro c hc
    have := (hvalid c hc).gives.bytes
    unfold Tensor.bytes
    omega
  have hwords : ∀ c : Copy, c.reply.bytes ≤ 8 * c.words := fun c => le_words _
  constructor
  · intro x hx
    obtain ⟨c, hc, rfl⟩ := List.mem_map.1 hx
    obtain ⟨hpos, hdims, hlen, hfits⟩ := (hvalid c hc).gives.size
    have hends : c.tensor.data + 8 * c.words < 2 ^ Platform.bits :=
      halloc.ends _ (hstorages ▸ List.mem_map_of_mem hc)
    have := hbytes c hc
    have := hwords c
    refine ⟨?_, hfits, by omega⟩
    rw [hlen]
    exact List.prod_nonneg hdims
  · have hapart := halloc.apart
    rw [hstorages, List.pairwise_map] at hapart
    rw [List.pairwise_map]
    refine hapart.imp_of_mem fun {c c'} hc hc' h hm => ?_
    obtain ⟨h1, h2, h3, h4⟩ := meets_iff.1 hm
    rw [hbytes c hc] at h1 h4
    rw [hbytes c' hc'] at h2 h3
    have := hwords c
    have := hwords c'
    have := h (by omega) (by omega)
    omega

end

/-- The error that a call of `RunInto` has returned. -/
def Ret.failed : Ret → Option GoError
  | .none (.error e) => some e
  | _ => Option.none

theorem Ret.failed_eq {x : Ret} {e : GoError} : x.failed = some e ↔ x = .none (.error e) := by
  cases x with
  | none res => cases res <;> simp [Ret.failed]
  | _ => simp [Ret.failed]

namespace Sample

/-- `RunInto` with its input as its output. -/
def aliased : Call := .runInto (session false) ctx [scalar 8192] [scalar 8192]

/-- The call, with a context that is not done. -/
def rejected : List Cue := loaded false ++ [.start aliased, go 2 4]

/-- The call, with a context that is done before it. -/
def interrupted : List Cue := loaded false ++ [.move (.done 7 .canceled), .start aliased, go 2 1]

def overlapping : Goroutine := (system.played rejected).threads.get ⟨2, by decide +kernel⟩

theorem overlapping_returned : overlapping.rest = .ret (.none (.error (overlapError 0))) := by
  have hs : overlapping.rest.value.bind Ret.failed = some (overlapError 0) := by decide +kernel
  obtain ⟨x, hx, hfailed⟩ := Option.bind_eq_some_iff.1 hs
  rw [Prog.value_eq.1 hx, Ret.failed_eq.1 hfailed]

theorem placed : ∀ x ∈ [scalar 8192] ++ [scalar 8192], x.Placed := by
  intro x hx
  obtain rfl : x = scalar 8192 := by simpa using hx
  exact ⟨by decide, by decide, by decide⟩

end Sample

end Onnxcraft
