import Onnxcraft.Properties.Closing
import Onnxcraft.Properties.Overlap
import Onnxcraft.Protocol.Buffers
import Onnxcraft.Protocol.Entry

/-!
# What enters native execution

`native_entry`: a call that is about to enter `oc_run` or `oc_run_into` has passed every check
(`Request.Enters`), a call that returns without entering either has failed and has given its locks,
its token and its buffer back, and no call is ever about to index out of range.
-/

namespace Onnxcraft

open Effect

section
variable [Platform] {σ : Global} {t : Goroutine} {q : Request}

/-- The descriptor of a tensor: what the tensor says, without a wrap when the tensor is valid. -/
structure DescribedBy (x : Tensor) (d : OcTensor) : Prop where
  data : d.data = x.data
  shape : d.shape = x.shape
  rank : d.rank = x.shape.length
  type : d.type = x.dtype.val.toNat
  value : d.value = none
  bytes : ∀ addr n, x.Valid addr n → (d.bytes : Int) = x.length * x.dtype.size
  nonnil : ∀ addr n, x.Valid addr n → 0 < d.bytes → d.data ≠ 0

/-- What holds when a call enters native execution of `n`, with `p` left to do. -/
structure Request.Enters (q : Request) (σ : Global) (n : OcSession) (p : Act Ret) : Prop where
  opened : ∃ st, σ.world.sessions[q.s.id]? = some st ∧ st.sess = q.s ∧ st.native = some n
  inputs : q.inputs.length = q.s.inputs.length
  outputs : q.into = true → q.outputs.length = q.s.outputs.length
  supported : ∀ x ∈ q.tensors, x.dtype ∈ DataType.supported
  apart : Session.firstOverlap q.inputs [] q.outputs = none
  disjoint : (∀ x ∈ q.tensors, x.Placed) → ¬Overlapping q.inputs q.outputs
  begins : ∃ (options : Option Handle) (descs : List OcTensor), descs.length = q.ports ∧
    (∀ (j : Nat) (x : Tensor), q.tensors[j]? = some x → ∃ d, descs[j]? = some d ∧ DescribedBy x d) ∧
    (if q.into then Begins (cgo (.ocRunInto n)
        (Bridge.ocRunInto n options descs (descs.drop q.s.inputs.length))) p
      else Begins (cgo (.ocRun n)
        (Bridge.ocRun n options descs (descs.drop q.s.inputs.length))) p)

/-- The operation may write output bytes. -/
def Op.Writes : Op → Prop
  | .mem (.store _ _) | .nat (.run _ _ _ _ _ _) => True
  | _ => False

theorem described (x : Tensor) : DescribedBy x (Session.descriptor x) := by
  have hbytes : ∀ addr n, x.Valid addr n →
      ((Session.descriptor x).bytes : Int) = x.length * x.dtype.size := by
    intro addr n h
    have hlen : 0 ≤ x.length := by
      rw [h.length]
      exact List.prod_nonneg h.dims
    have h0 : 0 ≤ x.length * x.dtype.size := Int.mul_nonneg hlen (DataType.size_nonneg _)
    unfold Session.descriptor
    dsimp only
    rw [wrapInt_eq h0 h.fits, toSize_eq h0 h.fits]
    omega
  refine ⟨rfl, rfl, rfl, rfl, rfl, hbytes, fun addr n h hpos => h.nonnil ?_⟩
  have := hbytes addr n h
  by_contra hlen
  have h0 : x.length = 0 := by
    have : 0 ≤ x.length := by
      rw [h.length]
      exact List.prod_nonneg h.dims
    omega
  rw [h0, Int.zero_mul] at this
  omega

/-- What the bridge is handed for a request that may be handed to it. -/
theorem Request.Ready.descriptors_length (h : q.Ready) : q.descriptors.length = q.ports := by
  have hT := h.tensors
  unfold Request.descriptors
  unfold Request.ports at *
  simp only [List.length_append, List.length_map, List.length_replicate]
  split at hT <;> omega

/-- The events of a run that has not entered native execution. -/
theorem Reachable.outside (hr : system.Reachable σ) (ht : t ∈ σ.threads)
    (hc : t.call.request = some q) (hno : noted .entry t.trace = []) :
    ∀ ev ∈ t.trace, ¬ev.1.Writes := by
  intro ev hev hw
  obtain ⟨pre, post, htr⟩ := List.append_of_mem hev
  have hnone : noted .entry (marked Op.Noted pre) = [] := by
    rw [htr, noted_append] at hno
    rw [noted_marked]
    exact (List.append_eq_nil_iff.1 hno).1
  obtain ⟨e, a⟩ := ev
  cases e with
  | mem o =>
    cases o with
    | store p bs => exact (Reachable.may hr ht hc htr (by rfl)).2 hnone
    | _ => exact hw
  | nat o =>
    cases o with
    | run => exact (Reachable.may hr ht hc htr (by rfl)).1 hnone
    | _ => exact hw
  | _ => exact hw

/-- A call that is about to enter native execution. -/
theorem Reachable.enters (hr : system.Reachable σ) (ht : t ∈ σ.threads)
    (hc : t.call.request = some q) {n : OcSession} (he : t.rest.next = some (.enter (.ocRun n)) ∨
      t.rest.next = some (.enter (.ocRunInto n))) : q.Enters σ n t.rest := by
  have hi := Reachable.inv hr
  have hmem := Reachable.held_mem ht
  -- the protocol of the log
  have hmay : q.Ready ∧ noted .entry (marked Op.Noted t.trace) = [] := by
    rcases he with he | he
    · exact (Reachable.may_next hr ht hc he (by rfl)).2
    · exact (Reachable.may_next hr ht hc he (by rfl)).2
  obtain ⟨hready, hnone⟩ := hmay
  -- the protocol of the call
  have hpre : (held t).seen = some n ∧ (held t).read.isSome := by
    have hwp := Reachable.wp hr ht
    rcases he with he | he <;> obtain ⟨k, hk⟩ := Prog.next_eq.1 he <;> rw [hk] at hwp
    · exact ⟨hwp.1.2.1, hwp.1.2.2.1⟩
    · exact ⟨hwp.1.2.1, hwp.1.2.2.1⟩
  obtain ⟨s, st, hs, hst, hnat, -, -⟩ := Reachable.reader hr ht hpre.1 hpre.2
  obtain rfl : s = q.s := by
    rw [Call.request_session hc] at hs
    exact (Option.some.inj hs).symm
  obtain ⟨st', hst', hsess⟩ := (hi.knows _ hmem).session q.s (by rw [Reachable.call hr ht, hs])
  obtain rfl : st = st' := by
    rw [hst] at hst'
    exact Option.some.inj hst'
  have hentering : q.Entering Ret t.rest (marked Op.Noted t.trace) := by
    rcases he with he | he
    · exact Reachable.entering hr ht hc he (by rfl)
    · exact Reachable.entering hr ht hc he (by rfl)
  obtain ⟨n', options, hbegins⟩ := hentering hnone
  -- what follows determines the native session
  have hn : n' = n := by
    rcases hbegins with ⟨-, k, hk⟩ | ⟨-, k, hk⟩ <;> rw [hk] at he <;>
      rcases he with he | he <;> cases he <;> rfl
  subst hn
  refine ⟨⟨st, hst, hsess, hnat⟩, hready.inputs, hready.outputs,
    fun x hx => DataType.size_ne_zero.1 (hready.typed x hx), hready.apart, fun hplaced hover => ?_,
    options, q.descriptors, hready.descriptors_length, fun j x hx => ⟨_, Request.descriptors_get hx,
      described x⟩, ?_⟩
  · obtain ⟨i, hi⟩ := (Session.firstOverlap_eq hplaced).2 hover
    rw [hready.apart] at hi
    cases hi
  · rcases hbegins with ⟨hinto, h⟩ | ⟨hinto, h⟩
    · simpa [hinto] using h
    · simpa [hinto] using h

/-- **Entering native execution.** -/
theorem native_entry (hr : system.Reachable σ) (ht : t ∈ σ.threads) (hc : t.call.request = some q) :
    (∀ n, t.rest.next = some (.enter (.ocRun n)) → q.into = false ∧ q.Enters σ n t.rest) ∧
    (∀ n, t.rest.next = some (.enter (.ocRunInto n)) → q.into = true ∧ q.Enters σ n t.rest) ∧
    (∀ ret, t.rest = .ret ret →
      (∀ n, ⟨.enter (.ocRun n), ()⟩ ∉ t.trace ∧ ⟨.enter (.ocRunInto n), ()⟩ ∉ t.trace) →
      (∃ err, ret = .ofRun q.into (.error err)) ∧ (∀ ev ∈ t.trace, ¬ev.1.Writes) ∧
      rLocks q.s.id t.trace = rUnlocks q.s.id t.trace ∧
      tokensSent q.s.id t.trace = tokensReceived q.s.id t.trace ∧
      (∀ i, bufferGets i t.trace = bufferPuts i t.trace) ∧
      ∀ (b : Buffer) (a : Unit), ⟨.pool (.put b), a⟩ ∈ t.trace → b.Clean) ∧
    ∀ f, t.rest.next ≠ some (.fault f) := by
  refine ⟨fun n he => ⟨?_, Reachable.enters hr ht hc (.inl he)⟩,
    fun n he => ⟨?_, Reachable.enters hr ht hc (.inr he)⟩, fun ret hret hno => ?_, fun f hf => ?_⟩
  · exact (Reachable.may_next hr ht hc he (by rfl)).1
  · exact (Reachable.may_next hr ht hc he (by rfl)).1
  · have hnone : noted .entry t.trace = [] := by
      apply List.filter_eq_nil_iff.2
      intro ev hev
      simp only [decide_eq_true_eq]
      intro hnote
      obtain ⟨e, a⟩ := ev
      cases e with
      | enter f =>
        cases f with
        | ocRun n => exact (hno n).1 hev
        | ocRunInto n => exact (hno n).2 hev
        | _ => cases hnote
      | mem o => cases o <;> cases hnote
      | nat o => cases o <;> cases hnote
      | sess s o => cases o <;> cases hnote
      | _ => cases hnote
    obtain ⟨res, hres, hout⟩ := Reachable.outcome hr ht hc hret
    have hv := Reachable.valid hr ht
    have hidle := (Reachable.ends hr ht hret).idle
    refine ⟨?_, Reachable.outside hr ht hc hnone, ?_, ?_, fun i => ?_, fun b a => put_clean hv⟩
    · cases res with
      | error err => exact ⟨err, hres⟩
      | ok R =>
        -- a successful run has entered
        obtain ⟨pre, n, cs, l₁, -, hans, hl, -, -⟩ := (hout.done R rfl).log
        obtain ⟨reply, l₂, -, ⟨hs, _, _, _, _, _, _, -, rfl⟩, rfl, -⟩ := hans.log
        have : noted .entry (marked Op.Noted t.trace) ≠ [] := by
          rw [hl]
          cases q.into <;> simp [Op.note]
        exact absurd (noted_marked .entry t.trace ▸ hnone) this
    · have := rLocks_eq hv q.s.id
      rwa [show protocol.after t.trace (Held.start t.call) = held t from rfl, hidle.read,
        if_neg (by simp), add_zero] at this
    · have := tokens_eq hv q.s.id
      rwa [show protocol.after t.trace (Held.start t.call) = held t from rfl, hidle.gate,
        if_neg (by simp), add_zero] at this
    · have := buffers_eq hv i
      rwa [show protocol.after t.trace (Held.start t.call) = held t from rfl, hidle.buffer,
        if_neg (by simp), add_zero] at this
  · obtain ⟨k, hk⟩ := Prog.next_eq.1 hf
    have hwp := Reachable.wp hr ht
    rw [hk] at hwp
    exact hwp.1

end

namespace Sample

/-- The run of the model, about to enter native execution. -/
def entering : List Cue := loaded false ++ [.start (.run (session false) ctx [scalar 8192]), go 2 11]

def entrant : Goroutine := (system.played entering).threads.get ⟨2, by decide +kernel⟩

theorem asked_nil (_ : false = false) : ([] : List Tensor) = [] := rfl

/-- Its request. -/
def asked : Request := ⟨session false, ctx, [scalar 8192], [], false, asked_nil⟩

/-- The native session that it has read. -/
def seen : OcSession := (held entrant).seen.get (by decide +kernel)

end Sample

open Sample in
theorem native_entry_sample : asked.Enters (system.played entering) seen entrant.rest :=
  have hcall : entrant.call = .run (session false) ctx [scalar 8192] := by decide +kernel
  have hc : entrant.call.request = some asked := by rw [hcall]; rfl
  ((native_entry (System.played_reachable entering) (List.get_mem _ _) hc).1 seen
    (by decide +kernel)).2

end Onnxcraft
