import Onnxcraft.Properties.Binding
import Onnxcraft.Properties.Counts

/-!
# Loading is all or nothing

`load_all_or_nothing`: a load that returns a session has raised the reference count once, has made
one session, and owns of what it has acquired the native session alone, with a name for each of its
ports, all of them dense tensors of a supported type. A load that returns an error has changed
nothing of its runtime and has released everything.
-/

namespace Onnxcraft

open Effect

/-- The operation changes what a runtime is, not only who holds its mutex. -/
def RtOp.Writes : RtOp → Bool
  | .incRefs | .decRefs _ | .setClosed | .clearNative => true
  | _ => false

/-- The event changes a runtime. -/
def writes (ev : Event Op Op.Resp) : Bool := match ev.1 with | .rt _ o => o.Writes | _ => false

/-- The event makes a session, or a runtime. -/
def makes (ev : Event Op Op.Resp) : Bool :=
  match ev.1 with | .newSession _ _ _ _ _ | .newRuntime _ => true | _ => false

/-- The element types that a session's ports may have. -/
def ElementType.supported : List ElementType :=
  [.float, .uint8, .int8, .uint16, .int16, .int32, .int64, .bool, .float16, .double, .uint32, .uint64,
    .bfloat16]

/-- The element types that have a size are the supported ones. -/
theorem ElementType.supported_iff (t : ElementType) :
    (DataType.ofCode t.code).size ≠ 0 ↔ t ∈ supported := by
  cases t <;> decide

section
variable {tr l : Trace}

theorem writes_logged {ev : Event Op Op.Resp} (h : writes ev) : ev.1.Logged := by
  obtain ⟨e, a⟩ := ev
  cases e with
  | rt r o => cases o <;> first | exact .inr rfl | cases h
  | _ => cases h

theorem makes_logged {ev : Event Op Op.Resp} (h : makes ev) : ev.1.Logged := by
  obtain ⟨e, a⟩ := ev
  cases e with
  | newSession r gated n ins outs => exact .inr rfl
  | newRuntime n => exact .inr rfl
  | _ => cases h

theorem gives_logged {ev : Event Op Op.Resp} (h : ¬ev.1.Logged) : gives ev = 0 := by
  obtain ⟨e, a⟩ := ev
  cases e with
  | newSession r gated n ins outs => exact absurd (.inr rfl) h
  | newRuntime n => exact absurd (.inr rfl) h
  | _ => rfl

/-- Queries publish nothing. -/
theorem Queries.published (h : Queries l) : l.filter writes = [] ∧ l.filter makes = [] ∧ given l = 0 := by
  have hev : ∀ ev ∈ l, writes ev = false ∧ makes ev = false ∧ gives ev = 0 := by
    rintro ⟨e, a⟩ hev
    have hstage := h _ hev
    cases e with
    | nat o => exact ⟨rfl, rfl, rfl⟩
    | rt r o => cases o <;> cases hstage
    | _ => cases hstage
  exact ⟨List.filter_eq_nil_iff.2 fun ev h => by simp [(hev ev h).1],
    List.filter_eq_nil_iff.2 fun ev h => by simp [(hev ev h).2.1],
    total_eq_zero_of fun ev h => (hev ev h).2.2⟩

/-- A report is made of queries. -/
theorem PortReport.events_stage {h inputs i : Nat} {q : PortReport} :
    Queries (q.events h inputs i) := by
  intro ev hev
  rcases List.mem_append.1 hev with hev | hev
  · simp only [List.mem_cons, List.not_mem_nil, or_false] at hev
    rcases hev with rfl | rfl | rfl | rfl | rfl | rfl
    · unfold nameEvent
      split <;> rfl
    · unfold typeInfoEvent
      split <;> rfl
    all_goals rfl
  · split at hev
    · rw [List.mem_singleton.1 hev]
      rfl
    · cases hev

/-- The log of a native session that has been loaded. -/
theorem Loaded.queries [Platform] {h m k : Nat} {qs : List PortReport} {n : OcSession}
    (hl : Bridge.Loaded l h m k qs n) : Queries l := by
  rw [hl.log]
  intro ev hev
  rcases List.mem_append.1 hev with hev | hev
  · simp only [List.mem_cons, List.not_mem_nil, or_false] at hev
    rcases hev with rfl | rfl <;> rfl
  obtain ⟨es, hes, hmem⟩ := List.mem_flatten.1 hev
  obtain ⟨i, hi, rfl⟩ := List.mem_mapIdx.1 hes
  exact PortReport.events_stage ev hmem

end

section
variable [Platform] {σ : Global} {t : Goroutine} {r : Nat} {o : SessionOptions}

/-- The ports of a session that fits its metadata are of supported types. -/
theorem OcSession.Matches.typed {n : OcSession} {ins outs : List TensorInfo} (h : n.Matches ins outs) :
    ∀ info ∈ ins ++ outs, info.type.size ≠ 0 := by
  obtain ⟨ports, names, -, -, hinfo, -, hfilled⟩ := h.ports
  rw [← hinfo]
  intro info hmem
  obtain ⟨p, hp, rfl⟩ := List.mem_map.1 hmem
  exact (hfilled p hp).type

/-- **Loading is all or nothing.** -/
theorem load_all_or_nothing (hr : system.Reachable σ) (ht : t ∈ σ.threads)
    (hc : t.call.loadArgs = some (r, o)) :
    (∀ tr tr', t.trace = tr ++ tr' → released tr ≤ acquired tr) ∧
    (∀ f, t.rest.next ≠ some (.fault f)) ∧
    ∀ ret, t.rest = .ret ret →
      (∃ s h m k qs n, ret = .session (.ok s) ∧
        t.trace.filter writes = [⟨.rt r .incRefs, ()⟩] ∧
        t.trace.filter makes = [⟨.newSession r s.gated n s.inputs s.outputs, s.id⟩] ∧
        acquired t.trace = released t.trace + n.resources ∧
        (∀ x : Resource, ¬x.Lasting → (acquired t.trace).count x = (released t.trace).count x) ∧
        n.Matches s.inputs s.outputs ∧ n.handle = some h ∧
        [⟨.nat (.sessionGetInputCount h), .ok m⟩, ⟨.nat (.sessionGetOutputCount h), .ok k⟩] ++
          reportEvents h m qs <+: marked Op.Logged t.trace ∧
        qs.length = m + k ∧ ∀ q ∈ qs, q.type ∈ ElementType.supported) ∨
      (∃ err, ret = .session (.error err)) ∧ t.trace.filter writes = [] ∧ t.trace.filter makes = [] ∧
        acquired t.trace = released t.trace := by
  have hv := Reachable.valid hr ht
  have hcloses : ¬t.call.Closes := by
    cases hcall : t.call with
    | load r path o => exact not_false
    | loadBytes r model o => exact not_false
    | _ => rw [hcall] at hc; cases hc
  refine ⟨?_, ?_, ?_⟩
  · intro tr tr' htr
    rw [htr] at hv
    rw [acquired_eq hv.init hcloses, add_assoc]
    exact Multiset.le_add_right _ _
  · intro f hf
    obtain ⟨k, hk⟩ := Prog.next_eq.1 hf
    have hwp := Reachable.wp hr ht
    rw [hk] at hwp
    exact hwp.1
  intro ret hret
  -- what the call has acquired it has released, or handed over to the session that it has made
  have hlive : (protocol.after t.trace (Held.start t.call)).live = 0 :=
    (Reachable.ends hr ht hret).idle.live
  have hbalance := acquired_eq hv hcloses
  rw [hlive, add_zero, given, ← total_marked (A := Op.Logged) (f := gives) fun ev h => gives_logged h]
    at hbalance
  obtain ⟨res, rfl, hlog⟩ := Reachable.load_log hr ht hc hret
  rw [← filter_marked (A := Op.Logged) (p := writes) fun ev h => writes_logged h,
    ← filter_marked (A := Op.Logged) (p := makes) fun ev h => makes_logged h]
  cases res with
  | error err =>
    obtain ⟨hwrites, hmakes, hgiven⟩ := Queries.published hlog
    refine .inr ⟨⟨err, rfl⟩, hwrites, hmakes, ?_⟩
    rw [hbalance, show total gives (marked Op.Logged t.trace) = 0 from hgiven, add_zero]
  | ok s =>
    obtain ⟨h, m, k, qs, n, l₀, hl, hlog, -, -⟩ := hlog
    obtain ⟨hwrites, hmakes, hgiven⟩ := (Loaded.queries hl).published
    have hev : (⟨.newSession r s.gated n s.inputs s.outputs, s.id⟩ : Event Op Op.Resp) ∈ t.trace :=
      (mem_marked (A := Op.Logged)).1 (by rw [hlog]; simp) |>.1
    have hfits := Reachable.fits hr ht hev
    have htotal : total gives (marked Op.Logged t.trace) = n.resources := by
      rw [hlog, total_append, show total gives l₀ = 0 from hgiven]
      simp [gives]
    rw [htotal] at hbalance
    obtain ⟨hm, hk, hinfos, -⟩ := Loaded.infos hl hfits
    refine .inl ⟨s, h, m, k, qs, n, rfl, ?_, ?_, hbalance, ?_, hfits, hl.handle, ?_, ?_, ?_⟩
    · rw [hlog, List.filter_append, hwrites]
      rfl
    · rw [hlog, List.filter_append, hmakes]
      rfl
    · intro x hx
      rw [hbalance, Multiset.count_add, n.resources_count hx, add_zero]
    · rw [hlog, hl.log]
      exact List.prefix_append _ _
    · have := congrArg List.length hinfos
      simp only [List.length_append, List.length_map] at this
      omega
    · intro q hq
      rw [← ElementType.supported_iff]
      have hmem : q.metadata ∈ s.inputs ++ s.outputs := hinfos ▸ List.mem_map_of_mem hq
      exact hfits.typed _ hmem

end

open Sample in
theorem load_all_or_nothing_sample : loader.trace.filter writes = [⟨.rt 0 .incRefs, ()⟩] := by
  have h := (load_all_or_nothing (System.played_reachable (ran true)) loader_mem (r := 0)
    (o := options true) (by rw [loaderDone.call]; rfl)).2.2 _ loader_returned
  rcases h with ⟨s, -, -, -, -, -, -, hwrites, -⟩ | ⟨⟨err, herr⟩, -⟩
  · exact hwrites
  · cases Ret.session.inj herr

end Onnxcraft
