import Onnxcraft.Model.Arith
import Onnxcraft.Protocol.Native

/-!
# Loading keeps the protocol

`ocLoad_spec`: `oc_load` returns a session that owns everything it has acquired, or has released
all of it. The loop invariant `LoadVars.Ready i`: the first `i` ports are filled, the others as
`calloc` leaves them.
-/

namespace Onnxcraft

open Effect

section
variable [Platform] {g : Held} {L : Multiset Resource}

/-- A port as `oc_load` leaves it. -/
structure OcPort.Loaded (p : OcPort) : Prop where
  name : p.name.isSome
  rank : (p.shape.elim [] (·.slots)).length = p.rank
  bound : p.rank ≤ sizeMax / 8

/-- A session as `oc_load` returns it. -/
structure OcSession.Loaded (s : OcSession) (r : OcRuntime) : Prop where
  runtime : s.runtime = r
  handle : s.handle.isSome
  pos : 0 < s.outputs
  wrap : sizeMod (s.inputs + s.outputs) = s.inputs + s.outputs
  bound : s.inputs + s.outputs ≤ sizeMax / Bridge.portBytes
  ports : ∃ ports names, s.ports = some ports ∧ s.names = some names ∧
    ports.slots.length = s.inputs + s.outputs ∧ names.slots = ports.slots.map (·.name) ∧
    ∀ p ∈ ports.slots, p.Loaded

/-- The ports of a session that is being loaded: one slot for each input and output, of which the
first are filled, one may be being filled and the others are as `calloc` leaves them. -/
structure OcSession.Slotted (s : OcSession) (ports : Arr OcPort) : Prop where
  wrap : sizeMod (s.inputs + s.outputs) = s.inputs + s.outputs
  length : ports.slots.length = s.inputs + s.outputs
  slots : ∃ i : Nat, (∀ j < i, ∀ p, ports.slots[j]? = some p → p.Loaded) ∧
    (∀ p, ports.slots[i]? = some p → p = OcPort.zero ∨ p.name.isSome) ∧
    ∀ j > i, ∀ p, ports.slots[j]? = some p → p = OcPort.zero

/-- The ports of a session that is being loaded, if it has any. -/
def OcSession.Partial (s : OcSession) : Prop := ∀ ports, s.ports = some ports → s.Slotted ports

theorem OcSession.Partial.sized {s : OcSession} (h : s.Partial) : s.Sized := by
  intro ports hports
  have hs := h ports hports
  rw [hs.wrap, hs.length]

namespace Bridge

namespace LoadVars

/-- Everything `fail:` releases. -/
def resources (v : LoadVars) : Multiset Resource := owned .typeInfo v.info + v.s.resources

/-- Before iteration `i` of the loop of `oc_load` over the `n` ports of the session `s`. -/
structure Ready (s : OcSession) (n i : Nat) (v : LoadVars) : Prop where
  same : { v.s with ports := s.ports, names := s.names } = s
  info : v.info = none
  count : sizeMod (v.s.inputs + v.s.outputs) = n
  wrap : v.s.inputs + v.s.outputs = n
  arrays : ∃ ports names, v.s.ports = some ports ∧ v.s.names = some names ∧
    ports.slots.length = n ∧ names.slots.length = n ∧
    (∀ j < i, ∃ p, ports.slots[j]? = some p ∧ names.slots[j]? = some p.name ∧ p.Loaded) ∧
    ∀ j, i ≤ j → j < n → ports.slots[j]? = some OcPort.zero

/-- The variables inside iteration `i`: port `i` is `p`, its name may have been copied, `info` is
pending. -/
def during (v : LoadVars) (i : Nat) (p : OcPort) (name : Option CStr) (info : Option Handle) :
    LoadVars :=
  ⟨(match name with | none => v.setPort i p | some name => (v.setPort i p).setName i name).s, info⟩

variable {v : LoadVars} {s : OcSession} {n i : Nat} {p q : OcPort} {name : Option CStr} {info : Option Handle}

theorem during_start (h : v.Ready s n i) : v.setPort i p = v.during i p none none := by
  rw [← h.info]
  rfl

omit [Platform] in
theorem during_named {c : CStr} {info' : Option Handle} :
    (⟨(v.during i p none info).s, info'⟩ : LoadVars).setName i c = v.during i p (some c) info' := rfl

omit [Platform] in
theorem during_info {info' : Option Handle} :
    (⟨(v.during i p name info).s, info'⟩ : LoadVars) = v.during i p name info' := rfl

omit [Platform] in
theorem during_setPort : (v.during i p name info).setPort i q = v.during i q name info := by
  cases name <;> simp [during, setPort, setName, Function.comp_def]

/-- Inside the iteration, only port `i` and `info` have been added. -/
theorem during_resources (h : v.Ready s n i) (hi : i < n) :
    (v.during i p name info).resources =
      owned .typeInfo info + (p.resources + v.s.resources) := by
  obtain ⟨ports, names, hp, hn, -, -, -, hz⟩ := h.arrays
  have ht : total OcPort.resources (ports.slots.set i p) =
      p.resources + total OcPort.resources ports.slots := by
    have := total_set (f := OcPort.resources) (b := p) (hz i le_rfl hi)
    rwa [show OcPort.zero.resources = 0 from rfl, add_zero, add_comm] at this
  cases name <;>
    simp only [during, setPort, setName, resources, OcSession.resources, portsResources, hp, hn,
      Option.map_some, Option.elim_some, owned_some, ht] <;> abel

/-- Between two iterations. -/
theorem Ready.slotted (h : v.Ready s n i) : v.s.Partial := by
  obtain ⟨ports, names, hp, -, hl, -, hdone, hz⟩ := h.arrays
  intro a ha
  obtain rfl : ports = a := by
    rw [hp] at ha
    exact Option.some.inj ha
  have hzero : ∀ j, i ≤ j → ∀ q, ports.slots[j]? = some q → q = OcPort.zero := by
    intro j hj q hq
    have hjn : j < n := by
      have := (List.getElem?_eq_some_iff.1 hq).1
      omega
    rw [hz j hj hjn] at hq
    exact (Option.some.inj hq).symm
  refine ⟨by rw [h.count, h.wrap], by rw [hl, h.wrap], i, ?_, fun q hq => .inl (hzero i le_rfl q hq),
    fun j hj => hzero j hj.le⟩
  intro j hj q hq
  obtain ⟨q', hq', -, hloaded⟩ := hdone j hj
  rw [hq, Option.some.injEq] at hq'
  exact hq' ▸ hloaded

/-- Inside the iteration, once ORT has named the port. -/
theorem during_slotted (h : v.Ready s n i) (hname : p.name.isSome) :
    (v.during i p name info).s.Partial := by
  obtain ⟨ports, names, hp, hn, hl, -, hdone, hz⟩ := h.arrays
  have hslotted : v.s.Slotted ⟨ports.addr, ports.slots.set i p⟩ := by
    refine ⟨by rw [h.count, h.wrap], by rw [List.length_set, hl, h.wrap], i, ?_, ?_, ?_⟩
    · intro j hj q hq
      rw [List.getElem?_set_ne (Nat.ne_of_gt hj)] at hq
      obtain ⟨q', hq', -, hloaded⟩ := hdone j hj
      rw [hq, Option.some.injEq] at hq'
      exact hq' ▸ hloaded
    · intro q hq
      rw [List.getElem?_set_self'] at hq
      obtain ⟨_, -, rfl⟩ := Option.map_eq_some_iff.1 hq
      exact .inr hname
    · intro j hj q hq
      rw [List.getElem?_set_ne (Nat.ne_of_lt hj)] at hq
      have hjn : j < n := by
        have := (List.getElem?_eq_some_iff.1 hq).1
        omega
      rw [hz j hj.le hjn] at hq
      exact (Option.some.inj hq).symm
  intro a ha
  cases name <;>
  · simp only [during, setPort, setName, hp, Option.map_some, Option.some.injEq] at ha
    subst ha
    exact ⟨hslotted.wrap, hslotted.length, hslotted.slots⟩

/-- The end of the iteration. -/
theorem during_ready (h : v.Ready s n i) (hi : i < n) {c : CStr} (hp : p.Loaded)
    (hc : p.name = some c) : (v.during i p (some c) none).Ready s n (i + 1) := by
  obtain ⟨ports, names, hports, hnames, hlp, hln, hdone, hz⟩ := h.arrays
  refine ⟨h.same, rfl, by simpa [during, setPort, setName] using h.count,
    by simpa [during, setPort, setName] using h.wrap,
    ⟨ports.addr, ports.slots.set i p⟩, ⟨names.addr, names.slots.set i (some c)⟩,
    by simp [during, setPort, setName, hports], by simp [during, setPort, setName, hnames],
    by simpa using hlp, by simpa using hln, fun j hj => ?_, fun j hj hjn => ?_⟩
  · rcases Nat.lt_succ_iff_lt_or_eq.1 hj with hj | rfl
    · obtain ⟨q, hq, hname, hl⟩ := hdone j hj
      refine ⟨q, ?_, ?_, hl⟩
      · simpa [List.getElem?_set, Nat.ne_of_gt hj] using hq
      · simpa [List.getElem?_set, Nat.ne_of_gt hj] using hname
    · exact ⟨p, by simp [hlp, hi], by simp [hln, hi, hc], hp⟩
  · have hne : i ≠ j := by omega
    simpa [List.getElem?_set, hne] using hz j (by omega) hjn

end LoadVars

/-- How the code of `oc_load` reaches `fail:`. -/
def LoadFailed (L : Multiset Resource) (g : Held) (st : OrtStatus) (v : LoadVars) (g' : Held) :
    Prop :=
  v.s.Partial ∧ g' = g.withLive ({.status st.addr} + (v.resources + L))

variable {v : LoadVars} {s : OcSession} {n i : Nat}

theorem during_failed {p : OcPort} {name : Option CStr} {info : Option Handle} {st : OrtStatus}
    {R : Multiset Resource} (h : v.Ready s n i) (hi : i < n) (hname : p.name.isSome)
    (hR : R = owned .typeInfo info + (p.resources + (v.s.resources + L))) :
    LoadFailed L g st (v.during i p name info) (g.withLive ({.status st.addr} + R)) :=
  ⟨LoadVars.during_slotted h hname, by rw [LoadVars.during_resources h hi, hR]; simp only [add_assoc]⟩

theorem ocLoadShape_spec {p : OcPort} {c : CStr} {info tensor : Handle} (h : v.Ready s n i)
    (hi : i < n) (hname : p.name = some c) (hshape : p.shape = none) :
    wpc protocol (ocLoadShape i p tensor)
      (fun res v' g' => match res with
        | .ok _ => ∃ q, v' = v.during i q (some c) (some info) ∧ q.Loaded ∧ q.name = some c ∧
          g' = g.withLive ({.typeInfo info} + (q.resources + (v.s.resources + L)))
        | .error st => LoadFailed L g st v' g')
      (v.during i p (some c) (some info))
      (g.withLive ({.typeInfo info} + (p.resources + (v.s.resources + L)))) := by
  have hp : p.resources = {.name c.addr} := by
    simp only [OcPort.resources, hname, hshape, owned_some, owned_none, add_zero]
  simp only [ocLoadShape, wpc_bind, wpc_lift]
  have halloc : wp protocol (if p.rank > sizeMax / 8 then return none else nat (.malloc (p.rank * 8)))
      (fun addr g' => (addr.isSome → p.rank ≤ sizeMax / 8) ∧
        g' = g.withLive (owned .mem addr + ({.typeInfo info} + (p.resources + (v.s.resources + L)))))
      (g.withLive ({.typeInfo info} + (p.resources + (v.s.resources + L)))) := by
    split
    · exact ⟨by simp, by rw [owned_none, zero_add]⟩
    · exact wp_acquire (by trivial) rfl fun addr _ => ⟨fun _ => by omega, rfl⟩
  refine wp_mono ?_ halloc
  rintro (_ | addr) g' ⟨hb, rfl⟩
  · simp only [owned_none, zero_add, wpc_bind, wpc_lift]
    exact wp_createStatus fun st => during_failed h hi (by simp [hname]) rfl
  simp only [wpc_bind, wpc_modify, LoadVars.during_setPort]
  have hq : ∀ dims, { p with shape := some ⟨addr, dims⟩ }.resources = {.mem addr} + p.resources := by
    intro dims
    simp only [OcPort.resources, hname, hshape, owned_some, owned_none, add_zero]
    abel
  have hR : ∀ dims, owned .mem (some addr) + ({.typeInfo info} + (p.resources + (v.s.resources + L))) =
      {.typeInfo info} + ({ p with shape := some ⟨addr, dims⟩ }.resources + (v.s.resources + L)) := by
    intro dims
    rw [hq]
    simp only [owned_some]
    abel
  rw [hR []]
  simp only [wpc_check]
  refine wp_acquire (by trivial) rfl ?_
  rintro (st | dims) hdims
  · exact during_failed h hi (by simp [hname]) rfl
  · have hlen : dims.length = p.rank := hdims
    refine ⟨{ p with shape := some ⟨addr, dims⟩ }, LoadVars.during_setPort,
      ⟨by simp [hname], hlen, hb rfl⟩, hname, ?_⟩
    unfold NativeOp.acquires
    simp only [failing_ok, zero_add, hq]

/-- The name of a port, and its type info. -/
theorem portName_spec (h inputs i : Nat) : Acquires (.name ·.addr) (portName h inputs i) := by
  unfold portName
  split <;> exact fun _ _ => wp_native (by trivial) rfl

theorem portTypeInfo_spec (h inputs i : Nat) : Acquires .typeInfo (portTypeInfo h inputs i) := by
  unfold portTypeInfo
  split <;> exact fun _ _ => wp_native (by trivial) rfl

/-- **One port**: it is filled and its type info released, or `fail:` finds everything. -/
theorem ocLoadPort_spec {h inputs : Nat} (hv : v.Ready s n i) (hi : i < n) :
    wpc protocol (ocLoadPort h inputs i)
      (fun res v' g' => match res with
        | .ok _ => v'.Ready s n (i + 1) ∧ g' = g.withLive (v'.resources + L)
        | .error st => LoadFailed L g st v' g') v (g.withLive (v.resources + L)) := by
  obtain ⟨ports, names, hports, hnames, hlp, hln, -, hz⟩ := hv.arrays
  have hv0 : v.resources = v.s.resources := by
    simp only [LoadVars.resources, hv.info, owned_none, zero_add]
  simp only [ocLoadPort, wpc_bind, wpc_get, wpc_lift, wpc_modify, hv0]
  refine wp_deref hports (wp_deref hnames (wp_rd (hz i le_rfl hi) ?_))
  refine wpc_acquires (portName_spec h inputs i) (fun c => ?_) fun st =>
    ⟨hv.slotted, by rw [hv0]⟩
  simp only [OcPort.zero, LoadVars.during_start hv]
  have hp : ∀ type rank, (⟨some c, type, none, rank⟩ : OcPort).resources = {.name c.addr} := by
    intro type rank
    simp only [OcPort.resources, owned_some, owned_none, add_zero]
  refine wpc_acquires (portTypeInfo_spec h inputs i) (fun info => ?_) fun st => ?_
  rotate_left
  · dsimp only
    exact during_failed hv hi rfl (by rw [hp, owned_none, zero_add])
  -- from here on `info` is pending, and every failure leaves the port as it is so far
  have hfail : ∀ st type rank, LoadFailed L g st (v.during i ⟨some c, type, none, rank⟩ (some c) (some info))
      (g.withLive ({.status st.addr} + ({.typeInfo info} + ({.name c.addr} + (v.s.resources + L))))) := by
    intro st type rank
    exact during_failed hv hi rfl (by rw [hp, owned_some])
  simp only [LoadVars.during_named]
  refine wp_wr (by omega) ?_
  refine wpc_harmless (fun _ _ => wp_native (by trivial) rfl) (fun kind => ?_) fun st => hfail st 0 0
  dsimp only
  split
  · simp only [wpc_bind, wpc_lift]
    exact wp_createStatus fun st => hfail st 0 0
  simp only [wpc_bind, wpc_modify, wpc_lift]
  refine wpc_harmless (fun _ _ => wp_native (by trivial) rfl) (fun tensor => ?_) fun st => hfail st 0 0
  refine wpc_harmless (fun _ _ => wp_native (by trivial) rfl) (fun type => ?_) fun st => hfail st 0 0
  refine wpc_harmless (fun _ _ => wp_native (by trivial) rfl) (fun rank => ?_) fun st => ?_
  rotate_left
  · simp only [LoadVars.during_setPort]
    exact hfail st _ 0
  simp only [LoadVars.during_setPort]
  have hdims : wpc protocol
      (if rank ≠ 0 then ocLoadShape i ⟨some c, type.code, none, rank⟩ tensor else pure ())
      (fun res v' g' => match res with
        | .ok _ => ∃ q, v' = v.during i q (some c) (some info) ∧ q.Loaded ∧ q.name = some c ∧
          g' = g.withLive ({.typeInfo info} + (q.resources + (v.s.resources + L)))
        | .error st => LoadFailed L g st v' g')
      (v.during i ⟨some c, type.code, none, rank⟩ (some c) (some info))
      (g.withLive ({.typeInfo info} + ({.name c.addr} + (v.s.resources + L)))) := by
    rw [← hp type.code rank]
    split
    · exact ocLoadShape_spec hv hi rfl rfl
    · next hrank =>
      have hrank : rank = 0 := by simpa using hrank
      exact ⟨_, rfl, ⟨rfl, hrank.symm, by simp [hrank]⟩, rfl, rfl⟩
  refine wpc_mono ?_ hdims
  rintro (st | _) v' g'
  · exact id
  · rintro ⟨q, rfl, hq, hname, rfl⟩
    refine wp_release (by trivial) (fun _ => rfl) fun _ => ?_
    refine ⟨LoadVars.during_ready hv hi hq hname, ?_⟩
    rw [LoadVars.during_info, LoadVars.during_resources hv hi, owned_none, zero_add, add_assoc]

/-- The variables once the two arrays have been allocated, or not. -/
def LoadVars.allocated (v : LoadVars) (n : Nat) (ports names : Option Handle) : LoadVars :=
  { v with s := { v.s with
    ports := ports.map fun p => ⟨p, List.replicate n OcPort.zero⟩
    names := names.map fun p => ⟨p, List.replicate n none⟩ } }

omit [Platform] in
theorem LoadVars.allocated_resources {ports names : Option Handle} (hp : v.s.ports = none)
    (hn : v.s.names = none) (hi : v.info = none) : (v.allocated n ports names).resources =
      owned .mem ports + (owned .mem names + v.s.resources) := by
  have hz : total OcPort.resources (List.replicate n OcPort.zero) = 0 :=
    total_eq_zero_of fun p hp => by rw [List.eq_of_mem_replicate hp]; rfl
  cases ports <;> cases names <;>
    simp only [allocated, resources, OcSession.resources, portsResources, hp, hn, hi, hz,
      Option.map_some, Option.map_none, Option.elim, owned_some, owned_none] <;> abel

theorem LoadVars.allocated_slotted {ports names : Option Handle}
    (hc : sizeMod (v.s.inputs + v.s.outputs) = n) (hn : v.s.inputs + v.s.outputs = n) :
    (v.allocated n ports names).s.Partial := by
  intro a ha
  obtain ⟨p, -, rfl⟩ := Option.map_eq_some_iff.1 ha
  refine ⟨hc.trans hn.symm, by simp [allocated, hn], 0, fun j hj => absurd hj (Nat.not_lt_zero j),
    fun q hq => .inl ?_, fun j _ q hq => ?_⟩
  · exact List.eq_of_mem_replicate (List.mem_of_getElem? hq)
  · exact List.eq_of_mem_replicate (List.mem_of_getElem? hq)

theorem ocLoadMetadata_spec (hp : v.s.ports = none) (hn : v.s.names = none) (hi : v.info = none)
    (hc : sizeMod (v.s.inputs + v.s.outputs) = n) (hw : v.s.inputs + v.s.outputs = n) :
    wpc protocol (ocLoadMetadata n)
      (fun res v' g' => match res with
        | .ok _ => v'.Ready v.s n 0 ∧ g' = g.withLive (v'.resources + L)
        | .error st => LoadFailed L g st v' g') v (g.withLive (v.s.resources + L)) := by
  simp only [ocLoadMetadata, wpc_bind, wpc_modify, wpc_lift]
  refine wp_acquire (by trivial) rfl fun ports _ => wp_acquire (by trivial) rfl fun names _ => ?_
  have hR : NativeOp.acquires (.calloc n pointerBytes) names +
      (NativeOp.acquires (.calloc n portBytes) ports + (v.s.resources + L)) =
      (v.allocated n ports names).resources + L := by
    rw [LoadVars.allocated_resources hp hn hi]
    unfold NativeOp.acquires
    abel
  rw [hR]
  change wpc protocol _ _ (v.allocated n ports names) _
  split
  · simp only [wpc_bind, wpc_lift]
    exact wp_createStatus fun st => ⟨LoadVars.allocated_slotted hc hw, rfl⟩
  next hsome =>
  obtain ⟨p, rfl⟩ : ∃ p, ports = some p := by cases ports <;> simp_all
  obtain ⟨q, rfl⟩ : ∃ q, names = some q := by cases names <;> simp_all
  exact ⟨⟨rfl, hi, hc, hw, _, _, rfl, rfl, by simp, by simp, by simp, fun j _ hj => by simp [hj]⟩, rfl⟩

omit [Platform] in
/-- The names are the ports', in order. -/
theorem LoadVars.Ready.names {ports : Arr OcPort} {names : Arr (Option CStr)}
    (hlp : ports.slots.length = n) (hln : names.slots.length = n)
    (h : ∀ j < n, ∃ p, ports.slots[j]? = some p ∧ names.slots[j]? = some p.name) :
    names.slots = ports.slots.map (·.name) := by
  refine List.ext_getElem? fun j => ?_
  rcases Nat.lt_or_ge j n with hj | hj
  · obtain ⟨p, hp, hq⟩ := h j hj
    rw [hq, List.getElem?_map, hp]
    rfl
  · rw [List.getElem?_eq_none (by omega), List.getElem?_eq_none (by simp; omega)]

/-- All the ports are filled: the session is complete. -/
theorem LoadVars.Ready.loaded {r : OcRuntime} {h : Handle} (hv : v.Ready s n n)
    (hr : s.runtime = r) (hh : s.handle = some h) (hpos : 0 < s.outputs)
    (hwrap : sizeMod (s.inputs + s.outputs) = s.inputs + s.outputs)
    (hn : sizeMod (s.inputs + s.outputs) = n) (hbound : n ≤ sizeMax / portBytes) :
    v.s.Loaded r := by
  obtain ⟨ports, names, hports, hnames, hlp, hln, hdone, -⟩ := hv.arrays
  have hs := hv.same
  have hruntime : v.s.runtime = s.runtime := by simpa using congrArg (·.runtime) hs
  have hhandle : v.s.handle = s.handle := by simpa using congrArg (·.handle) hs
  have hin : v.s.inputs = s.inputs := by simpa using congrArg (·.inputs) hs
  have hout : v.s.outputs = s.outputs := by simpa using congrArg (·.outputs) hs
  refine ⟨hruntime.trans hr, by simp [hhandle, hh], by omega, by rw [hin, hout, hwrap], by omega,
    ports, names, hports, hnames, by omega, ?_, fun p hp => ?_⟩
  · refine LoadVars.Ready.names hlp hln fun j hj => ?_
    obtain ⟨p, hp, hq, -⟩ := hdone j hj
    exact ⟨p, hp, hq⟩
  · obtain ⟨j, hj⟩ := List.mem_iff_getElem?.1 hp
    have hjn : j < n := by
      have := (List.getElem?_eq_some_iff.1 hj).1
      omega
    obtain ⟨q, hq, -, hl⟩ := hdone j hjn
    rw [hj, Option.some.injEq] at hq
    exact hq ▸ hl

/-- **`oc_load` before `fail:`.** -/
theorem ocLoadBody_spec {r : OcRuntime} {path : Option CStr} {data : List UInt8}
    {options addr : Handle} :
    wpc protocol (ocLoadBody r path data options)
      (fun res v g' => match res with
        | .ok _ => v.s.Loaded r ∧ g' = g.withLive (v.s.resources + L)
        | .error st => LoadFailed L g st v g') ⟨newSession addr r, none⟩
      (g.withLive ((newSession addr r).resources + L)) := by
  simp only [ocLoadBody, wpc_bind, wpc_modify]
  refine wpc_acquires (c := .session) ?_ (fun h => ?_)
    fun st => ⟨fun _ h => (by cases h), by simp [LoadVars.resources]⟩
  · cases path <;> exact fun _ _ => wp_native (by trivial) rfl
  -- the session without its arrays
  let s (inputs outputs : Nat) : OcSession :=
    ⟨addr, r, some h, inputs, outputs, none, none⟩
  have hres : ∀ inputs outputs, {.session h} + ((newSession addr r).resources + L) =
      (s inputs outputs).resources + L := by
    intro inputs outputs
    simp only [s, newSession, OcSession.resources, portsResources, owned_some, owned_none,
      Option.elim, zero_add, add_assoc]
  have hfail : ∀ st inputs outputs, LoadFailed L g st ⟨s inputs outputs, none⟩
      (g.withLive ({.status st.addr} + ({.session h} + ((newSession addr r).resources + L)))) := by
    intro st inputs outputs
    refine ⟨fun _ h => (by cases h), ?_⟩
    rw [hres inputs outputs, LoadVars.resources, owned_none, zero_add]
  simp only [wpc_check]
  refine wp_acquire (by trivial) rfl ?_
  rintro (st | inputs) hin
  · exact hfail st 0 0
  unfold NativeOp.acquires
  simp only [failing_ok, zero_add]
  refine wp_acquire (by trivial) rfl ?_
  rintro (st | outputs) hout
  · exact hfail st inputs 0
  unfold NativeOp.acquires
  simp only [failing_ok, zero_add]
  split
  · simp only [wpc_bind, wpc_lift]
    exact wp_createStatus fun st => hfail st inputs outputs
  next hcond =>
  simp only [not_or, Nat.not_lt] at hcond
  obtain ⟨hle, hne, hmax⟩ := hcond
  rw [hres inputs outputs]
  simp only [wpc_bind]
  refine wpc_mono ?_ (ocLoadMetadata_spec (v := ⟨s inputs outputs, none⟩) rfl rfl rfl rfl
    (sizeMod_add hin hout hle).symm)
  rintro (st | _) v g' h
  · exact h
  obtain ⟨hready, rfl⟩ := h
  refine wpc_forRange (fun i v g' => v.Ready (s inputs outputs) _ i ∧ g' = g.withLive (v.resources + L))
    ?_ ?_ ⟨hready, rfl⟩
  · rintro i v g' hi ⟨hv, rfl⟩
    refine wpc_mono ?_ (ocLoadPort_spec hv hi)
    rintro (st | _) v' g' h <;> exact h
  · rintro v g' ⟨hv, rfl⟩
    refine ⟨hv.loaded rfl rfl (by simp [s]; omega) (sizeMod_add hin hout hle) rfl hmax, ?_⟩
    rw [LoadVars.resources, hv.info, owned_none, zero_add]

/-- **`oc_load`**: a complete session that owns everything acquired, or a status and nothing else. -/
theorem ocLoad_spec (r : OcRuntime) (path : Option CStr) (data : List UInt8) (options : Handle) :
    wp protocol (ocLoad r path data options)
      (fun res g' => match res with
        | .ok s => s.Loaded r ∧ g' = g.withLive (s.resources + L)
        | .error st => g' = g.withLive ({.status st.addr} + L)) (g.withLive L) := by
  simp only [ocLoad, wp_bind]
  refine wp_acquire (by trivial) rfl ?_
  rintro (_ | addr) -
  · unfold NativeOp.acquires
    simp only [owned_none, zero_add, wp_bind, wp_pure]
    exact wp_createStatus fun st => rfl
  have hres : NativeOp.acquires (.calloc 1 (6 * pointerBytes)) (some addr) =
      (newSession addr r).resources := by
    unfold NativeOp.acquires
    simp only [newSession, OcSession.resources, portsResources, owned_some,
      owned_none, Option.elim, zero_add]
  simp only [hres, wp_bind, wp_code]
  refine wpc_mono ?_ ocLoadBody_spec
  rintro (st | _) v g' h
  · obtain ⟨hs, rfl⟩ := h
    have hL : ({.status st.addr} : Multiset Resource) + (v.resources + L) =
        owned .typeInfo v.info + (v.s.resources + ({.status st.addr} + L)) := by
      simp only [LoadVars.resources]
      abel
    simp only [wp_bind, wp_pure, hL]
    refine wp_whenSome (fun info _ _ => wp_released (by trivial) fun _ => rfl) ?_
    exact wp_releases (ocSessionFree_spec hs.sized) rfl
  · exact h

end Bridge

end

end Onnxcraft
