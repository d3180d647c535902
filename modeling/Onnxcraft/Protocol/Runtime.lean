import Onnxcraft.Protocol.Load

/-!
# The functions of runtime.go keep the protocol

`load_spec`, `close_spec` and `openLibrary_spec`: every call ends with nothing left to release and
no lock held, on every path.
-/

namespace Onnxcraft

open Effect

section
variable [Platform] {α : Type} {g : Held} {L : Multiset Resource}

/-! ## Native errors -/

/-- `nativeError` reads code and message off the status, then releases it. -/
theorem nativeError_error {r : OcRuntime} {st : OrtStatus} (hr : g.runtime = some r)
    (hin : g.inC = none) :
    wp protocol (nativeError (some r) (.error st : Fallible α))
      (fun res g' => res = .error ⟨st.code, st.message⟩ ∧ g' = g.withLive L)
      (g.withLive ({.status st.addr} + L)) := by
  simp only [nativeError, wp_bind, wp_pure]
  refine wp_deref rfl (wp_cgo (by trivial) hin hr (wp_ask (by trivial) rfl (fun _ => rfl) ?_))
  intro code hcode
  refine ⟨_, rfl, wp_cgo (by trivial) hin hr (wp_ask (by trivial) rfl (fun _ => rfl) ?_)⟩
  intro message hmessage
  refine ⟨_, rfl, wp_cgo (by trivial) hin hr (wp_release (by trivial) (fun _ => rfl) fun _ => ?_)⟩
  have hc : code = st.code := hcode
  have hm : message = st.message := hmessage
  exact ⟨L, rfl, by rw [hc, hm], rfl⟩

/-! ## Arithmetic of the counts -/

theorem portBytes_ge : 2 ≤ Bridge.portBytes := by
  unfold Bridge.portBytes pointerBytes
  rcases Platform.bits_eq with h | h <;> simp [h]

/-- The metadata is split where the inputs end. -/
theorem OcSession.Loaded.matches {ptr : OcSession} {x : OcRuntime} (h : ptr.Loaded x) {ports : Arr OcPort}
    {names : Arr (Option CStr)} (hports : ptr.ports = some ports) (hnames : ptr.names = some names)
    (hns : names.slots = ports.slots.map (·.name))
    (hlen : ports.slots.length = ptr.inputs + ptr.outputs)
    (hfilled : ∀ p ∈ ports.slots, p.Filled) :
    ptr.Matches ((ports.slots.map OcPort.info).take ptr.inputs)
      ((ports.slots.map OcPort.info).drop (ptr.inputs : Int).toNat) where
  handle := h.handle
  inputs := by simp; omega
  outputs := by simp; omega
  pos := by
    have := h.pos
    simp
    omega
  bound := by
    have := sizeMax_div portBytes_ge h.bound
    have := two_pow_bits
    simp
    omega
  ports := ⟨ports, names, hports, hnames, by simp, hns, hfilled⟩

namespace Held

/-- The call has locked the open runtime `r`, whose native runtime is `x`. -/
structure Open (g : Held) (r : Nat) (x : OcRuntime) : Prop where
  mu : g.mu = some r
  rt : g.rt = some x
  closed : g.closed = some false
  excl : g.excl = none
  inC : g.inC = none
  raised : g.raised = none
  loads : ¬g.call.Closes

omit [Platform] in
theorem Open.runtime {r : Nat} {x : OcRuntime} (h : g.Open r x) : g.runtime = some x := by
  simp [Held.runtime, h.rt]

end Held

namespace Runtime

variable {r : Nat} {x : OcRuntime}

/-- Reading `native` again under the mutex. -/
theorem wp_getNative {Q : Option OcRuntime → Held → Prop} (hg : g.Open r x)
    (hQ : Q (some x) (g.withLive L)) : wp protocol (rt r .getNative) Q (g.withLive L) := by
  rw [wp_rt]
  refine ⟨⟨hg.inC, .inl hg.mu⟩, fun a ha => ?_⟩
  obtain rfl : a = some x := ha.1 x hg.mu hg.rt
  have : RtOp.upd (g.withLive L) r .getNative (some x) = g.withLive L := by
    simp only [RtOp.upd, Held.withLive, hg.mu, if_true, ← hg.rt]
  rwa [this]

/-- A fallible native call under the mutex: its status has been released. -/
theorem native_spec {f : OcRuntime → CFunc} {body : OcRuntime → Act (Fallible α)} {P : α → Prop}
    {R : α → Multiset Resource} (hg : g.Open r x) (hf : (f x).Plain) (hmay : g.MayEnter (f x))
    (hbody : wp protocol (body x)
      (fun res g' => match res with
        | .ok a => P a ∧ g' = (g.within (f x)).withLive (R a + L)
        | .error st => g' = (g.within (f x)).withLive ({.status st.addr} + L))
      ((g.within (f x)).withLive L)) :
    wp protocol (native r f body)
      (fun res g' => match res with
        | .ok a => P a ∧ g' = g.withLive (R a + L)
        | .error _ => g' = g.withLive L) (g.withLive L) := by
  simp only [native, wp_bind]
  refine wp_getNative hg (wp_getNative hg (wp_deref rfl (wp_cgo hf hg.inC hmay ?_)))
  refine wp_mono ?_ hbody
  rintro (st | a) g' h
  · subst h
    refine ⟨_, rfl, wp_mono ?_ (nativeError_error hg.runtime hg.inC)⟩
    rintro _ g' ⟨rfl, rfl⟩
    rfl
  · obtain ⟨hP, rfl⟩ := h
    exact ⟨_, rfl, hP, rfl⟩

/-- A fallible native call that acquires nothing. -/
theorem native_harmless {f : OcRuntime → CFunc} {body : OcRuntime → Act (Fallible α)}
    (hg : g.Open r x) (hf : (f x).Plain) (hmay : g.MayEnter (f x)) (hbody : Harmless (body x)) :
    wp protocol (native r f body) (fun _ g' => g' = g.withLive L) (g.withLive L) := by
  refine wp_mono ?_ (native_spec (P := fun _ => True) (R := fun _ => 0) hg hf hmay ?_)
  · rintro (e | a) g' h
    · exact h
    · rw [h.2, zero_add]
  · refine wp_mono ?_ (hbody _ _)
    rintro (st | a) g' rfl
    · rfl
    · exact ⟨trivial, rfl⟩

/-! ## Loading -/

theorem wp_cString {text : GoString} {Q : CStr → Held → Prop}
    (hQ : ∀ c : CStr, Q c (g.withLive ({.mem c.addr} + L))) :
    wp protocol (cString text) Q (g.withLive L) := by
  simp only [cString, wp_bind, wp_pure]
  exact wp_acquire (by trivial) rfl fun p _ => hQ ⟨p, text⟩

theorem loadConfig_spec (hg : g.Open r x) {raw : Handle} {entry : GoString × GoString} :
    wpc protocol (loadConfig r raw entry) (fun _ _ g' => g' = g.withLive L) () (g.withLive L) := by
  simp only [loadConfig]
  split
  · rfl
  split
  · rfl
  simp only [wpc_bind, wpc_lift]
  refine wp_cString fun k => wp_cString fun v => ?_
  refine wp_mono ?_ (native_harmless hg (by trivial) hg.runtime (Bridge.ocConfig_spec raw k v))
  rintro err g' rfl
  rw [add_left_comm]
  refine wp_free (wp_free ?_)
  cases err <;> rfl

/-- What the keys and the values of a provider own. -/
def strings (kv : List CStr × List CStr) : Multiset Resource :=
  total (fun c => {Resource.mem c.addr}) kv.1 + total (fun c => {Resource.mem c.addr}) kv.2

theorem addProviderOption_spec {kv : List CStr × List CStr} {entry : GoString × GoString}
    (hkv : kv.1.length = kv.2.length) :
    wpc protocol (addProviderOption entry)
      (fun _ kv' g' => kv'.1.length = kv'.2.length ∧ g' = g.withLive (strings kv' + L)) kv
      (g.withLive (strings kv + L)) := by
  simp only [addProviderOption]
  split
  · exact ⟨hkv, rfl⟩
  split
  · exact ⟨hkv, rfl⟩
  simp only [wpc_bind, wpc_lift, wpc_modify]
  refine wp_cString fun k => wp_cString fun v => ⟨by simp [hkv], ?_⟩
  simp only [strings, total_append, total_cons, total_nil, add_zero]
  congr 1
  abel

/-- The deferred loop frees all keys and values. -/
theorem freeOptions_spec {keys values : List CStr} (h : keys.length = values.length) :
    Releases (strings (keys, values))
      (.fold (fun i _ => freeOption keys values i) (List.range keys.length) ()) := by
  intro g L
  refine wp_foldRange
    (fun i _ g' => g' = g.withLive (strings (keys.drop i, values.drop i) + L)) ?_ ?_ rfl
  · rintro i _ g' hi rfl
    have hi' : i < values.length := h ▸ hi
    have hsplit : strings (keys.drop i, values.drop i) + L =
        {.mem keys[i].addr} + ({.mem values[i].addr} +
          (strings (keys.drop (i + 1), values.drop (i + 1)) + L)) := by
      simp only [strings, List.drop_eq_getElem_cons hi, List.drop_eq_getElem_cons hi', total_cons]
      abel
    simp only [freeOption, wp_bind, hsplit]
    refine wp_rd (List.getElem?_eq_getElem hi) (wp_free ?_)
    exact wp_rd (List.getElem?_eq_getElem hi') (wp_free rfl)
  · rintro _ g' rfl
    simp only [strings, List.drop_length, total_nil, zero_add]
    rw [h, List.drop_length, total_nil, zero_add]

theorem addProvider_spec (hg : g.Open r x) {raw : Handle} {provider : Provider} :
    wp protocol (addProvider r raw provider) (fun _ g' => g' = g.withLive L) (g.withLive L) := by
  unfold addProvider
  split
  · rfl
  simp only [wp_bind, wp_deferring, wp_pure, wp_code]
  refine wp_cString fun name => ?_
  have hbody : wpc protocol (addProviderBody r raw provider name)
      (fun _ kv g' => kv.1.length = kv.2.length ∧
        g' = g.withLive (strings kv + ({.mem name.addr} + L)))
      ([], []) (g.withLive ({.mem name.addr} + L)) := by
    simp only [addProviderBody, wpc_bind]
    refine wpc_forEach (fun _ kv g' => kv.1.length = kv.2.length ∧
        g' = g.withLive (strings kv + ({.mem name.addr} + L))) ?_ ?_
        ⟨rfl, by simp [strings]⟩
    · rintro _ entry _ kv g' - ⟨hkv, rfl⟩
      refine wpc_mono ?_ (addProviderOption_spec hkv)
      rintro (e | _) kv' g' h <;> exact h
    · rintro ⟨keys, values⟩ g' ⟨hkv, rfl⟩
      simp only [wpc_get, wpc_lift]
      refine wp_mono ?_ (native_harmless hg (by trivial) hg.runtime
        (Bridge.ocProvider_spec raw name keys values))
      rintro (e | _) g' rfl <;> exact ⟨hkv, rfl⟩
  refine wpc_mono ?_ hbody
  rintro res ⟨keys, values⟩ g' ⟨hkv, rfl⟩
  exact wp_releases (freeOptions_spec hkv) (wp_free rfl)

/-- One port of the result: its metadata is read, or the session is freed. -/
theorem loadPort_spec (hg : g.Open r x) {ptr : OcSession} (hptr : ptr.Loaded x) {p : OcPort}
    (hp : p.Loaded) {info : List TensorInfo} :
    wpc protocol (loadPort ptr p)
      (fun res info' g' => match res with
        | .ok _ => info' = info ++ [p.info] ∧ p.Filled ∧ g' = g.withLive (ptr.resources + L)
        | .error _ => g' = g.withLive L) info (g.withLive (ptr.resources + L)) := by
  have hsized : ptr.Sized := by
    obtain ⟨ports, -, hports, -, hlen, -⟩ := hptr.ports
    intro a ha
    rw [hports, Option.some.injEq] at ha
    rw [← ha, hlen, hptr.wrap]
  simp only [loadPort]
  split
  · simp only [wpc_bind, wpc_lift]
    refine wp_cgo_still (by trivial) hg.inC
      ⟨ptr, rfl, by rw [hg.runtime, hptr.runtime], fun h => absurd h hg.loads, by simp [hg.excl]⟩ ?_
    have htakes : g.takes (.ocSessionFree (some ptr)) = 0 := by simp [Held.takes, hg.excl]
    rw [htakes, zero_add, Held.past_sessionFree hg.excl]
    refine wp_releases (Bridge.ocSessionFree_spec hsized) ⟨L, rfl, ?_⟩
    rfl
  next hsize =>
  simp only [wpc_bind, wpc_lift, wpc_modify]
  rw [toInt_eq (sizeMax_div (by omega) hp.bound)]
  refine wp_goSlice hp.rank.ge ?_
  rw [← hp.rank, List.take_length]
  exact ⟨rfl, ⟨hp.name, hsize, hp.rank⟩, rfl⟩

/-- `load` once `oc_load` has succeeded: the session is handed over complete, or freed. -/
theorem loadSession_spec (hg : g.Open r x) {o : SessionOptions} {ptr : OcSession}
    (hptr : ptr.Loaded x) :
    wpc protocol (loadSession r o ptr) (fun _ _ g' => g' = g.withLive L) []
      (g.withLive (ptr.resources + L)) := by
  obtain ⟨ports, names, hports, hnames, hlen, hns, hloaded⟩ := hptr.ports
  have hcount := sizeMax_div portBytes_ge hptr.bound
  have hlt : ptr.inputs + ptr.outputs < 2 ^ Platform.bits := by
    have := two_pow_bits
    omega
  simp only [loadSession, wpc_bind, wpc_lift, wpc_get, hports, Option.elim_some, hptr.wrap]
  rw [toInt_eq hcount, toInt_eq (n := ptr.inputs) (by omega)]
  refine wp_goSlice hlen.ge ?_
  rw [← hlen, List.take_length]
  refine wpc_forEach (fun done info g' => info = done.map OcPort.info ∧ (∀ p ∈ done, p.Filled) ∧
    g' = g.withLive (ptr.resources + L)) ?_ ?_ ⟨rfl, by simp, rfl⟩
  · rintro done p rest _ _ hsplit ⟨rfl, hdone, rfl⟩
    refine wpc_mono ?_ (loadPort_spec hg hptr (hloaded p (by simp [hsplit])))
    rintro (e | _) info g' h
    · exact h
    · obtain ⟨rfl, hp, rfl⟩ := h
      refine ⟨by simp, fun q hq => ?_, rfl⟩
      rcases List.mem_append.1 hq with hq | hq
      · exact hdone q hq
      · rwa [List.mem_singleton.1 hq]
  · rintro _ _ ⟨rfl, hfilled, rfl⟩
    refine wp_rt.2 ⟨⟨hg.inC, hg.mu, hg.closed, by simp [hg.rt], hg.raised⟩, fun _ _ => ?_⟩
    refine wp_goSlice (by simp; omega) ?_
    refine ⟨⟨hg.mu, rfl, by rw [hptr.runtime]; exact hg.rt,
      hptr.matches hports hnames hns hlen hfilled, Multiset.le_add_right _ _⟩,
      fun id _ => ?_⟩
    show ({ g with live := ptr.resources + L - ptr.resources, raised := none } : Held) = _
    rw [add_tsub_cancel_left, ← hg.raised]
    rfl

theorem loadModel_spec (hg : g.Open r x) {cpath : Option CStr} {model : List UInt8}
    {o : SessionOptions} {raw : Handle} :
    wp protocol (loadModel r cpath model o raw) (fun _ g' => g' = g.withLive L) (g.withLive L) := by
  simp only [loadModel, wp_bind]
  refine wp_mono ?_ (native_spec (P := fun ptr => ptr.Loaded x) (R := OcSession.resources) hg
    (by trivial) hg.runtime ?_)
  · rintro (e | ptr) g' h
    · exact h
    · obtain ⟨hptr, rfl⟩ := h
      simp only [wp_run]
      exact loadSession_spec hg hptr
  · refine wp_mono ?_ (Bridge.ocLoad_spec x cpath model raw)
    rintro (st | ptr) g' h <;> exact h

theorem loadOptions_spec (hg : g.Open r x) {path : GoString} {model : List UInt8}
    {o : SessionOptions} {raw : Handle} :
    wp protocol (loadOptions r path model o raw) (fun _ g' => g' = g.withLive L)
      (g.withLive L) := by
  simp only [loadOptions, wp_bind, wp_run]
  refine wpc_forEach (fun _ _ g' => g' = g.withLive L) ?_ ?_ rfl
  · rintro _ entry _ _ _ - rfl
    refine wpc_mono ?_ (loadConfig_spec hg)
    rintro (e | _) _ _ rfl <;> rfl
  rintro _ _ rfl
  simp only [wp_bind, wp_run]
  refine wpc_forEach (fun _ _ g' => g' = g.withLive L) ?_ ?_ rfl
  · rintro _ provider _ _ _ - rfl
    simp only [wpc_check]
    refine wp_mono ?_ (addProvider_spec hg)
    rintro (e | _) _ rfl <;> rfl
  rintro _ _ rfl
  dsimp only
  split
  · exact loadModel_spec hg
  · simp only [wp_bind, wp_deferring]
    refine wp_cString fun cpath => wp_mono ?_ (loadModel_spec hg)
    rintro res _ rfl
    exact wp_free rfl

theorem loadOpen_spec (hg : g.Open r x) {path : GoString} {model : List UInt8}
    {options : Option SessionOptions} :
    wp protocol (loadOpen r path model options) (fun _ g' => g' = g.withLive L)
      (g.withLive L) := by
  simp only [loadOpen]
  split
  · rfl
  next hvalid =>
  simp only [wp_bind]
  have hlevel : (options.getD {}).optimization.toNat < 4 := by
    simp only [not_or] at hvalid
    have := hvalid.2.2.2.2
    simp only [optimizeExtended, gt_iff_lt, UInt8.not_lt, UInt8.le_iff_toNat_le] at this
    exact Nat.lt_succ_of_le this
  refine wp_mono ?_ (native_spec (P := fun _ => True) (R := fun o => {.sessionOptions o}) hg
    (by trivial) hg.runtime ?_)
  · rintro (e | raw) _ h
    · exact h
    · obtain ⟨-, rfl⟩ := h
      simp only [wp_bind, wp_deferring]
      refine wp_getNative hg (wp_deref rfl (wp_mono ?_ (loadOptions_spec hg)))
      rintro res _ rfl
      refine wp_cgo (by trivial) hg.inC hg.runtime ?_
      exact wp_releases (Bridge.ocOptionsFree_spec raw) ⟨L, rfl, rfl⟩
  · refine wp_mono ?_ (Bridge.ocOptionsNew_spec hlevel _ _)
    rintro (st | raw) _ rfl
    · rfl
    · exact ⟨trivial, rfl⟩

/-- `load` under `r.mu`, which it has just locked. -/
theorem loadLocked_spec (hmu : g.mu = some r) (hrt : g.rt = none) (hexcl : g.excl = none)
    (hin : g.inC = none) (hraised : g.raised = none) (hloads : ¬g.call.Closes) {path : GoString}
    {model : List UInt8} {options : Option SessionOptions} :
    wp protocol (loadLocked r path model options)
      (fun _ g' => ∃ b y, g' = { g with closed := b, rt := y }) g := by
  simp only [loadLocked, wp_bind]
  refine wp_rt.2 ⟨⟨hin, hmu⟩, fun closed _ => ?_⟩
  split
  · exact ⟨some closed, none, by simp only [RtOp.upd, hrt]⟩
  next hclosed =>
  obtain rfl : closed = false := by simpa using hclosed
  simp only [wp_bind]
  refine wp_rt.2 ⟨⟨hin, .inl hmu⟩, ?_⟩
  rintro (_ | x) -
  · exact ⟨some false, none, by simp only [RtOp.upd, hmu, if_true]⟩
  · have hg : ({ g with closed := some false, rt := some x } : Held).Open r x :=
      ⟨hmu, rfl, rfl, hexcl, hin, hraised, hloads⟩
    have hupd : RtOp.upd (RtOp.upd g r .getClosed false) r .getNative (some x) =
        ({ g with closed := some false, rt := some x } : Held).withLive g.live := by
      simp only [RtOp.upd, hmu, if_true, Held.withLive]
    rw [hupd]
    refine wp_mono ?_ (loadOpen_spec hg)
    rintro _ _ rfl
    exact ⟨some false, some x, rfl⟩

/-- **`Runtime.load`** gives everything back. -/
theorem load_spec {c : Call} (hc : c.runtime = some r) (hfire : (Held.start c).fire = none)
    (hloads : ¬c.Closes) {path : GoString} {model : List UInt8} {options : Option SessionOptions} :
    wp protocol (load r path model options) (fun _ g' => g'.Idle ∧ g'.aborted = false)
      (Held.start c) := by
  simp only [load, wp_bind, wp_deferring]
  refine wp_rt.2 ⟨⟨rfl, rfl, hc, rfl⟩, fun _ _ => ?_⟩
  refine wp_mono ?_ (loadLocked_spec rfl rfl rfl rfl rfl hloads)
  rintro _ _ ⟨b, y, rfl⟩
  refine wp_rt.2 ⟨⟨rfl, rfl, rfl, rfl, rfl, rfl, rfl⟩, fun _ _ => ?_⟩
  exact ⟨⟨rfl, rfl, rfl, rfl, rfl, rfl, rfl, rfl, rfl, rfl, hfire, rfl, rfl, rfl⟩, rfl⟩

/-! ## Closing -/

/-- `release`, with the reference that is given back: the last one closes the runtime. -/
theorem release_spec (hmu : g.mu = some r) (hzero : g.zero = none) (hshut : g.shut = false)
    (hwatch : g.watch = none) (hin : g.inC = none) (hlive : g.live = 0) {owner : Option Nat}
    (howner : match owner with | none => g.owes = some r | some s => g.cleared = some s) :
    wp protocol (release r owner)
      (fun _ g' => ∃ y b, g' = { g.gave owner with rt := y, shut := b }) g := by
  have hmu' : (g.gave owner).mu = some r := by cases owner <;> exact hmu
  have hzero' : (g.gave owner).zero = none := by cases owner <;> exact hzero
  have hshut' : (g.gave owner).shut = false := by cases owner <;> exact hshut
  have hwatch' : (g.gave owner).watch = none := by cases owner <;> exact hwatch
  have hin' : (g.gave owner).inC = none := by cases owner <;> exact hin
  have hlive' : (g.gave owner).live = 0 := by cases owner <;> exact hlive
  simp only [release, wp_bind]
  refine wp_rt.2 ⟨⟨hin, hmu, hzero, howner⟩, fun refs _ => ?_⟩
  simp only [RtOp.upd]
  split
  · simp only [wp_bind]
    refine wp_rt.2 ⟨⟨hin', .inl hmu'⟩, fun a ha => ?_⟩
    obtain ⟨x, rfl⟩ := Option.isSome_iff_exists.1 (ha.2.1 (.inl rfl))
    have hupd : RtOp.upd { g.gave owner with zero := some r } r .getNative (some x) =
        ({ g.gave owner with zero := some r, rt := some x } : Held).withLive 0 := by
      simp only [RtOp.upd, hmu', if_true, Held.withLive, hlive']
    rw [hupd]
    refine wp_cgo_still (by trivial) hin' ⟨rfl, hshut', x, rfl, rfl⟩ ?_
    refine wp_releases (Bridge.ocClose_spec x) ⟨0, rfl, ?_⟩
    refine wp_rt.2 ⟨⟨hin', hmu', rfl, rfl, hwatch', rfl⟩, fun _ _ => ⟨none, true, ?_⟩⟩
    simp only [RtOp.upd, Held.withLive, Held.past, Held.shuts, Held.frees, hzero', ← hlive']
  · exact ⟨_, _, rfl⟩

/-- `Runtime.Close` under `r.mu`, which it has just locked. -/
theorem closeLocked_spec (hmu : g.mu = some r) (hzero : g.zero = none) (hshut : g.shut = false)
    (howes : g.owes = none) (hraised : g.raised = none) (hwatch : g.watch = none)
    (hin : g.inC = none) (hlive : g.live = 0) (hcloses : g.call.Closes) :
    wp protocol (closeLocked r)
      (fun _ g' => ∃ b y c, g' = { g with closed := b, rt := y, shut := c }) g := by
  simp only [closeLocked, wp_bind]
  refine wp_rt.2 ⟨⟨hin, hmu⟩, fun closed _ => ?_⟩
  split
  · next hclosed =>
    obtain rfl : closed = false := by simpa using hclosed
    simp only [wp_bind]
    refine wp_rt.2 ⟨⟨hin, hmu, rfl, howes, hraised, hcloses⟩, fun _ _ => ?_⟩
    refine wp_rt.2 ⟨⟨hin, .inl hmu⟩, fun a ha => ?_⟩
    have ha : a.isSome := ha.2.1 (.inr rfl)
    rw [if_pos ha]
    refine wp_mono ?_ (release_spec (g := RtOp.upd (RtOp.upd (RtOp.upd g r .getClosed false) r
      .setClosed ()) r .getNative a) ?_ ?_ ?_ ?_ ?_ ?_ ?_)
    all_goals simp only [RtOp.upd, hmu, if_true]
    · rintro _ _ ⟨y, c, rfl⟩
      exact ⟨some true, y, c, by simp only [Held.gave, howes]⟩
    · exact hzero
    · exact hshut
    · exact hwatch
    · exact hin
    · exact hlive
  · exact ⟨some closed, g.rt, g.shut, rfl⟩

/-- **`Runtime.Close`** gives everything back. -/
theorem close_spec :
    wp protocol (close r) (fun _ g' => g'.Idle ∧ g'.aborted = false)
      (Held.start (.closeRuntime r)) := by
  simp only [close, wp_bind, wp_deferring]
  refine wp_rt.2 ⟨⟨rfl, rfl, rfl, rfl⟩, fun _ _ => ?_⟩
  refine wp_mono ?_ (closeLocked_spec rfl rfl rfl rfl rfl rfl rfl rfl trivial)
  rintro _ _ ⟨b, y, c, rfl⟩
  refine wp_rt.2 ⟨⟨rfl, rfl, rfl, rfl, rfl, rfl, rfl⟩, fun _ _ => ?_⟩
  exact ⟨⟨rfl, rfl, rfl, rfl, rfl, rfl, rfl, rfl, rfl, rfl, rfl, rfl, rfl, rfl⟩, rfl⟩

end Runtime

/-! ## Opening -/

theorem openPath_spec {path : GoString} (hin : g.inC = none) (hopens : g.call.Opens) :
    wp protocol (openPath path) (fun _ g' => g' = g.withLive L) (g.withLive L) := by
  simp only [openPath, wp_bind, wp_deferring]
  refine Runtime.wp_cString fun cpath => wp_cgo (by trivial) hin trivial ?_
  refine wp_mono ?_ (Bridge.ocOpen_spec cpath)
  rintro (⟨code, message⟩ | ptr) _ rfl
  · refine ⟨_, rfl, ?_⟩
    simp only [wp_deferring, Bridge.opened]
    split <;> exact wp_freePtr (wp_free rfl)
  · refine ⟨_, rfl, ?_⟩
    simp only [wp_bind, wp_pure, Bridge.opened]
    refine ⟨⟨hopens, Multiset.le_add_right _ _⟩, fun id _ => ?_⟩
    show wp protocol _ _ (g.withLive (ptr.resources + ({.mem cpath.addr} + L) - ptr.resources))
    rw [add_tsub_cancel_left]
    exact wp_free rfl

/-- **`Open`** gives everything back. -/
theorem openLibrary_spec {path : GoString} :
    wp protocol (openLibrary path) (fun _ g' => g'.Idle ∧ g'.aborted = false)
      (Held.start (.openLibrary path)) := by
  have hidle : (Held.start (.openLibrary path)).Idle ∧
      (Held.start (.openLibrary path)).aborted = false :=
    ⟨⟨rfl, rfl, rfl, rfl, rfl, rfl, rfl, rfl, rfl, rfl, rfl, rfl, rfl, rfl⟩, rfl⟩
  unfold openLibrary
  split
  · exact hidle
  simp only [wp_bind]
  refine wp_perform.2 ⟨trivial, fun res _ => ?_⟩
  cases res with
  | error err => exact hidle
  | ok path' =>
    refine wp_mono ?_ (openPath_spec (g := Held.start (.openLibrary path)) (L := 0) rfl
      trivial)
    rintro _ _ rfl
    exact hidle

end

end Onnxcraft
