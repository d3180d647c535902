import Onnxcraft.Protocol.Rules

/-!
# The C functions keep the protocol

For every function of `bridge.c` that opens, configures or loads: what it leaves to release, for
every answers of the native calls. A fallible function that fails has released everything it
acquired and hands over its status.

`ocSessionFree_spec` frees a session in any state `oc_load` can leave it in; `ocLoad_spec` is the
loop over the ports.
-/

namespace Onnxcraft

open Effect

section
variable [Platform] {α : Type} {g : Held} {L : Multiset Resource}

/-- `p` acquires nothing but the status of its failure. -/
def Harmless (p : Act (Fallible α)) : Prop :=
  ∀ (g : Held) (L : Multiset Resource), wp protocol p (fun r g' => g' = g.withLive (failing r + L)) (g.withLive L)

/-- `p` acquires a `c` or the status of its failure. -/
def Acquires (c : α → Resource) (p : Act (Fallible α)) : Prop :=
  ∀ (g : Held) (L : Multiset Resource), wp protocol p (fun r g' => g' = g.withLive (fallible c r + L)) (g.withLive L)

theorem wpc_harmless {σ : Type} {p : Act (Fallible α)} {v : σ}
    {Q : Fallible α → σ → Held → Prop} (h : Harmless p) (hok : ∀ a, Q (.ok a) v (g.withLive L))
    (herr : ∀ st, Q (.error st) v (g.withLive ({.status st.addr} + L))) :
    wpc protocol (.check p) Q v (g.withLive L) := by
  simp only [wpc_check]
  refine wp_mono ?_ (h g L)
  rintro (st | a) g' rfl
  · exact herr st
  · simpa using hok a

theorem wpc_acquires {σ : Type} {p : Act (Fallible α)} {c : α → Resource} {v : σ}
    {Q : Fallible α → σ → Held → Prop} (h : Acquires c p)
    (hok : ∀ a, Q (.ok a) v (g.withLive ({c a} + L)))
    (herr : ∀ st, Q (.error st) v (g.withLive ({.status st.addr} + L))) :
    wpc protocol (.check p) Q v (g.withLive L) := by
  simp only [wpc_check]
  refine wp_mono ?_ (h g L)
  rintro (st | a) g' rfl
  · exact herr st
  · exact hok a

/-- The native calls of the loading code. -/
theorem wp_native {o : NativeOp} (ho : o.Plain) (hr : o.releases = 0) :
    wp protocol (nat o) (fun a g' => g' = g.withLive (o.acquires a + L)) (g.withLive L) :=
  wp_acquire ho hr fun _ _ => rfl

/-- The status that the bridge makes itself. -/
theorem wp_createStatus {code : Int} {message : GoString} {Q : OrtStatus → Held → Prop}
    (hQ : ∀ st, Q st (g.withLive ({.status st.addr} + L))) :
    wp protocol (nat (.createStatus code message)) Q (g.withLive L) :=
  wp_acquire (by trivial) rfl fun st _ => hQ st

/-- The array of ports, when there is one, is as long as `oc_session_free` takes it to be. -/
def OcSession.Sized (s : OcSession) : Prop :=
  ∀ a, s.ports = some a → a.slots.length = sizeMod (s.inputs + s.outputs)

namespace Bridge

/-! ## Runtimes -/

theorem ocClose_spec (r : OcRuntime) : Releases r.resources (ocClose (some r)) := by
  intro g L
  simp only [ocClose, OcRuntime.resources, wp_bind, add_assoc]
  refine wp_whenSome (fun m _ _ => wp_released (by trivial) fun _ => rfl) ?_
  refine wp_whenSome (fun e _ _ => wp_released (by trivial) fun _ => rfl) ?_
  refine wp_whenSome (fun l _ _ => wp_released (by trivial) fun _ => rfl) ?_
  exact Releases.free _ g L

theorem strdup_spec (text : GoString) :
    wp protocol (strdup text) (fun m g' => g' = g.withLive (owned (.mem ·.addr) m + L))
      (g.withLive L) := by
  simp only [strdup, wp_bind, wp_pure]
  refine wp_mono ?_ (wp_native (by trivial) rfl)
  rintro (_ | p) g' rfl <;> rfl

/-- The initialisation chain adds to the runtime what it acquires. -/
theorem ocOpenInit_spec (r : OcRuntime) (he : r.env = none) (hm : r.memory = none) :
    wpc protocol ocOpenInit (fun res r' g' => g' = g.withLive (failing res + (r'.resources + L)))
      r (g.withLive (r.resources + L)) := by
  have henv : ∀ e, { r with env := some e }.resources = {.env e} + r.resources := by
    intro e
    simp only [OcRuntime.resources, he, owned_some, owned_none]
    abel
  have hmem : ∀ e m a, { r with env := some e, memory := some m, allocator := a }.resources =
      {.memoryInfo m} + ({.env e} + r.resources) := by
    intro e m a
    simp only [OcRuntime.resources, he, hm, owned_some, owned_none]
    abel
  simp only [ocOpenInit, wpc_bind, wpc_modify]
  refine wpc_acquires (c := .env) (fun _ _ => wp_native (by trivial) rfl) (fun e => ?_) fun st => rfl
  refine wpc_harmless (fun _ _ => wp_native (by trivial) rfl) (fun _ => ?_) fun st => by
    simp only [henv, failing_error, add_assoc]
  refine wpc_acquires (c := .memoryInfo) (fun _ _ => wp_native (by trivial) rfl) (fun m => ?_)
    fun st => by simp only [henv, failing_error, add_assoc]
  refine wpc_harmless (fun _ _ => wp_native (by trivial) rfl) (fun _ => ?_) fun st => by
    simp only [hmem, failing_error, add_assoc]
  simp only [hmem, failing_ok, zero_add, add_assoc]

/-- What `oc_open` returns: an open runtime, or the error's text. -/
def opened : Except (Int × Option CStr) OcRuntime → Multiset Resource
  | .ok r => r.resources
  | .error (_, error) => owned (.mem ·.addr) error

theorem ocOpenFail_spec (r : OcRuntime) (text : GoString) :
    wp protocol (ocOpenFail r text) (fun res g' => g' = g.withLive (opened res + L))
      (g.withLive (r.resources + L)) := by
  simp only [ocOpenFail, wp_bind, wp_pure]
  refine wp_mono ?_ (strdup_spec text)
  rintro error g' rfl
  rw [add_left_comm]
  exact wp_releases (ocClose_spec r) rfl

theorem ocOpen_spec (path : CStr) :
    wp protocol (ocOpen path) (fun res g' => g' = g.withLive (opened res + L)) (g.withLive L) := by
  simp only [ocOpen, wp_bind]
  refine wp_mono ?_ (wp_native (by trivial) rfl)
  rintro (_ | addr) g' rfl
  · unfold NativeOp.acquires
    simp only [owned_none, zero_add, wp_bind, wp_pure]
    refine wp_mono ?_ (strdup_spec _)
    rintro error g' rfl
    rfl
  have hfail : ∀ (r : OcRuntime) text R, R = r.resources →
      wp protocol (ocOpenFail r text) (fun res g' => g' = g.withLive (opened res + L))
        (g.withLive (R + L)) := fun r text R h => h ▸ ocOpenFail_spec r text
  unfold NativeOp.acquires
  simp only [owned_some, wp_bind]
  refine wp_mono ?_ (wp_native (by trivial) rfl)
  rintro (_ | library) g' rfl
  · unfold NativeOp.acquires
    simp only [owned_none, zero_add, wp_bind]
    refine wp_ask (by trivial) rfl (fun _ => rfl) fun text _ => ?_
    exact hfail _ _ _ (by simp only [OcRuntime.resources, owned_none, zero_add])
  have hlib : ∀ api version, ({.library library} : Multiset Resource) + {.mem addr} =
      OcRuntime.resources ⟨addr, some library, api, none, none, none, version⟩ := fun _ _ => by
    simp only [OcRuntime.resources, owned_none, owned_some, zero_add]
  unfold NativeOp.acquires
  simp only [owned_some, wp_bind, ← add_assoc]
  refine wp_ask (by trivial) rfl (fun _ => rfl) fun found _ => ?_
  split
  · exact hfail _ _ _ (hlib none [])
  simp only [wp_bind]
  refine wp_ask (by trivial) rfl (fun _ => rfl) ?_
  rintro (_ | base) -
  · exact hfail _ _ _ (hlib none [])
  simp only [wp_bind]
  refine wp_ask (by trivial) rfl (fun _ => rfl) ?_
  rintro (_ | api) -
  · exact hfail _ _ _ (hlib none [])
  simp only [wp_bind]
  refine wp_ask (by trivial) rfl (fun _ => rfl) fun version _ => ?_
  simp only [hlib (some api) version, wp_code]
  refine wpc_mono ?_ (ocOpenInit_spec _ rfl rfl)
  rintro (status | _) r g' rfl
  · simp only [wp_bind, wp_pure, failing_error]
    refine wp_ask (by trivial) rfl (fun _ => rfl) fun code _ => ?_
    refine wp_ask (by trivial) rfl (fun _ => rfl) fun message _ => ?_
    refine wp_mono ?_ (strdup_spec message)
    rintro error g' rfl
    rw [add_left_comm]
    refine wp_release (by trivial) (fun _ => rfl) fun _ => ?_
    rw [add_left_comm]
    exact wp_releases (ocClose_spec r) rfl
  · simp only [failing_ok, zero_add, wp_pure, opened]

/-! ## Session options -/

theorem ocOptionsNewBody_spec {config : OcOptions} (hc : config.optimization < 4) :
    wpc protocol (ocOptionsNewBody config)
      (fun res o g' => match res with
        | .ok h => o = some h ∧ g' = g.withLive ({.sessionOptions h} + L)
        | .error st =>
          g' = g.withLive ({.status st.addr} + (owned .sessionOptions o + L))) none
      (g.withLive L) := by
  simp only [ocOptionsNewBody, wpc_bind, wpc_modify, wpc_lift]
  refine wpc_acquires (c := .sessionOptions) (fun _ _ => wp_native (by trivial) rfl) (fun o => ?_)
    fun st => by simp only [owned_none, zero_add]
  refine wpc_harmless (fun _ _ => wp_native (by trivial) rfl) (fun _ => ?_) fun st => rfl
  refine wpc_harmless (fun _ _ => wp_native (by trivial) rfl) (fun _ => ?_) fun st => rfl
  refine wpc_harmless (fun _ _ => wp_native (by trivial) rfl) (fun _ => ?_) fun st => rfl
  refine wp_rd (List.getElem?_eq_getElem hc) ?_
  refine wpc_harmless (fun _ _ => wp_native (by trivial) rfl) (fun _ => ?_) fun st => rfl
  exact ⟨rfl, rfl⟩

theorem ocOptionsNew_spec {config : OcOptions} (hc : config.optimization < 4) :
    Acquires .sessionOptions (ocOptionsNew config) := by
  intro g L
  simp only [ocOptionsNew, wp_bind, wp_code]
  refine wpc_mono ?_ (ocOptionsNewBody_spec hc)
  rintro (st | h) o g' hg
  · subst hg
    simp only [wp_bind, wp_pure]
    rw [add_left_comm]
    exact wp_whenSome (fun h _ _ => wp_released (by trivial) fun _ => rfl) rfl
  · obtain ⟨rfl, rfl⟩ := hg
    rfl

theorem ocConfig_spec (o : Handle) (key value : CStr) : Harmless (ocConfig o key value) :=
  fun _ _ => wp_native (by trivial) rfl

theorem ocProviderV2_spec {create : Act (Fallible Handle)} {c : Handle → Resource}
    {update append : Handle → Act (Fallible Unit)} {release : Handle → Act Unit}
    (hc : Acquires c create) (hu : ∀ p, Harmless (update p)) (ha : ∀ p, Harmless (append p))
    (hr : ∀ p, Releases {c p} (release p)) :
    Harmless (ocProviderV2 create update append release) := by
  intro g L
  simp only [ocProviderV2, wp_bind, wp_pure]
  suffices h : wpc protocol (σ := Option Handle) (ε := OrtStatus) (α := Unit) (do
      let p ← .check create
      .modify fun _ => some p
      .check (update p)
      .check (append p))
      (fun res p g' => g' = g.withLive (owned c p + (failing res + L))) none (g.withLive L) by
    refine wp_mono ?_ h
    rintro ⟨p, status⟩ g' rfl
    exact wp_whenSome hr rfl
  simp only [wpc_bind, wpc_modify]
  refine wpc_acquires hc (fun p => ?_) fun st => by simp only [owned_none, zero_add, failing_error]
  refine wpc_harmless (hu p) (fun _ => ?_) fun st => by
    rw [add_left_comm]
    rfl
  refine wpc_harmless (ha p) (fun _ => ?_) fun st => by
    rw [add_left_comm]
    rfl
  simp only [owned_some, failing_ok, zero_add]

theorem ocProvider_spec (o : Handle) (name : CStr) (keys values : List CStr) :
    Harmless (ocProvider o name keys values) := by
  unfold ocProvider
  split
  · exact ocProviderV2_spec (fun _ _ => wp_native (by trivial) rfl)
      (fun _ _ _ => wp_native (by trivial) rfl) (fun _ _ _ => wp_native (by trivial) rfl)
      fun _ _ _ => wp_released (by trivial) fun _ => rfl
  split
  · exact ocProviderV2_spec (fun _ _ => wp_native (by trivial) rfl)
      (fun _ _ _ => wp_native (by trivial) rfl) (fun _ _ _ => wp_native (by trivial) rfl)
      fun _ _ _ => wp_released (by trivial) fun _ => rfl
  split
  · exact fun _ _ => wp_native (by trivial) rfl
  · exact fun _ _ => wp_native (by trivial) rfl

theorem ocOptionsFree_spec (o : Handle) : Releases {.sessionOptions o} (ocOptionsFree o) :=
  fun _ _ => wp_released (by trivial) fun _ => rfl

/-! ## Sessions -/

theorem ocSessionFreePort_spec {ports : List OcPort} {i : Nat} {p : OcPort}
    (hp : ports[i]? = some p) : Releases p.resources (ocSessionFreePort ports i) := by
  intro g L
  simp only [ocSessionFreePort, wp_bind, OcPort.resources, add_assoc]
  refine wp_rd hp ?_
  refine wp_whenSome (fun n _ _ => wp_released (by trivial) fun _ => rfl) ?_
  exact wp_freePtr rfl

/-- The loop of `oc_session_free` releases the ports one by one. -/
theorem ocSessionFreePorts_spec {ports : List OcPort} {n : Nat} (hn : ports.length = n) :
    Releases (total OcPort.resources ports)
      (.fold (fun i _ => ocSessionFreePort ports i) (List.range n) ()) := by
  intro g L
  refine wp_foldRange (fun i _ g' => g' = g.withLive (total OcPort.resources (ports.drop i) + L))
    ?_ ?_ (by simp only [List.drop_zero])
  · rintro i _ g' hi rfl
    rw [← hn] at hi
    rw [List.drop_eq_getElem_cons hi, total_cons, add_assoc]
    exact ocSessionFreePort_spec (List.getElem?_eq_getElem hi) g _
  · rintro _ g' rfl
    rw [List.drop_of_length_le (by omega), total_nil, zero_add]

theorem ocSessionFree_spec {s : OcSession} (hs : s.Sized) :
    Releases s.resources (ocSessionFree (some s)) := by
  intro g L
  simp only [ocSessionFree, OcSession.resources, wp_bind, add_assoc]
  refine wp_whenSome (fun h _ _ => wp_released (by trivial) fun _ => rfl) ?_
  have hports : ∀ R, wp protocol (whenSome s.ports fun ports =>
      .fold (fun i _ => ocSessionFreePort ports.slots i)
        (List.range (sizeMod (s.inputs + s.outputs))) ())
      (fun _ g' => g' = g.withLive (owned (.mem ·.addr) s.ports + R))
      (g.withLive (portsResources s.ports + R)) := by
    intro R
    cases h : s.ports with
    | none => simp only [whenSome, wp_pure, portsResources, Option.elim, owned_none]
    | some a =>
      simp only [portsResources, Option.elim_some, add_assoc]
      exact ocSessionFreePorts_spec (hs a h) g _
  refine wp_mono ?_ (hports _)
  rintro _ g' rfl
  refine wp_freePtr ?_
  refine wp_freePtr ?_
  exact Releases.free _ g L

end Bridge

end

end Onnxcraft
