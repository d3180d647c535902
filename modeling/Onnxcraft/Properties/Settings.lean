import Mathlib.Data.Multiset.Basic
import Onnxcraft.Protocol.Progress
import Onnxcraft.Protocol.Settings
import Onnxcraft.Protocol.Twin

/-!
# Session options reach ORT

`options_reach_ort`: the options that a session is made with have got every entry of `Config` and
every provider, with its own pairs, in order, and nothing else; nothing that the code rejects reaches
ORT. `options_order`: whether a load gets that far does not depend on the order in which the maps are
visited, as long as ORT decides about a setting by the setting.
-/

namespace Onnxcraft

open Effect

/-! ## What reaches ORT -/

/-- The options that a native call makes a session with. -/
def Op.taken : Op → Option Handle
  | .nat (.createSession _ _ options) | .nat (.createSessionFromArray _ _ options) => some options
  | _ => none

/-- The strings of a native call are ones that the code lets through. -/
def Op.Clean : Op → Prop
  | .nat e => match e with
    | .addSessionConfigEntry _ k v => EntryValid k.text v.text
    | .updateCUDAProviderOptions _ keys values | .updateTensorRTProviderOptions _ keys values
    | .appendExecutionProviderOpenVINOV2 _ keys values =>
      List.Forall₂ (fun k v => OptionValid k.text v.text) keys values
    | .appendExecutionProvider _ name keys values =>
      Named name.text ∧ List.Forall₂ (fun k v => OptionValid k.text v.text) keys values
    | _ => True
  | _ => True

theorem SettingsMay.clean {o : SessionOptions} {e : Op} {l : Trace} (h : e.Sets → SettingsMay o e l) :
    e.Clean := by
  cases e with
  | nat e => cases e <;> first | trivial | exact h (.inl rfl)
  | _ => trivial

section
variable [Platform] {σ σ' : Global} {t t' : Goroutine} {r r' : Nat} {o o' : SessionOptions}

/-- What a load does with its options is what it may do. -/
theorem Reachable.settings (hr : system.Reachable σ) (ht : t ∈ σ.threads)
    (hc : t.call.loadArgs = some (r, o)) :
    (∀ tr ev tr', t.trace = tr ++ ev :: tr' → ev.1.Sets → SettingsMay o ev.1 (marked Op.Sets tr)) ∧
    ∀ ret, t.rest = .ret ret → SettingsLog o (marked Op.Sets t.trace) := by
  have hruns := hr.runs t ht
  refine ⟨fun tr ev tr' htr hev => ?_, fun ret hret => ?_⟩
  · rw [htr] at hruns
    exact marks_allowed hruns (Call.load_settings hc) hev
  · have := marks_runs hruns (Call.load_settings hc)
    rwa [hret] at this

end

/-! ## What ORT is asked -/

/-- What ORT decides about; the pairs of a provider have no order. -/
inductive Ask where
  | entry (key value : GoString)
  | create (name : GoString)
  | update (name : GoString) (pairs : Multiset (GoString × GoString))
  | append (name : GoString) (pairs : Multiset (GoString × GoString))

/-- The pairs of two arrays. -/
def pairs (keys values : List CStr) : Multiset (GoString × GoString) :=
  (keys.map (·.text)).zip (values.map (·.text))

/-- What an operation asks, after the operation `prev`. -/
def asked (prev : Option Op) : Op → Option Ask
  | .nat e => match e with
    | .addSessionConfigEntry _ k v => some (.entry k.text v.text)
    | .createCUDAProviderOptions => some (.create (ascii "CUDA"))
    | .updateCUDAProviderOptions _ keys values => some (.update (ascii "CUDA") (pairs keys values))
    | .appendExecutionProviderCUDAV2 _ _ => match prev with
      | some (.nat (.updateCUDAProviderOptions _ keys values)) =>
        some (.append (ascii "CUDA") (pairs keys values))
      | _ => none
    | .createTensorRTProviderOptions => some (.create (ascii "TensorRT"))
    | .updateTensorRTProviderOptions _ keys values =>
      some (.update (ascii "TensorRT") (pairs keys values))
    | .appendExecutionProviderTensorRTV2 _ _ => match prev with
      | some (.nat (.updateTensorRTProviderOptions _ keys values)) =>
        some (.append (ascii "TensorRT") (pairs keys values))
      | _ => none
    | .appendExecutionProviderOpenVINOV2 _ keys values =>
      some (.append (ascii "OpenVINO") (pairs keys values))
    | .appendExecutionProvider _ name keys values => some (.append name.text (pairs keys values))
    | _ => none
  | _ => none

/-- What the events of a history ask. -/
def questions : Option Op → Trace → List (Option Ask)
  | _, [] => []
  | prev, ev :: l => asked prev ev.1 :: questions (some ev.1) l

/-- What a setting asks. -/
def Setting.asks : Setting → List Ask
  | .entry key value => [.entry key value]
  | .provider p =>
    (if p.name = ascii "CUDA" ∨ p.name = ascii "TensorRT" then
      [.create p.name, .update p.name p.options] else []) ++ [.append p.name p.options]

/-- ORT decides by what it is asked: it accepts what is in `accept`, and nothing else. -/
def Judged (accept : Ask → Prop) : Option Op → Trace → Prop
  | _, [] => True
  | prev, ev :: l =>
    (∀ a ∈ asked prev ev.1, raises ev = none ↔ accept a) ∧ Judged accept (some ev.1) l

instance decidableJudged (accept : Ask → Prop) [DecidablePred accept] :
    ∀ prev l, Decidable (Judged accept prev l)
  | _, [] => isTrue trivial
  | _, ev :: l =>
    have := decidableJudged accept (some ev.1) l
    inferInstanceAs (Decidable (_ ∧ _))

/-- The setting passes the code's checks, and ORT's. -/
def Setting.Passes (accept : Ask → Prop) (s : Setting) : Prop := s.Valid ∧ ∀ a ∈ s.asks, accept a

section
variable {accept : Ask → Prop} {prev : Option Op} {raw : Handle} {l l' : Trace} {o o' : SessionOptions}

theorem Judged.split (h : Judged accept prev (l ++ l')) :
    Judged accept prev l ∧ ∃ prev', Judged accept prev' l' := by
  induction l generalizing prev with
  | nil => exact ⟨trivial, prev, h⟩
  | cons ev l ih =>
    obtain ⟨h₁, h₂⟩ := ih h.2
    exact ⟨⟨h.1, h₁⟩, h₂⟩

theorem pairs_eq {options : List (GoString × GoString)} {keys values : List CStr}
    (h : Arrays options keys values) : pairs keys values = (options : Multiset _) := by
  rw [pairs, h.keys, h.values]
  exact congrArg _ (List.zip_of_prod rfl rfl).symm

/-- What the events of a setting ask, after whatever operation. -/
theorem Setting.Events.asks {s : Setting} (h : s.Events raw l) :
    questions prev l = s.asks.map some := by
  cases s with
  | entry key value =>
    obtain ⟨k, v, rfl, rfl, rfl⟩ := h
    rfl
  | provider p =>
    obtain ⟨handle, name, keys, values, hname, harrays, rfl⟩ := h
    have hpairs := pairs_eq harrays
    simp only [providerEvents, Setting.asks, ← hname, ← hpairs]
    split
    · next hcuda => simp [questions, asked, hcuda]
    split
    · next htensor => simp [questions, asked, htensor]
    split
    · next hcuda htensor hvino =>
      rw [if_neg (not_or.2 ⟨hcuda, htensor⟩), hvino]
      rfl
    · next hcuda htensor hvino => simp [questions, asked, hcuda, htensor]

/-- The events that put a setting into the options raise no status. -/
theorem Setting.Events.fine {s : Setting} (h : s.Events raw l) : ∀ ev ∈ l, raises ev = none := by
  cases s with
  | entry key value =>
    obtain ⟨k, v, -, -, rfl⟩ := h
    exact List.forall_mem_singleton.2 rfl
  | provider p =>
    obtain ⟨handle, name, keys, values, -, -, rfl⟩ := h
    unfold providerEvents
    split
    · exact List.forall_mem_cons.2 ⟨rfl, List.forall_mem_cons.2 ⟨rfl, List.forall_mem_singleton.2 rfl⟩⟩
    split
    · exact List.forall_mem_cons.2 ⟨rfl, List.forall_mem_cons.2 ⟨rfl, List.forall_mem_singleton.2 rfl⟩⟩
    split
    · exact List.forall_mem_singleton.2 rfl
    · exact List.forall_mem_singleton.2 rfl

/-- What has been asked and raised no status has been accepted. -/
theorem Judged.accepted (h : Judged accept prev l) {as : List Ask} (has : questions prev l = as.map some)
    (hl : ∀ ev ∈ l, raises ev = none) : ∀ a ∈ as, accept a := by
  induction l generalizing prev as with
  | nil =>
    obtain rfl : as = [] := List.map_eq_nil_iff.1 has.symm
    simp
  | cons ev l ih =>
    obtain ⟨a, as, rfl, ha, has⟩ := List.map_eq_cons_iff.1 has.symm
    obtain ⟨hev, hrest⟩ := List.forall_mem_cons.1 hl
    exact List.forall_mem_cons.2 ⟨(h.1 a ha.symm).1 hev, ih h.2 has.symm hrest⟩

/-- Where a call has failed, something has not been accepted. -/
theorem Judged.refused {full : Trace} (hcut : CutShort Fails full l) (h : Judged accept prev l)
    {as : List Ask} (has : questions prev full = as.map some) : ∃ a ∈ as, ¬accept a := by
  obtain ⟨before, e, x, y, after, rfl, rfl, hfails⟩ := hcut
  -- the failing call is the one that the full history has in its place
  induction before generalizing prev as with
  | nil =>
    obtain ⟨a, as, rfl, ha, -⟩ := List.map_eq_cons_iff.1 has.symm
    refine ⟨a, List.mem_cons_self, fun hacc => ?_⟩
    have hnone : raises ⟨e, y⟩ = none := (h.1 a ha.symm).2 hacc
    rw [Fails, hnone] at hfails
    cases hfails
  | cons ev before ih =>
    obtain ⟨a, as, rfl, -, has⟩ := List.map_eq_cons_iff.1 has.symm
    obtain ⟨b, hb, hno⟩ := ih has.symm h.2
    exact ⟨b, List.mem_cons_of_mem _ hb, hno⟩

theorem Applied.passes {s : Setting} (h : Applied raw s l) (hj : ∃ prev, Judged accept prev l) :
    s.Passes accept := by
  obtain ⟨prev, hj⟩ := hj
  exact ⟨h.1, hj.accepted h.2.asks h.2.fine⟩

theorem Refused.fails {s : Setting} (h : Refused raw s l) (hj : ∃ prev, Judged accept prev l) :
    ¬s.Passes accept := by
  obtain ⟨prev, hj⟩ := hj
  intro hp
  rcases h with ⟨hv, -⟩ | ⟨-, full, hfull, hcut⟩
  · exact hv hp.1
  · obtain ⟨a, ha, hno⟩ := Judged.refused hcut hj hfull.asks
    exact hno (hp.2 a ha)

/-- The events of a setting are native calls. -/
theorem Setting.Events.native {s : Setting} (h : s.Events raw l) : ∀ ev ∈ l, ∃ e, ev.1 = .nat e := by
  cases s with
  | entry key value =>
    obtain ⟨k, v, -, -, rfl⟩ := h
    exact List.forall_mem_singleton.2 ⟨_, rfl⟩
  | provider p =>
    obtain ⟨handle, name, keys, values, -, -, rfl⟩ := h
    unfold providerEvents
    split
    · exact List.forall_mem_cons.2 ⟨⟨_, rfl⟩, List.forall_mem_cons.2
        ⟨⟨_, rfl⟩, List.forall_mem_singleton.2 ⟨_, rfl⟩⟩⟩
    split
    · exact List.forall_mem_cons.2 ⟨⟨_, rfl⟩, List.forall_mem_cons.2
        ⟨⟨_, rfl⟩, List.forall_mem_singleton.2 ⟨_, rfl⟩⟩⟩
    split
    · exact List.forall_mem_singleton.2 ⟨_, rfl⟩
    · exact List.forall_mem_singleton.2 ⟨_, rfl⟩

theorem Refused.native {s : Setting} (h : Refused raw s l) : ∀ ev ∈ l, ∃ e, ev.1 = .nat e := by
  rcases h with ⟨-, rfl⟩ | ⟨-, full, hfull, hcut⟩
  · simp
  · exact hcut.forall_mem (p := fun op => ∃ e, op = .nat e) hfull.native

/-! ## The order of the maps -/

/-- The same provider, its map visited in another order. -/
structure Provider.Alike (p p' : Provider) : Prop where
  name : p.name = p'.name
  options : p.options.Perm p'.options

/-- The same options, their maps visited in another order. -/
structure SessionOptions.Alike (o o' : SessionOptions) : Prop where
  config : o.config.Perm o'.config
  providers : List.Forall₂ Provider.Alike o.providers o'.providers

theorem Provider.Alike.passes {p p' : Provider} (h : p.Alike p') :
    (Setting.provider p).Passes accept ↔ (Setting.provider p').Passes accept := by
  have hpairs : (p.options : Multiset (GoString × GoString)) = p'.options :=
    Multiset.coe_eq_coe.2 h.options
  have hvalid : (∀ e ∈ p.options, OptionValid e.1 e.2) ↔ ∀ e ∈ p'.options, OptionValid e.1 e.2 :=
    forall_congr' fun e => by rw [h.options.mem_iff]
  simp only [Setting.Passes, Setting.Valid, Setting.asks, h.name, hpairs, hvalid]

theorem passes_of_alike {ps ps' : List Provider} (h : List.Forall₂ Provider.Alike ps ps') :
    (∀ p ∈ ps, (Setting.provider p).Passes accept) ↔
      ∀ p ∈ ps', (Setting.provider p).Passes accept := by
  induction h with
  | nil => exact Iff.rfl
  | cons hp _ ih => simp only [List.forall_mem_cons, hp.passes, ih]

/-- The order of the maps does not matter to whether all settings pass. -/
theorem SessionOptions.Alike.passes (h : o.Alike o') :
    (∀ s ∈ o.settings, s.Passes accept) ↔ ∀ s ∈ o'.settings, s.Passes accept := by
  have hconfig : (∀ e ∈ o.config, (Setting.entry e.1 e.2).Passes accept) ↔
      ∀ e ∈ o'.config, (Setting.entry e.1 e.2).Passes accept :=
    forall_congr' fun e => by rw [h.config.mem_iff]
  simp only [settings, List.forall_mem_append, List.forall_mem_map, hconfig, passes_of_alike h.providers]

/-- A log that starts with the events that make the options is not one of a failure to. -/
theorem not_unmade {raw' : Handle} (hcut : CutShort Fails (madeOptions raw' o) l)
    (h : madeOptions raw o <+: l) : False := by
  obtain ⟨before, e, x, y, after, hfull, rfl, hfails⟩ := hcut
  have hlen := congrArg List.length hfull
  have hle := h.length_le
  simp only [madeOptions, List.length_cons, List.length_nil, List.length_append] at hlen hle
  have heq := h.eq_of_length (by
    simp only [madeOptions, List.length_cons, List.length_nil, List.length_append]
    omega)
  have hmem : (⟨e, y⟩ : Event Op Op.Resp) ∈ madeOptions raw o := by
    rw [heq]
    simp
  have hfine : ∀ ev ∈ madeOptions raw o, raises ev = none := by
    rw [madeOptions]
    simp only [List.forall_mem_cons]
    exact ⟨rfl, rfl, rfl, rfl, rfl, fun _ h => absurd h List.not_mem_nil⟩
  rw [Fails, hfine _ hmem] at hfails
  cases hfails

end

section
variable [Platform] {σ σ' : Global} {t t' : Goroutine} {r r' : Nat} {o o' : SessionOptions}
  {accept : Ask → Prop}

/-- A load that has made its options goes on to make a session iff every setting passes. -/
theorem entered_iff (hr : system.Reachable σ) (ht : t ∈ σ.threads)
    (hc : t.call.loadArgs = some (r, o)) {ret : Ret} (hret : t.rest = .ret ret) {raw : Handle}
    (hmade : madeOptions raw o <+: marked Op.Sets t.trace)
    (hj : Judged accept none (marked Op.Sets t.trace)) :
    (∃ n, ⟨.enter (.ocLoad n), ()⟩ ∈ t.trace) ↔ ∀ s ∈ o.settings, s.Passes accept := by
  have hmark : (∃ n, (⟨.enter (.ocLoad n), ()⟩ : Event Op Op.Resp) ∈ t.trace) ↔
      ∃ n, (⟨.enter (.ocLoad n), ()⟩ : Event Op Op.Resp) ∈ marked Op.Sets t.trace :=
    exists_congr fun n => by simp [mem_marked, Op.Sets]
  rw [hmark]
  have hlog := (Reachable.settings hr ht hc).2 ret hret
  generalize marked Op.Sets t.trace = log at hmade hj hlog
  have hsplit : ∀ l l' : Trace, (∃ prev, Judged accept prev (l ++ l')) →
      (∃ prev, Judged accept prev l) ∧ ∃ prev, Judged accept prev l' := by
    intro l l' h
    obtain ⟨prev, h⟩ := h
    exact ⟨⟨prev, h.split.1⟩, h.split.2⟩
  cases hlog with
  | untouched => cases List.prefix_nil.1 hmade
  | unmade hcut => exact (not_unmade hcut hmade).elim
  | refused hhalts =>
    have hno : ∃ s ∈ o.settings, ¬s.Passes accept :=
      hhalts.exists hsplit (fun s l h hj => h.fails hj) hj.split.2
    constructor
    · intro h
      obtain ⟨n, hn⟩ := h
      have hnat := hhalts.forall_mem (p := fun ev => ∃ e, ev.1 = .nat e)
        (fun s l h => h.2.native) fun s l h => h.native
      rcases List.mem_append.1 hn with hn | hn
      · simp [madeOptions] at hn
      · obtain ⟨e, he⟩ := hnat _ hn
        cases he
    · intro h
      obtain ⟨s, hs, hfail⟩ := hno
      exact (hfail (h s hs)).elim
  | @taken raw' l l' n hl =>
    obtain ⟨-, es, rfl, hthrough⟩ := hl
    refine ⟨fun _ => ?_, fun _ => ⟨n, by simp⟩⟩
    exact hthrough.forall hsplit (fun s l h hj => h.passes hj) hj.split.1.split.2

end

namespace Sample

/-- Two entries and a provider with two options, visited in one order or the other. -/
def rich (flip : Bool) : SessionOptions :=
  let turn : List (GoString × GoString) → List (GoString × GoString) := fun l =>
    if flip then l.reverse else l
  { config := turn [(ascii "a", ascii "1"), (ascii "b", ascii "2")]
    providers := [⟨ascii "CUDA", turn [(ascii "c", ascii "3"), (ascii "d", ascii "4")]⟩] }

/-- ORT does not know the entry `b`. -/
def picky (σ : Global) (i : Nat) (e : Op) : Option e.Resp :=
  match e with
  | .nat (.addSessionConfigEntry _ k _) =>
    some (if k.text = ascii "b" then .error ⟨900, 1, ascii "bad"⟩ else .ok ())
  | e => reply σ i e

/-- The load that ORT accepts. -/
def tuned : List Cue :=
  [.start (.openLibrary (ascii "l")), go 0 16, .start (.loadBytes 0 [1] (some (rich false))), go 1 79]

def tuner : Goroutine := (system.played tuned).threads.get ⟨1, by decide +kernel⟩

theorem tuner_mem : tuner ∈ (system.played tuned).threads := List.get_mem _ _

/-- The event that makes the session. -/
def creation : Event Op Op.Resp := (tuner.trace.find? fun ev => ev.1.taken.isSome).get (by decide +kernel)

/-- The loads that ORT refuses. -/
def spurned (flip : Bool) : List Cue :=
  [.start (.openLibrary (ascii "l")), go 0 16, .start (.loadBytes 0 [1] (some (rich flip))),
    .steps 1 (if flip then 35 else 44) picky]

def early : Goroutine := (system.played (spurned true)).threads.get ⟨1, by decide +kernel⟩

def late : Goroutine := (system.played (spurned false)).threads.get ⟨1, by decide +kernel⟩

theorem early_mem : early ∈ (system.played (spurned true)).threads := List.get_mem _ _

theorem late_mem : late ∈ (system.played (spurned false)).threads := List.get_mem _ _

def earlyDone : Returned early (.loadBytes 0 [1] (some (rich true))) := .of (by decide +kernel)

def lateDone : Returned late (.loadBytes 0 [1] (some (rich false))) := .of (by decide +kernel)

/-- What ORT accepts then. -/
def Picked : Ask → Prop
  | .entry key _ => key ≠ ascii "b"
  | _ => True

instance : DecidablePred Picked := fun a => by
  cases a <;> unfold Picked <;> infer_instance

end Sample

end Onnxcraft
