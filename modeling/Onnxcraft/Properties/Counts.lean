import Onnxcraft.Properties.Closing
import Onnxcraft.Protocol.LoadLog

/-!
# Counts and sizes

`port_counts`: whatever counts and ranks ORT reports, `oc_load` never leaves its arrays and asks the
heap for no size that wraps, a session that it returns has the counts that it says (`Counted`), and
everyone who works on that session agrees on the number of its ports.
-/

namespace Onnxcraft

open Effect

section
variable [Platform]

/-- The native answers of a trace are within their documented contract. -/
def Contract (tr : Trace) : Prop := ∀ (o : NativeOp) (a : o.Resp), ⟨.nat o, a⟩ ∈ tr → o.Allows a

/-- The counts of a session and the ranks of its ports: no sum and no size wraps, and the conversions
to Go's `int` are exact. -/
structure OcSession.Counted (s : OcSession) : Prop where
  sum : sizeMod (s.inputs + s.outputs) = s.inputs + s.outputs
  pos : 0 < s.outputs
  ports : (s.inputs + s.outputs) * Bridge.portBytes < 2 ^ Platform.bits
  names : (s.inputs + s.outputs) * pointerBytes < 2 ^ Platform.bits
  toInt : toInt (sizeMod (s.inputs + s.outputs)) = s.inputs + s.outputs
  inputs : Onnxcraft.toInt s.inputs = s.inputs
  slots : ∃ ports names, s.ports = some ports ∧ s.names = some names ∧
    ports.slots.length = s.inputs + s.outputs ∧ names.slots.length = s.inputs + s.outputs ∧
    ∀ p ∈ ports.slots, p.rank * 8 < 2 ^ Platform.bits ∧ Onnxcraft.toInt p.rank = p.rank

/-- The session that a C function works on. -/
def CFunc.session : CFunc → Option OcSession
  | .ocSessionFree s => s
  | .ocRun s | .ocRunInto s | .ocOutputsFree s => some s
  | _ => none

/-- A session that `oc_load` returns. -/
theorem OcSession.Loaded.counted {s : OcSession} {r : OcRuntime} (h : s.Loaded r) : s.Counted := by
  obtain ⟨ports, names, hports, hnames, hlen, hslots, hloaded⟩ := h.ports
  have hn := h.bound
  have hbytes : 2 ≤ Bridge.portBytes := by
    unfold Bridge.portBytes pointerBytes
    rcases Platform.bits_eq with h | h <;> simp [h]
  have hsum : s.inputs + s.outputs < 2 ^ (Platform.bits - 1) := sizeMax_div hbytes hn
  have hsize := Bridge.fits_of_le hn
  have hle : (s.inputs + s.outputs) * pointerBytes ≤ (s.inputs + s.outputs) * Bridge.portBytes :=
    Nat.mul_le_mul_left _ (Nat.le_mul_of_pos_left pointerBytes (by decide))
  refine ⟨h.wrap, h.pos, hsize, hle.trans_lt hsize, ?_, toInt_eq (by omega),
    ports, names, hports, hnames, hlen, by rw [hslots, List.length_map, hlen], ?_⟩
  · rw [h.wrap, toInt_eq hsum, Nat.cast_add]
  · intro p hp
    have hrank := (hloaded p hp).bound
    exact ⟨Bridge.fits_of_le hrank, toInt_eq (sizeMax_div (by decide) hrank)⟩

/-- Answers within the contract are answers that the protocol allows. -/
theorem Contract.allows {tr : Trace} (h : Contract tr) (hu : ∀ ev ∈ tr, ev.1.Loads) (g : Held) :
    protocol.Allows tr g := by
  induction tr generalizing g with
  | nil => trivial
  | cons ev tr ih =>
    refine ⟨?_, ih (fun o a ho => h o a (List.mem_cons_of_mem _ ho))
      (fun ev hev => hu ev (List.mem_cons_of_mem _ hev)) _⟩
    obtain ⟨e, a⟩ := ev
    have he := hu _ List.mem_cons_self
    cases e with
    | nat o => exact h o a List.mem_cons_self
    | fault f => exact a.elim
    | _ => exact he.elim

/-- What native calls alone hand over. -/
theorem given_loads {tr : Trace} (hu : ∀ ev ∈ tr, ev.1.Loads) : given tr = 0 := by
  apply total_eq_zero_of
  intro ev hev
  obtain ⟨e, a⟩ := ev
  have he := hu _ hev
  cases e with
  | newRuntime n => exact he.elim
  | newSession r gated n ins outs => exact he.elim
  | _ => rfl

/-- The native session that a call has read fits its session. -/
theorem seen_matches {tr : Trace} {c : Call} (h : protocol.Valid tr (Held.start c)) {n : OcSession}
    (hn : (protocol.after tr (Held.start c)).seen = some n) :
    ∃ s, c.session = some s ∧ n.Matches s.inputs s.outputs := by
  have hseen := h.history (I := fun _ g => Along c g ∧
    ∀ n, g.seen = some n → ∃ s, c.session = some s ∧ n.Matches s.inputs s.outputs)
    ⟨.start c, fun n h => by cases h⟩ ?_
  · exact hseen.2 n hn
  intro tr g e a hg hp henv
  obtain ⟨hg, hn⟩ := hg
  refine ⟨hg.step hp, ?_⟩
  rw [protocol_upd]
  cases e with
  | sess s o =>
    cases o with
    | getNative =>
      intro n ha
      rw [← hg.call]
      exact henv.2 n ha
    | rUnlock => exact fun n h => by cases h
    | unlock => exact fun n h => by cases h
    | clearNative => exact fun n h => by cases h
    | gateSelect ctx => cases a <;> exact hn
    | _ => exact hn
  | rt r o =>
    obtain ⟨_, _, _, _, _, _, hupd⟩ := o.upd_shape g r a
    have hupd : (Op.rt r o).upd g a = _ := hupd
    rw [hupd]
    exact hn
  | cb o =>
    obtain ⟨_, _, _, hupd⟩ := o.upd_shape g a
    have hupd : (Op.cb o).upd g a = _ := hupd
    rw [hupd]
    exact hn
  | nat o =>
    obtain ⟨_, _, hupd⟩ := Held.nat_upd g o a
    have hupd : (Op.nat o).upd g a = _ := hupd
    rw [hupd]
    exact hn
  | pool o => cases o <;> exact hn
  | fault f => exact a.elim
  | _ => exact hn

/-- **Port counts.** -/
theorem port_counts :
    (∀ (r : OcRuntime) (path : Option CStr) (data : List UInt8) (options : Handle) (tr : Trace)
      (p : Act (Fallible OcSession)),
      Runs (Bridge.ocLoad r path data options) tr p → Contract tr →
      (∀ f, p.next ≠ some (.fault f)) ∧ (∀ ev ∈ tr, ev.1.Loads) ∧
      (∀ st, p = .ret (.error st) → acquired tr = released tr + {.status st.addr}) ∧
      ∀ s, p = .ret (.ok s) → s.Counted) ∧
    (∀ (r : OcRuntime) (path : Option CStr) (data : List UInt8) (options addr : Handle) (tr : Trace)
      (v : Bridge.LoadVars) (st : OrtStatus),
      Runs (Bridge.ocLoadBody r path data options ⟨Bridge.newSession addr r, none⟩) tr
        (.ret (v, .error st)) → Contract tr → v.s.Partial) ∧
    ∀ σ, system.Reachable σ → ∀ t ∈ σ.threads, ∀ (s : Session) (f : CFunc) (n : OcSession)
      (tr tr' : Trace), t.call.session = some s → t.trace = tr ++ ⟨.enter f, ()⟩ :: tr' →
      f.session = some n → (f = .ocSessionFree (some n) → t.call.Closes) →
      sizeMod (n.inputs + n.outputs) = s.inputs.length + s.outputs.length ∧
        n.inputs = s.inputs.length ∧ n.outputs = s.outputs.length ∧ 0 < n.outputs := by
  refine ⟨?_, ?_, ?_⟩
  · intro r path data options tr p hr hc
    have hu := hr.uses (Bridge.ocLoad_uses r path data options)
    let c : Call := .load 0 [] none
    have hwp := Bridge.ocLoad_spec (g := Held.start c) (L := 0) r path data options
    have hstart : (Held.start c).withLive 0 = Held.start c := rfl
    rw [hstart] at hwp
    have hallows := hc.allows hu (Held.start c)
    have hend := wp_runs hr hwp hallows
    have hlive := acquired_eq (wp_valid hr hwp hallows) not_false
    rw [given_loads hu, add_zero] at hlive
    refine ⟨?_, hu, ?_, ?_⟩
    · intro f hf
      obtain ⟨k, rfl⟩ := Prog.next_eq.1 hf
      exact hend.1
    · rintro st rfl
      rw [hlive, show protocol.after tr (Held.start c) = _ from hend]
      simp [Held.withLive]
    · rintro s rfl
      exact hend.1.counted
  · intro r path data options addr tr v st hr hc
    have hu := hr.uses (Bridge.ocLoadBody_uses r path data options _)
    have hwp : wpc protocol (Bridge.ocLoadBody r path data options) _ _ _ :=
      @Bridge.ocLoadBody_spec _ (Held.start (.load 0 [] none)) 0 r path data options addr
    exact (wp_finished hr hwp (hc.allows hu _)).1
  · intro σ hr t ht s f n tr tr' hs htr hf hcloses
    have hv := Reachable.valid hr ht
    rw [htr] at hv
    have hmay : (protocol.after tr (Held.start t.call)).MayEnter f := hv.pre.2
    have hcall := (hv.init.history (I := fun _ g => Along t.call g) (.start _)
      fun tr g e a hg hp _ => hg.step hp).call
    -- whoever works on the native session has read it under the session's lock
    have hseen : (protocol.after tr (Held.start t.call)).seen = some n := by
      cases f with
      | ocSessionFree s' =>
        obtain rfl : s' = some n := hf
        obtain ⟨n', hn', -, hexcl, hread⟩ := hmay
        obtain rfl := Option.some.inj hn'
        have hclose := hcloses rfl
        rw [← hcall] at hclose
        exact (hread (hexcl hclose)).1
      | ocRun n' =>
        obtain rfl := Option.some.inj hf
        exact hmay.1
      | ocRunInto n' =>
        obtain rfl := Option.some.inj hf
        exact hmay.1
      | ocOutputsFree n' =>
        obtain rfl := Option.some.inj hf
        exact hmay.1
      | _ => cases hf
    obtain ⟨s', hs', hfits⟩ := seen_matches hv.init hseen
    obtain rfl : s = s' := by
      rw [hs] at hs'
      exact Option.some.inj hs'
    refine ⟨?_, hfits.inputs, hfits.outputs, by rw [hfits.outputs]; exact hfits.pos⟩
    rw [hfits.inputs, hfits.outputs]
    exact Nat.mod_eq_of_lt hfits.bound

end

namespace Sample

/-- The native session on which an event enters a run. -/
def entersOn : Event Op Op.Resp → Option OcSession
  | ⟨.enter (.ocRun n), _⟩ => some n
  | _ => none

theorem entersOn_eq {ev : Event Op Op.Resp} {n : OcSession} (h : entersOn ev = some n) :
    ev = ⟨.enter (.ocRun n), ()⟩ := by
  unfold entersOn at h
  split at h
  · obtain rfl := Option.some.inj h
    rfl
  · cases h

/-- The native session that the run of the model has entered. -/
def entered : OcSession := (runner.trace.findSome? entersOn).get (by decide +kernel)

end Sample

open Sample in
theorem port_counts_sample : sizeMod (entered.inputs + entered.outputs) = 2 := by
  have hfind : runner.trace.findSome? entersOn = some entered := (Option.some_get _).symm
  obtain ⟨ev, hev, hn⟩ := List.exists_of_findSome?_eq_some hfind
  rw [entersOn_eq hn] at hev
  obtain ⟨tr, tr', htr⟩ := List.append_of_mem hev
  exact (port_counts.2.2 _ (System.played_reachable (ran true)) runner runner_mem (session true) _ entered
    tr tr' (by rw [runnerDone.call]; rfl) htr rfl (fun h => by cases h)).1

end Onnxcraft
