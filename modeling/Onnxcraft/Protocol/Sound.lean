import Onnxcraft.Protocol.CallbackStep
import Onnxcraft.Protocol.NativeStep
import Onnxcraft.Protocol.RuntimeStep

/-!
# Every interleaving keeps the invariant

What is left: entering a C function, which may free a session or close a runtime, new runtimes and
sessions, the start of a call, and the moves of the environment. `sound` puts the steps together:
in every reachable state the invariant holds, and every call meets the rest of its specification.
-/

namespace Onnxcraft

open Effect

section
variable [Platform] {w w' : World} {gs : List Held} {g g' : Held} {i : Nat}

/-! ## Entering a C function -/

omit [Platform] in
theorem takes_count (g : Held) (f : CFunc) (o : Handle) :
    (g.takes f).count (.runOptions o) = 0 := by
  cases f with
  | ocClose r =>
    cases r with
    | none => rfl
    | some x => exact x.resources_count not_false
  | ocSessionFree s =>
    cases s with
    | none => rfl
    | some n =>
      simp only [Held.takes]
      split
      · exact n.resources_count not_false
      · rfl
  | _ => rfl

omit [Platform] in
theorem enter_count (g : Held) (f : CFunc) (o : Handle) :
    (g.takes f + g.live).count (.runOptions o) = g.live.count (.runOptions o) := by
  rw [Multiset.count_add, takes_count, zero_add]

omit [Platform] in
theorem knows_enter {f : CFunc} (hk : Knows w g) : Knows w ((Op.enter f).upd g ()) :=
  { hk.native (L := g.takes f + g.live) (c := g.canceled) (b := g.aborted) (enter_count g f)
    (fun hc ctx hctx => hk.canceled ctx hc hctx) with }

/-- A step on the counts of one session, or of one runtime. -/
theorem Inv.recount (hi : Inv w gs) (hg : gs[i]? = some g) (hwf : g'.Wf) (hk : Knows w g')
    (hs : ∀ s st, w.sessions[s]? = some st → SessionOk w (gs.set i g') s st)
    (hr : ∀ r st, w.runtimes[r]? = some st → RuntimeOk w (gs.set i g') r st)
    (hc : g'.callbackPart = g.callbackPart) (hb : g'.buffer = g.buffer)
    (hl : ∀ o, g'.live.count (.runOptions o) = g.live.count (.runOptions o)) :
    Inv w (gs.set i g') := by
  simp only [Held.callbackPart, Prod.mk.injEq] at hc
  refine ⟨fun x hx => ?_, fun x hx => ?_, hs, hr, fun id cb hcb => ?_, fun h => ?_,
    hi.pool.frame hg hb ⟨rfl, rfl⟩⟩
  · rcases mem_set_cases hx with rfl | hx
    · exact hwf
    · exact hi.wf x hx
  · rcases mem_set_cases hx with rfl | hx
    · exact hk
    · exact hi.knows x hx
  · exact (hi.callbacks id cb hcb).frame hg (by rw [hc.1]) (by rw [hc.2]) fun _ h => h
  · exact (optionHolders_frame hg hl h).trans (hi.options h)

omit [Platform] in
/-- `oc_close` begins: the runtime was about to be closed, and now is. -/
theorem RuntimeOk.close {r : Nat} {st : RuntimeSt} {x : Option OcRuntime}
    (h : RuntimeOk w gs r st) (hg : gs[i]? = some g) (hwf : g.Wf) (hp : g.MayEnter (.ocClose x)) :
    RuntimeOk w (gs.set i ((Op.enter (.ocClose x)).upd g ())) r st := by
  obtain ⟨hzero, hshut, -⟩ := hp
  obtain ⟨r₀, hr₀⟩ := Option.isSome_iff_exists.1 hzero
  have hcall : g.call.runtime = some r₀ := hwf.mu r₀ (hwf.zero r₀ hr₀)
  have hsum := h.shut
  have h1 := holders_set (f := Held.shutOf) hg ((Op.enter (.ocClose x)).upd g ()) r
  have h2 := holders_set (f := Held.lastOf) hg ((Op.enter (.ocClose x)).upd g ()) r
  have hs : g.shutOf = none := by simp [Held.shutOf, hshut]
  have hl : g.lastOf = some r₀ := by simp [Held.lastOf, hshut, hr₀]
  have hs' : ((Op.enter (.ocClose x)).upd g ()).shutOf = some r₀ := hcall
  have hl' : ((Op.enter (.ocClose x)).upd g ()).lastOf = none := rfl
  rw [hs, hs'] at h1
  rw [hl, hl'] at h2
  simp only [reduceCtorEq, if_false, Option.some.injEq] at h1 h2
  have hsame : ∀ f : Held → Option Nat, f ((Op.enter (.ocClose x)).upd g ()) = f g →
      holders f (gs.set i ((Op.enter (.ocClose x)).upd g ())) r = holders f gs r :=
    fun f hf => holders_set_iff hg (by rw [hf])
  exact {
    locked := (hsame Held.mu rfl).trans h.locked
    refs := by
      rw [hsame Held.raised rfl, hsame Held.owes rfl]
      exact h.refs
    native := by
      rw [hsame Held.zero rfl]
      exact h.native
    zero := by
      rw [hsame Held.zero rfl]
      exact h.zero
    shut := by
      rw [← hsum]
      omega }

/-- The write lock excludes every other call. -/
theorem Inv.excl_unique {s : Nat} {j k : Nat} {x y : Held} (hi : Inv w gs) (hx : gs[j]? = some x)
    (hy : gs[k]? = some y) (hxs : x.excl = some s) (hys : y.excl = some s) : j = k := by
  have hid := (hi.wf x (List.mem_of_getElem? hx)).excl s hxs
  obtain ⟨s₀, hs₀, rfl⟩ := Option.map_eq_some_iff.1 hid
  obtain ⟨st, hst, -⟩ := (hi.knows x (List.mem_of_getElem? hx)).session s₀ hs₀
  refine holder_unique ?_ hx hy hxs hys
  rw [(hi.sessions _ st hst).held]
  split <;> omega

omit [Platform] in
theorem Held.freedOf_some {s : Nat} (h : g.freedOf = some s) :
    g.freed ∧ g.call.session.map (·.id) = some s := by
  unfold Held.freedOf at h
  split at h
  · next hf => exact ⟨hf, h⟩
  · exact nomatch h

omit [Platform] in
theorem Held.freeing_some {s : Nat} (h : g.freeing = some s) :
    g.gone = false ∧ g.freedOf = some s := by
  unfold Held.freeing at h
  split at h
  · exact nomatch h
  · next hf => exact ⟨by simpa using hf, h⟩

omit [Platform] in
/-- A call that has freed the session still holds its write lock. -/
theorem Held.Wf.freeing {s : Nat} (hwf : g.Wf) (h : g.freeing = some s) :
    g.freed ∧ g.excl = some s := by
  obtain ⟨hgone, hf⟩ := Held.freeing_some h
  obtain ⟨hfreed, hs⟩ := Held.freedOf_some hf
  obtain ⟨s', hs'⟩ := Option.isSome_iff_exists.1 (hwf.freed hfreed hgone)
  have hid := hwf.excl s' hs'
  rw [hs, Option.some.injEq] at hid
  exact ⟨hfreed, hid ▸ hs'⟩

/-- Before the holder of the write lock frees the session, nobody is freeing it. -/
theorem Inv.none_freeing {s : Nat} (hi : Inv w gs) (hg : gs[i]? = some g) (hexcl : g.excl = some s)
    (hfreed : g.freed = false) : holders Held.freeing gs s = 0 := by
  apply holders_eq_zero
  intro x hx hfreeing
  obtain ⟨j, hxj⟩ := List.mem_iff_getElem?.1 hx
  obtain ⟨hxfreed, hxexcl⟩ := (hi.wf x hx).freeing hfreeing
  obtain rfl := hi.excl_unique hxj hg hxexcl hexcl
  rw [hxj, Option.some.injEq] at hg
  rw [hg, hfreed] at hxfreed
  exact absurd hxfreed Bool.false_ne_true

/-- `oc_session_free` under the write lock begins: nobody has freed the session before. -/
theorem SessionOk.free {s s₁ : Nat} {st : SessionSt} {n : OcSession} (hi : Inv w gs)
    (hg : gs[i]? = some g) (hexcl : g.excl = some s) (hseen : g.seen = some n)
    (hfreed : g.freed = false) (hst : w.sessions[s₁]? = some st) :
    SessionOk w (gs.set i ((Op.enter (.ocSessionFree (some n))).upd g ())) s₁ st := by
  have hmem := List.mem_of_getElem? hg
  have hwf := hi.wf g hmem
  have h := hi.sessions s₁ st hst
  have hcall := hwf.excl s hexcl
  by_cases hs : s = s₁
  swap
  · -- another session
    have hne : some s ≠ some s₁ := fun h => hs (Option.some.inj h)
    have hno : g.freedOf ≠ some s₁ := by simp [Held.freedOf, hfreed]
    have hno' : ((Op.enter (.ocSessionFree (some n))).upd g ()).freedOf ≠ some s₁ := fun hf => by
      have : g.call.session.map (·.id) = some s₁ := (Held.freedOf_some hf).2
      exact hne (hcall.symm.trans this)
    exact h.frame hg ⟨Iff.rfl, Iff.rfl, Iff.rfl, Iff.rfl, iff_of_false hno' hno,
      iff_of_false (fun hf => hno' (Held.freeing_some hf).2) fun hf => hno (Held.freeing_some hf).2⟩
      le_rfl fun _ _ _ hx => hx
  subst hs
  have hnat : st.native = some n := hi.seen hmem hcall hst hseen
  have hgone : g.gone = false := by
    by_contra hgone
    obtain ⟨s₀, hs₀, rfl⟩ := Option.map_eq_some_iff.1 hcall
    obtain ⟨st₁, hst₁, hnone⟩ := (hi.knows g hmem).gone (by simpa using hgone) s₀ hs₀
    obtain rfl : st = st₁ := by rwa [hst, Option.some.injEq] at hst₁
    rw [hnat] at hnone
    cases hnone
  have hnone := hi.none_freeing hg hexcl hfreed
  have hfreed₀ : holders Held.freedOf gs s = 0 := by
    have := h.freed
    rwa [hnat, hnone] at this
  have hnew : ((Op.enter (.ocSessionFree (some n))).upd g ()).freedOf = some s := by
    rw [← hcall]
    simp [Held.freedOf, Op.upd, Held.frees, hexcl]
  have hnew' : ((Op.enter (.ocSessionFree (some n))).upd g ()).freeing = some s := by
    rw [← hnew]
    exact if_neg (show ¬g.gone = true by simp [hgone])
  have h1 := holders_take (f := Held.freedOf) (x := s) hg (by simp [Held.freedOf, hfreed]) hnew
  have h2 := holders_take (f := Held.freeing) (x := s) hg
    (by simp [Held.freeing, Held.freedOf, hfreed]) hnew'
  have hsame : ∀ f : Held → Option Nat, f ((Op.enter (.ocSessionFree (some n))).upd g ()) = f g →
      holders f (gs.set i ((Op.enter (.ocSessionFree (some n))).upd g ())) s = holders f gs s :=
    fun f hf => holders_set_iff hg (by rw [hf])
  exact { h with
    readers := (hsame Held.read rfl).trans h.readers
    pending := (hsame Held.pend rfl).trans h.pending
    held := (hsame Held.excl rfl).trans h.held
    gate := (hsame Held.gate rfl).trans h.gate
    freed := by rw [h1, h2, hfreed₀, hnone, hnat]; rfl
    once := by omega }

/-- **Entering a C function.** -/
theorem inv_enter {f : CFunc} (hi : Inv w gs) (hg : gs[i]? = some g)
    (hp : (Op.enter f).Pre g) : Inv w (gs.set i ((Op.enter f).upd g ())) := by
  have hmem := List.mem_of_getElem? hg
  have hwf := hi.wf g hmem
  have hwf' := hwf.enter hp.2
  have hk := knows_enter (f := f) (hi.knows g hmem)
  have hs : ((Op.enter f).upd g ()).sessionPart = g.sessionPart →
      ∀ s st, w.sessions[s]? = some st → SessionOk w (gs.set i ((Op.enter f).upd g ())) s st :=
    fun h s st hst => (hi.sessions s st hst).frame hg (.of_eq h) le_rfl fun _ _ _ hx => hx
  have hr : ((Op.enter f).upd g ()).runtimePart = g.runtimePart →
      ∀ r st, w.runtimes[r]? = some st → RuntimeOk w (gs.set i ((Op.enter f).upd g ())) r st :=
    fun h r st hst => (hi.runtimes r st hst).frame hg (.of_eq h) rfl
  refine hi.recount hg hwf' hk ?_ ?_ rfl rfl (enter_count g f)
  · cases f with
    | ocSessionFree s =>
      obtain ⟨-, n, rfl, -, -, hexcl⟩ := hp
      cases he : g.excl with
      | none =>
        refine hs ?_
        simp [Held.sessionPart, Op.upd, Held.frees, he]
      | some s₀ =>
        obtain ⟨hseen, hfreed⟩ := hexcl (by rw [he]; rfl)
        exact fun s₁ st hst => SessionOk.free hi hg he hseen hfreed hst
    | _ => exact hs rfl
  · cases f with
    | ocClose x => exact fun r st hst => (hi.runtimes r st hst).close hg hwf hp.2
    | _ => exact hr rfl

/-! ## New runtimes and sessions -/

omit [Platform] in
theorem keeps_grow (rts : List RuntimeSt) (sts : List SessionSt) :
    Keeps w { w with runtimes := w.runtimes ++ rts, sessions := w.sessions ++ sts } g where
  sessions s st h := ⟨st, by
    rw [List.getElem?_append_left (List.getElem?_eq_some_iff.1 h).1, h], rfl, id, fun _ => rfl,
    fun _ => rfl⟩
  length := by simp
  runtimes r st _ h := ⟨st, by
    rw [List.getElem?_append_left (List.getElem?_eq_some_iff.1 h).1, h], fun _ => rfl, fun _ => rfl⟩
  ctxs _ _ h := h
  callbacks _ cb h := ⟨cb, h, rfl, rfl, rfl, id⟩
  options _ _ h := .inl h

omit [Platform] in
theorem getElem?_snoc_cases {α : Type} {l : List α} {a b : α} {n : Nat}
    (h : (l ++ [a])[n]? = some b) : l[n]? = some b ∨ n = l.length ∧ b = a := by
  rcases Nat.lt_trichotomy n l.length with hn | rfl | hn
  · exact .inl (by rwa [List.getElem?_append_left hn] at h)
  · exact .inr ⟨rfl, by simpa using h.symm⟩
  · rw [List.getElem?_eq_none (by simpa using Nat.succ_le_of_lt hn)] at h
    exact nomatch h

/-- No call holds anything of a runtime that does not exist. -/
theorem Inv.no_runtime {r : Nat} (hi : Inv w gs) (hr : w.runtimes.length ≤ r) :
    ∀ x ∈ gs, x.call.runtime ≠ some r := fun x hx h => by
  have := (hi.knows x hx).runtime r h
  omega

/-- No call holds anything of a session that does not exist. -/
theorem Inv.no_session {s : Nat} (hi : Inv w gs) (hs : w.sessions.length ≤ s) :
    ∀ x ∈ gs, x.call.session.map (·.id) ≠ some s := fun x hx h => by
  obtain ⟨s₀, hs₀, rfl⟩ := Option.map_eq_some_iff.1 h
  obtain ⟨st, hst, -⟩ := (hi.knows x hx).session s₀ hs₀
  have := (List.getElem?_eq_some_iff.1 hst).1
  omega

/-- A new runtime: its own reference is its only one. -/
theorem inv_newRuntime {native : OcRuntime} (hi : Inv w gs) (hg : gs[i]? = some g)
    (hp : (Op.newRuntime native).Pre g) :
    Inv { w with runtimes := w.runtimes ++ [⟨false, some native, 1, false⟩] }
      (gs.set i ((Op.newRuntime native).upd g w.runtimes.length)) := by
  have hmem := List.mem_of_getElem? hg
  have hwf := hi.wf g hmem
  have hcount : ∀ o, (g.live - native.resources).count (.runOptions o) =
      g.live.count (.runOptions o) := fun o => by
    rw [Multiset.count_sub, native.resources_count (x := .runOptions o) not_false, Nat.sub_zero]
  have hkeep : ∀ x, Keeps w
      { w with runtimes := w.runtimes ++ [⟨false, some native, 1, false⟩] } x := fun x => by
    simpa using keeps_grow (w := w) (g := x) [⟨false, some native, 1, false⟩] []
  have hnativeOf : ∀ r x, w.nativeOf r = some x → World.nativeOf
      { w with runtimes := w.runtimes ++ [⟨false, some native, 1, false⟩] } r = some x := by
    intro r x hx
    obtain ⟨st, hst, hn⟩ := Option.bind_eq_some_iff.1 hx
    simp only [World.nativeOf]
    rw [List.getElem?_append_left (List.getElem?_eq_some_iff.1 hst).1, hst]
    exact hn
  have hk := (hi.knows g hmem).keep (hkeep g)
  refine ⟨fun x hx => ?_, fun x hx => ?_, fun s st hst => ?_, fun r st hst => ?_,
    fun id cb hcb => ?_, fun h => ?_, hi.pool.frame hg rfl ⟨rfl, rfl⟩⟩
  · rcases mem_set_cases hx with rfl | hx
    · exact hwf.step (e := .newRuntime native) (a := w.runtimes.length) hp
    · exact hi.wf x hx
  · rcases mem_set_cases hx with rfl | hx
    · exact { hk.native (L := g.live - native.resources) (c := g.canceled) (b := g.aborted) hcount
        (fun hc ctx hctx => hk.canceled ctx hc hctx) with }
    · exact (hi.knows x hx).keep (hkeep x)
  · refine (hi.sessions s st hst).frame hg (.of_eq rfl) ?_ fun n x _ hx => hnativeOf _ x hx
    simp
  · rcases getElem?_snoc_cases hst with hst | ⟨rfl, rfl⟩
    · exact (hi.runtimes r st hst).frame hg (.of_eq rfl) rfl
    · have hno := hi.no_runtime (le_refl w.runtimes.length)
      have hmu : ∀ x ∈ gs, x.mu ≠ some w.runtimes.length := fun x hx h =>
        hno x hx ((hi.wf x hx).mu _ h)
      have hz : ∀ f : Held → Option Nat, (∀ x ∈ gs, f x ≠ some w.runtimes.length) →
          f ((Op.newRuntime native).upd g w.runtimes.length) = f g →
          holders f (gs.set i ((Op.newRuntime native).upd g w.runtimes.length))
            w.runtimes.length = 0 := fun f hf hsame =>
        (holders_set_iff hg (by rw [hsame])).trans (holders_eq_zero hf)
      have hzero := hz Held.zero (fun x hx h => hmu x hx ((hi.wf x hx).zero _ h)) rfl
      refine ⟨hz Held.mu hmu rfl, ?_, ?_, ?_, ?_⟩
      · have hcounts : holders SessionSt.counts w.sessions w.runtimes.length = 0 :=
          holders_eq_zero fun st hst h => by
            obtain ⟨s, hs⟩ := List.mem_iff_getElem?.1 hst
            have := (hi.sessions s st hs).runtime
            simp only [SessionSt.counts, Option.ite_none_left_eq_some, Option.some.injEq] at h
            omega
        rw [hz Held.raised (fun x hx h => hmu x hx ((hi.wf x hx).raised _ h)) rfl,
          hz Held.owes (fun x hx h => hmu x hx ((hi.wf x hx).owes _ h)) rfl]
        show (1 : Int) = 1 + (holders SessionSt.counts w.sessions w.runtimes.length : Nat) + 0 + 0
        omega
      · rw [hzero]
        simp
      · rw [hzero]
        intro h; cases h
      · rw [hz Held.shutOf (fun x hx h => hno x hx (by
            unfold Held.shutOf at h
            split at h
            · exact h
            · cases h)) rfl,
          hz Held.lastOf (fun x hx h => hmu x hx ((hi.wf x hx).zero _ (by
            unfold Held.lastOf at h
            split at h
            · cases h
            · exact h))) rfl]
        rfl
  · exact (hi.callbacks id cb hcb).frame hg Iff.rfl Iff.rfl fun _ h => h
  · exact (optionHolders_frame hg hcount h).trans (hi.options h)

/-- A new session takes over the reference that was raised for it. -/
theorem inv_newSession {r : Nat} {gated : Bool} {native : OcSession} {ins outs : List TensorInfo}
    (hi : Inv w gs) (hg : gs[i]? = some g) (hp : (Op.newSession r gated native ins outs).Pre g) :
    Inv { w with sessions := w.sessions ++
        [⟨⟨w.sessions.length, r, gated, ins, outs⟩, 0, .idle, 0, some native, false⟩] }
      (gs.set i ((Op.newSession r gated native ins outs).upd g w.sessions.length)) := by
  have hmem := List.mem_of_getElem? hg
  have hwf := hi.wf g hmem
  have hwf' := hwf.step (a := w.sessions.length) hp
  obtain ⟨hmu, hraised, hrt, hmatches, -⟩ := hp
  have hcount : ∀ o, (g.live - native.resources).count (.runOptions o) =
      g.live.count (.runOptions o) := fun o => by
    rw [Multiset.count_sub, native.resources_count (x := .runOptions o) not_false, Nat.sub_zero]
  have hkeep : ∀ x, Keeps w { w with sessions := w.sessions ++
      [⟨⟨w.sessions.length, r, gated, ins, outs⟩, 0, .idle, 0, some native, false⟩] } x := fun x => by
    simpa using keeps_grow (w := w) (g := x) []
      [⟨⟨w.sessions.length, r, gated, ins, outs⟩, 0, .idle, 0, some native, false⟩]
  have hk := (hi.knows g hmem).keep (hkeep g)
  refine ⟨fun x hx => ?_, fun x hx => ?_, fun s st hst => ?_, fun r₁ st hst => ?_,
    fun id cb hcb => ?_, fun h => ?_, hi.pool.frame hg rfl ⟨rfl, rfl⟩⟩
  · rcases mem_set_cases hx with rfl | hx
    · exact hwf'
    · exact hi.wf x hx
  · rcases mem_set_cases hx with rfl | hx
    · exact { hk.native (L := g.live - native.resources) (c := g.canceled) (b := g.aborted) hcount
        (fun hc ctx hctx => hk.canceled ctx hc hctx) with }
    · exact (hi.knows x hx).keep (hkeep x)
  · rcases getElem?_snoc_cases hst with hst | ⟨rfl, rfl⟩
    · exact (hi.sessions s st hst).frame hg (.of_eq rfl) le_rfl fun _ _ _ hx => hx
    · have hno := hi.no_session (le_refl w.sessions.length)
      have hz : ∀ f : Held → Option Nat, (∀ x ∈ gs, f x ≠ some w.sessions.length) →
          f ((Op.newSession r gated native ins outs).upd g w.sessions.length) = f g →
          holders f (gs.set i ((Op.newSession r gated native ins outs).upd g w.sessions.length))
            w.sessions.length = 0 := fun f hf hsame =>
        (holders_set_iff hg (by rw [hsame])).trans (holders_eq_zero hf)
      have hread : ∀ x ∈ gs, x.read ≠ some w.sessions.length := fun x hx h =>
        hno x hx ((hi.wf x hx).read _ h)
      have hfreed : ∀ x ∈ gs, x.freedOf ≠ some w.sessions.length := fun x hx h =>
        hno x hx (Held.freedOf_some h).2
      have hfreed₀ := hz Held.freedOf hfreed rfl
      have hfreeing₀ := hz Held.freeing (fun x hx h => hfreed x hx (Held.freeing_some h).2) rfl
      refine ⟨rfl, (hi.knows g hmem).runtime r (hwf.mu r hmu), hz Held.read hread rfl,
        hz Held.pend (fun x hx h => hno x hx ((hi.wf x hx).pend _ h)) rfl,
        hz Held.excl (fun x hx h => hno x hx ((hi.wf x hx).excl _ h)) rfl, nofun,
        hz Held.gate (fun x hx h => hread x hx ((hi.wf x hx).gate _ h)) rfl, Nat.zero_le _, ?_,
        ?_, hfreed₀.trans_le (Nat.zero_le _)⟩
      · rintro n ⟨⟩
        obtain ⟨r', hmu', hnat⟩ := (hi.knows g hmem).rt native.runtime hrt
        obtain rfl : r = r' := by rwa [hmu, Option.some.injEq] at hmu'
        exact ⟨rfl, hmatches, hnat⟩
      · rw [hfreed₀, hfreeing₀]
        rfl
  · have hok := hi.runtimes r₁ st hst
    have hsame : ∀ f : Held → Option Nat,
        f ((Op.newSession r gated native ins outs).upd g w.sessions.length) = f g →
        holders f (gs.set i ((Op.newSession r gated native ins outs).upd g w.sessions.length)) r₁ =
          holders f gs r₁ := fun f hf => holders_set_iff hg (by rw [hf])
    refine ⟨(hsame Held.mu rfl).trans hok.locked, ?_, ?_, ?_, ?_⟩
    · have h1 := holders_set (f := Held.raised) hg
        ((Op.newSession r gated native ins outs).upd g w.sessions.length) r₁
      have h2 := hok.refs
      rw [hraised] at h1
      simp only [Op.upd, reduceCtorEq, if_false, Option.some.injEq] at h1
      rw [hsame Held.owes rfl, holders_snoc]
      simp only [SessionSt.counts, Bool.false_eq_true, if_false, Option.some.injEq, Op.upd]
      omega
    · rw [hsame Held.zero rfl]
      exact hok.native
    · rw [hsame Held.zero rfl]
      exact hok.zero
    · rw [hsame Held.shutOf rfl, hsame Held.lastOf rfl]
      exact hok.shut
  · exact (hi.callbacks id cb hcb).frame hg Iff.rfl Iff.rfl fun _ h => h
  · exact (optionHolders_frame hg hcount h).trans (hi.options h)

/-! ## New calls -/

/-- A call begins with nothing but its callback. -/
theorem Inv.begin {c : Call} {b : List CbSt} (hi : Inv w gs)
    (hk : Knows { w with callbacks := b } (Held.start c))
    (hkeep : ∀ x, Keeps w { w with callbacks := b } x)
    (hcb : ∀ (id : Nat) (cb : CbSt), b[id]? = some cb →
      CallbackOk { w with callbacks := b } (gs ++ [Held.start c]) id cb) :
    Inv { w with callbacks := b } (gs ++ [Held.start c]) := by
  have hsame : ∀ (f : Held → Option Nat) (x : Nat), f (Held.start c) = none →
      holders f (gs ++ [Held.start c]) x = holders f gs x := fun f x hf => by
    rw [holders_snoc, hf]
    simp
  refine ⟨fun x hx => ?_, fun x hx => ?_, fun s st hst => ?_, fun r st hst => ?_, hcb,
    fun o => ?_, ⟨hi.pool.clean, fun x => ?_, fun x hx => ?_⟩⟩
  · rcases List.mem_append.1 hx with hx | hx
    · exact hi.wf x hx
    · exact List.mem_singleton.1 hx ▸ Held.Wf.start c
  · rcases List.mem_append.1 hx with hx | hx
    · exact (hi.knows x hx).keep (hkeep x)
    · exact List.mem_singleton.1 hx ▸ hk
  · have h := hi.sessions s st hst
    exact { h with
      readers := (hsame Held.read s rfl).trans h.readers
      pending := (hsame Held.pend s rfl).trans h.pending
      held := (hsame Held.excl s rfl).trans h.held
      gate := (hsame Held.gate s rfl).trans h.gate
      freed := by
        rw [hsame Held.freedOf s rfl, hsame Held.freeing s rfl]
        exact h.freed
      once := (hsame Held.freedOf s rfl).trans_le h.once }
  · have h := hi.runtimes r st hst
    exact {
      locked := (hsame Held.mu r rfl).trans h.locked
      refs := by
        rw [hsame Held.raised r rfl, hsame Held.owes r rfl]
        exact h.refs
      native := by
        rw [hsame Held.zero r rfl]
        exact h.native
      zero := by
        rw [hsame Held.zero r rfl]
        exact h.zero
      shut := by
        rw [hsame Held.shutOf r rfl, hsame Held.lastOf r rfl]
        exact h.shut }
  · have h := hi.options o
    unfold optionHolders at h ⊢
    rw [total_append, h]
    simp [Held.start]
  · rw [hsame Held.buffer x rfl]
    exact hi.pool.one x
  · rw [hsame Held.buffer x rfl]
    exact hi.pool.made x hx

/-- A new call knows that its session, its runtime and its callback exist. -/
theorem knows_start {c : Call} (hi : Inv w gs)
    (hs : ∀ s, c.session = some s → (w.sessions[s.id]?).map (·.sess) = some s)
    (hr : ∀ r, c.runtime = some r → c.session = none → r < w.runtimes.length)
    (hcb : ∀ r o id, c = .callback r o id →
      ∃ cb, w.callbacks[id]? = some cb ∧ cb.r = r ∧ cb.options = o) : Knows w (Held.start c) where
  session s h := by
    obtain ⟨st, hst, hsess⟩ := Option.map_eq_some_iff.1 (hs s h)
    exact ⟨st, hst, hsess⟩
  runtime r h := by
    cases hsession : c.session with
    | none => exact hr r h hsession
    | some s =>
      obtain ⟨st, hst, hsess⟩ := Option.map_eq_some_iff.1 (hs s hsession)
      have := (hi.sessions _ st hst).runtime
      rwa [hsess, Call.session_runtime hsession h] at this
  seen := nofun
  gone h := by cases h
  cleared := nofun
  closed := nofun
  rt := nofun
  done _ _ h := by cases h
  canceled _ h := by cases h
  callback := hcb
  watch := nofun
  flag _ h := absurd h (Multiset.notMem_zero _)

/-- A goroutine starts a registered callback of a context that is done. -/
theorem inv_callback {id : Nat} {cb : CbSt} (hi : Inv w gs) (hcb : w.callbacks[id]? = some cb)
    (hst : cb.state = .registered) (hdone : (w.err cb.ctx).isSome) :
    Inv { w with callbacks := w.callbacks.set id { cb with state := .running } }
      (gs ++ [Held.start (.callback cb.r cb.options id)]) := by
  have hlt := (List.getElem?_eq_some_iff.1 hcb).1
  have hkeep : ∀ x, Keeps w
      { w with callbacks := w.callbacks.set id { cb with state := .running } } x :=
    fun x => keeps_callback _ hcb ⟨rfl, rfl, rfl, nofun⟩
  refine hi.begin ?_ hkeep fun id₁ cb₁ hcb₁ => ?_
  · refine (knows_start hi (fun _ h => by cases h) (fun _ h => by cases h) ?_).keep (hkeep _)
    rintro r o id₁ ⟨⟩
    exact ⟨cb, hcb, rfl, rfl⟩
  · have hwatch : holders Held.watch (gs ++ [Held.start (.callback cb.r cb.options id)]) id₁ =
        holders Held.watch gs id₁ := by
      simp [Held.start]
    have hfire : holders Held.fire (gs ++ [Held.start (.callback cb.r cb.options id)]) id₁ =
        holders Held.fire gs id₁ + if id = id₁ then 1 else 0 := by
      simp [Held.start]
    by_cases hid : id = id₁
    · subst hid
      obtain rfl : _ = cb₁ := by simpa [hlt] using hcb₁
      have hok := hi.callbacks id cb hcb
      have h1 := hok.watch
      have h2 := hok.fire
      rw [hst] at h1 h2
      refine ⟨hwatch.trans h1, ?_, fun _ => hdone⟩
      rw [hfire, h2]
      simp
    · have hok := hi.callbacks id₁ cb₁ (by simpa [hid] using hcb₁)
      refine ⟨?_, ?_, hok.done⟩
      · rw [hwatch]
        exact hok.watch
      · rw [hfire, if_neg hid, add_zero]
        exact hok.fire

/-- **The start of a call.** -/
theorem inv_start {c : Call} (hi : Inv w gs) (h : c.start w = some w') :
    Inv w' (gs ++ [Held.start c]) := by
  have hplain : (∀ r o id, c ≠ .callback r o id) →
      (∀ s, c.session = some s → (w.sessions[s.id]?).map (·.sess) = some s) →
      (∀ r, c.runtime = some r → c.session = none → r < w.runtimes.length) →
      Inv w (gs ++ [Held.start c]) := fun hc hs hr => by
    refine hi.begin (b := w.callbacks) (knows_start hi hs hr fun r o id h => absurd h (hc r o id))
      (fun x => .refl w x) fun id cb hcb => ?_
    have hok := hi.callbacks id cb hcb
    have hfire : (Held.start c).fire = none := by
      cases c with
      | callback r o id => exact absurd rfl (hc r o id)
      | _ => rfl
    refine ⟨?_, ?_, hok.done⟩
    · rw [holders_snoc]
      simpa [Held.start] using hok.watch
    · rw [holders_snoc, hfire]
      simpa using hok.fire
  cases c with
  | openLibrary =>
    obtain rfl : w = w' := Option.some.inj h
    exact hplain (by simp) (by simp [Call.session]) (by simp [Call.runtime])
  | load r | loadBytes r | closeRuntime r =>
    simp only [Call.start, Option.ite_none_right_eq_some, Option.some.injEq] at h
    obtain ⟨hr, rfl⟩ := h
    exact hplain (by simp) (by simp [Call.session]) (by rintro _ ⟨⟩ -; exact hr)
  | closeSession s | run s | runInto s =>
    simp only [Call.start, Option.ite_none_right_eq_some, Option.some.injEq] at h
    obtain ⟨hs, rfl⟩ := h
    exact hplain (by simp) (by rintro _ ⟨⟩; exact hs) fun _ _ h => by cases h
  | callback r options id =>
    simp only [Call.start, Option.bind_eq_bind, Option.bind_eq_some_iff,
      Option.ite_none_right_eq_some, Option.some.injEq] at h
    obtain ⟨cb, hcb, ⟨hst, rfl, rfl, hdone⟩, rfl⟩ := h
    exact inv_callback hi hcb hst hdone

/-! ## The environment -/

omit [Platform] in
theorem keeps_ctxs {f : Nat → Option CtxError}
    (h : ∀ n e, w.ctxs n = some e → f n = some e) : Keeps w { w with ctxs := f } g where
  sessions _ st h := ⟨st, h, rfl, id, fun _ => rfl, fun _ => rfl⟩
  length := le_rfl
  runtimes _ st _ h := ⟨st, h, fun _ => rfl, fun _ => rfl⟩
  ctxs c e he := by
    simp only [World.err, Option.ite_none_right_eq_some] at he ⊢
    exact ⟨he.1, h _ _ he.2⟩
  callbacks _ cb h := ⟨cb, h, rfl, rfl, rfl, id⟩
  options _ _ h := .inl h

/-- **The environment's moves.** -/
theorem inv_move {v : Move} (hi : Inv w gs) (h : v.apply w = some w') : Inv w' gs := by
  cases v with
  | done ctx e =>
    simp only [Move.apply, Option.ite_none_right_eq_some, Option.some.injEq] at h
    obtain ⟨hnone, rfl⟩ := h
    have hkeep : ∀ x, Keeps w { w with ctxs := Function.update w.ctxs ctx (some e) } x :=
      fun x => keeps_ctxs fun n e' hn => by
        by_cases hne : n = ctx
        · rw [hne, hnone] at hn
          exact nomatch hn
        · rwa [Function.update_of_ne hne]
    exact { hi with
      knows := fun x hx => (hi.knows x hx).keep (hkeep x)
      sessions := fun s st hst => { hi.sessions s st hst with }
      runtimes := fun r st hst => { hi.runtimes r st hst with }
      callbacks := fun id cb hcb => { hi.callbacks id cb hcb with
        done := fun hs => (hkeep (Held.start (.openLibrary []))).isSome
          ((hi.callbacks id cb hcb).done hs) }
      pool := { hi.pool with } }
  | drop n =>
    obtain rfl := Option.some.inj h
    have hle : ∀ x, ((w.pool.drop n).map (·.id)).count x ≤ (w.pool.map (·.id)).count x := fun x =>
      ((List.drop_sublist n w.pool).map _).count_le x
    exact { hi with
      knows := fun x hx => { hi.knows x hx with }
      sessions := fun s st hst => { hi.sessions s st hst with }
      runtimes := fun r st hst => { hi.runtimes r st hst with }
      callbacks := fun id cb hcb => { hi.callbacks id cb hcb with }
      pool := {
        clean := fun b hb => hi.pool.clean b (List.mem_of_mem_drop hb)
        one := fun x => (Nat.add_le_add_right (hle x) _).trans (hi.pool.one x)
        made := fun x hx => Nat.le_zero.1 ((Nat.add_le_add_right (hle x) _).trans
          (hi.pool.made x hx).le) } }

/-! ## The interleavings -/

theorem Inv.init : Inv World.init [] where
  wf := by simp
  knows := by simp
  sessions := by simp [World.init]
  runtimes := by simp [World.init]
  callbacks := by simp [World.init]
  options := by simp [World.init, optionHolders]
  pool := ⟨by simp [World.init], by simp [World.init], by simp [World.init]⟩

/-- **A step of a call.** -/
theorem inv_act {e : Op} {a : e.Resp} (hi : Inv w gs) (hg : gs[i]? = some g) (hp : e.Pre g)
    (ha : World.act e a w = some w') : e.Env g a ∧ Inv w' (gs.set i (e.upd g a)) := by
  have hmem := List.mem_of_getElem? hg
  cases e with
  | sess s o => exact inv_sess hi hg hp ha
  | rt r o => exact inv_rt hi hg hp ha
  | newRuntime native =>
    simp only [World.act, Option.ite_none_right_eq_some, Option.some.injEq] at ha
    obtain ⟨rfl, rfl⟩ := ha
    exact ⟨trivial, inv_newRuntime hi hg hp⟩
  | newSession r gated native ins outs =>
    simp only [World.act, Option.ite_none_right_eq_some, Option.some.injEq] at ha
    obtain ⟨rfl, rfl⟩ := ha
    exact ⟨trivial, inv_newSession hi hg hp⟩
  | ctxErr c =>
    simp only [World.act, Option.ite_none_right_eq_some, Option.some.injEq] at ha
    obtain ⟨ha, rfl⟩ := ha
    exact inv_ctxErr hi hg hp ha
  | filepathAbs =>
    obtain rfl := Option.some.inj ha
    exact ⟨trivial, hi.still hg (hi.wf g hmem) (hi.knows g hmem) rfl rfl rfl rfl fun _ => rfl⟩
  | pool o => exact inv_pool hi hg hp ha
  | cb o => exact ⟨trivial, inv_cb hi hg hp ha⟩
  | mem o =>
    have hstill := hi.still hg (hi.wf g hmem) (hi.knows g hmem) rfl rfl rfl rfl fun _ => rfl
    cases o with
    | load p n =>
      simp only [World.act, Option.ite_none_right_eq_some, Option.some.injEq] at ha
      obtain ⟨ha, rfl⟩ := ha
      exact ⟨ha, hstill⟩
    | _ =>
      obtain rfl := Option.some.inj ha
      exact ⟨trivial, hstill⟩
  | enter f =>
    obtain rfl := Option.some.inj ha
    exact ⟨trivial, inv_enter hi hg hp⟩
  | leave f =>
    obtain rfl := Option.some.inj ha
    exact ⟨trivial, inv_leave hi hg⟩
  | nat o => exact inv_nat hi hg hp ha
  | fault => exact a.elim

/-- **Soundness.** The invariant holds in every reachable state, and every call meets the rest of
its specification there. -/
theorem sound : Sound system protocol Held.start Ends Inv where
  init := Inv.init
  act := inv_act
  start hi h := ⟨inv_start hi h, prog_spec _⟩
  move := inv_move

end

end Onnxcraft
