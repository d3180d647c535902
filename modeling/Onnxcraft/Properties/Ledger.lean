import Onnxcraft.Effect.Ledger
import Onnxcraft.Properties.Closing
import Onnxcraft.Properties.Linear
import Onnxcraft.Properties.References

/-!
# The native objects of the binding

`resource_ledger`: over all calls, what has been acquired is what has been released, what calls
still hold, and what open runtimes and sessions own. When every call has returned, runtimes and
sessions own the rest, and nothing is left once all of them have been closed.
-/

namespace Onnxcraft

open Effect

/-- The native session of `s`. -/
def World.sessionNative (w : World) (s : Nat) : Option OcSession := (w.sessions[s]?).bind (·.native)

/-- What the world keeps: what its runtimes and sessions own, unless a call has begun to free it. -/
def World.kept (w : World) (gs : List Held) : Multiset Resource :=
  ∑ r ∈ Finset.range w.runtimes.length,
    keeps OcRuntime.resources w.nativeOf Held.shutOf gs r +
  ∑ s ∈ Finset.range w.sessions.length,
    keeps OcSession.resources w.sessionNative Held.freedOf gs s

section
variable [Platform] {w w' : World} {gs : List Held} {g g' : Held} {i : Nat}

/-! ## One step -/

omit [Platform] in
/-- A step that leaves every entry as it is. -/
theorem kept_same (hr : w'.runtimes.length = w.runtimes.length)
    (hs : w'.sessions.length = w.sessions.length)
    (hkr : ∀ r, keeps OcRuntime.resources w'.nativeOf Held.shutOf (gs.set i g') r =
      keeps OcRuntime.resources w.nativeOf Held.shutOf gs r)
    (hks : ∀ s, keeps OcSession.resources w'.sessionNative Held.freedOf (gs.set i g') s =
      keeps OcSession.resources w.sessionNative Held.freedOf gs s) :
    w'.kept (gs.set i g') = w.kept gs := by
  unfold World.kept
  rw [hr, hs]
  congr 1
  · exact Finset.sum_congr rfl fun r _ => hkr r
  · exact Finset.sum_congr rfl fun s _ => hks s

omit [Platform] in
/-- What a call has begun to free changes only when it enters a C function. -/
theorem frees_same {e : Op} (a : e.Resp) (he : ∀ f, e ≠ .enter f) :
    (e.upd g a).shutOf = g.shutOf ∧ (e.upd g a).freedOf = g.freedOf := by
  have hch := e.changes g a
  have hshut : (e.upd g a).shut = g.shut := by
    cases e with
    | enter f => exact absurd rfl (he f)
    | _ => exact hch.shut
  have hfreed : (e.upd g a).freed = g.freed := by
    cases e with
    | enter f => exact absurd rfl (he f)
    | _ => exact hch.freed
  unfold Held.shutOf Held.freedOf
  rw [hshut, hfreed, hch.call]
  exact ⟨rfl, rfl⟩

theorem kept_sess {s : Nat} {o : SessOp} {a : o.Resp} (hg : gs[i]? = some g)
    (hp : (Op.sess s o).Pre g) (ha : w.act (.sess s o) a = some w') :
    w'.kept (gs.set i ((Op.sess s o).upd g a)) = w.kept gs := by
  obtain ⟨st, st', hst, hact, rfl⟩ := World.sess_cases ha
  obtain ⟨hshut, hfreed⟩ := frees_same (g := g) (e := .sess s o) a fun f h => by cases h
  refine kept_same rfl (by simp) (fun r => keeps_same hg hshut rfl) fun s' => ?_
  have hnat : s ≠ s' ∨ o ≠ .clearNative →
      World.sessionNative { w with sessions := w.sessions.set s st' } s' = w.sessionNative s' := by
    intro h
    unfold World.sessionNative
    by_cases hs : s = s'
    · subst hs
      have hkeep := (SessionSt.act_keeps hact).2.2.1 (h.resolve_left fun h => h rfl)
      dsimp only
      rw [List.getElem?_set_self (List.getElem?_eq_some_iff.1 hst).1, hst]
      exact hkeep
    · dsimp only
      rw [List.getElem?_set_ne hs]
  by_cases ho : o = .clearNative
  · subst ho
    by_cases hs : s = s'
    · -- the call has freed the session before
      subst hs
      refine keeps_out hg ?_ hfreed
      unfold Held.freedOf
      rw [if_pos hp.2.2.2.2.1]
      exact hp.2.1
    · exact keeps_same hg hfreed (hnat (.inl hs))
  · exact keeps_same hg hfreed (hnat (.inr ho))

theorem kept_rt {r : Nat} {o : RtOp} {a : o.Resp} (hi : Inv w gs) (hg : gs[i]? = some g)
    (hp : (Op.rt r o).Pre g) (ha : w.act (.rt r o) a = some w') :
    w'.kept (gs.set i ((Op.rt r o).upd g a)) = w.kept gs := by
  have hwf := hi.wf g (List.mem_of_getElem? hg)
  obtain ⟨st, st', hst, hact, rfl⟩ := World.rt_cases ha
  obtain ⟨hshut, hfreed⟩ := frees_same (g := g) (e := .rt r o) a fun f h => by cases h
  obtain ⟨hruntimes, -⟩ := World.noteRelease_rest { w with runtimes := w.runtimes.set r st' } o
  have hsess : ∀ s, (World.noteRelease { w with runtimes := w.runtimes.set r st' } o).sessionNative s =
      w.sessionNative s := by
    intro s
    unfold World.sessionNative
    rw [World.noteRelease_get]
    dsimp only
    cases w.sessions[s]? with
    | none => rfl
    | some ss =>
      simp only [Option.map_some, Option.bind_some]
      split <;> rfl
  have hlen : (World.noteRelease { w with runtimes := w.runtimes.set r st' } o).sessions.length =
      w.sessions.length := by
    cases o with
    | decRefs owner =>
      cases owner with
      | none => rfl
      | some s =>
        simp only [World.noteRelease, World.release]
        split <;> simp
    | _ => rfl
  refine kept_same (by rw [hruntimes]; simp) hlen (fun r' => ?_)
    fun s => keeps_same hg hfreed (hsess s)
  have hnat : r ≠ r' ∨ o ≠ .clearNative →
      (World.noteRelease { w with runtimes := w.runtimes.set r st' } o).nativeOf r' =
        w.nativeOf r' := by
    intro h
    unfold World.nativeOf
    rw [hruntimes]
    by_cases hr : r = r'
    · subst hr
      have hkeep := (RuntimeSt.act_keeps hact).2 (h.resolve_left fun h => h rfl)
      dsimp only
      rw [List.getElem?_set_self (List.getElem?_eq_some_iff.1 hst).1, hst]
      exact hkeep
    · dsimp only
      rw [List.getElem?_set_ne hr]
  by_cases ho : o = .clearNative
  · subst ho
    by_cases hr : r = r'
    · -- the call has closed the runtime before
      subst hr
      refine keeps_out hg ?_ hshut
      unfold Held.shutOf
      rw [if_pos hp.2.2.2.1]
      exact hwf.mu r hp.2.1
    · exact keeps_same hg hshut (hnat (.inl hr))
  · exact keeps_same hg hshut (hnat (.inr ho))

/-- What a call takes over when it enters a C function is no longer kept. -/
theorem kept_enter {f : CFunc} (hi : Inv w gs) (hg : gs[i]? = some g) (hp : (Op.enter f).Pre g) :
    g.takes f + w.kept (gs.set i ((Op.enter f).upd g ())) = w.kept gs := by
  have hmem := List.mem_of_getElem? hg
  have hwf := hi.wf g hmem
  have hsame : g.takes f = 0 → ((Op.enter f).upd g ()).shutOf = g.shutOf →
      ((Op.enter f).upd g ()).freedOf = g.freedOf →
      g.takes f + w.kept (gs.set i ((Op.enter f).upd g ())) = w.kept gs := by
    intro htakes hshut hfreed
    rw [htakes, zero_add]
    exact kept_same rfl rfl (fun r => keeps_same hg hshut rfl) fun s => keeps_same hg hfreed rfl
  cases f with
  | ocClose x =>
    obtain ⟨-, hzero, hshut, y, rfl, hrt⟩ := hp
    obtain ⟨r, hr⟩ := Option.isSome_iff_exists.1 hzero
    have hmu := hwf.zero r hr
    have hcall := hwf.mu r hmu
    have hlt : r < w.runtimes.length := (hi.knows g hmem).runtime r hcall
    have hok := hi.runtimes r _ (List.getElem?_eq_getElem hlt)
    -- the runtime has not been closed: the call is about to
    have hlast : 0 < holders Held.lastOf gs r := holders_pos hg (by simp [Held.lastOf, hshut, hr])
    have hfree : holders Held.shutOf gs r = 0 := by
      have hsum := hok.shut
      split at hsum <;> omega
    have hnat : w.nativeOf r = some y := by
      obtain ⟨r', hmu', hnat⟩ := (hi.knows g hmem).rt y hrt
      rw [hmu, Option.some.injEq] at hmu'
      rw [hmu', hnat]
    have htake := sum_take OcRuntime.resources w.nativeOf Held.shutOf
      ((Op.enter (.ocClose (some y))).upd g ()) hg hlt hfree hnat (by simp [Held.shutOf, hshut]) hcall
    show y.resources + _ = _
    unfold World.kept
    rw [← htake, ← add_assoc]
    congr 1
    exact Finset.sum_congr rfl fun s _ => keeps_same hg rfl rfl
  | ocSessionFree x =>
    obtain ⟨-, n, rfl, -, -, hexcl⟩ := hp
    cases he : g.excl with
    | none =>
      refine hsame ?_ rfl ?_
      · simp [Held.takes, he]
      · simp [Held.freedOf, Op.upd, Held.frees, he]
    | some s =>
      obtain ⟨hseen, hfreed⟩ := hexcl (by rw [he]; rfl)
      have hcall := hwf.excl s he
      obtain ⟨s₀, hs₀, rfl⟩ := Option.map_eq_some_iff.1 hcall
      obtain ⟨st, hst, -⟩ := (hi.knows g hmem).session s₀ hs₀
      have hnat : st.native = some n := hi.seen hmem hcall hst hseen
      -- nobody has freed the session before
      have hfree : holders Held.freedOf gs s₀.id = 0 := by
        have hcount := (hi.sessions _ st hst).freed
        rwa [hnat, hi.none_freeing hg he hfreed] at hcount
      have htake := sum_take OcSession.resources w.sessionNative Held.freedOf
        ((Op.enter (.ocSessionFree (some n))).upd g ()) hg
        (List.getElem?_eq_some_iff.1 hst).1 hfree
        (by rw [World.sessionNative, hst]; exact hnat) (by simp [Held.freedOf, hfreed])
        (by rw [← hcall]; simp [Held.freedOf, Op.upd, Held.frees, he])
      have htakes : g.takes (.ocSessionFree (some n)) = n.resources := by simp [Held.takes, he]
      rw [htakes]
      unfold World.kept
      rw [← htake, add_left_comm]
      congr 1
      exact Finset.sum_congr rfl fun r _ => keeps_same hg rfl rfl
  | _ => exact hsame rfl rfl rfl

/-- A new runtime owns its native part. -/
theorem kept_newRuntime {n : OcRuntime} {r : Nat} (hi : Inv w gs) (hg : gs[i]? = some g)
    (ha : w.act (.newRuntime n) r = some w') :
    w'.kept (gs.set i ((Op.newRuntime n).upd g r)) = w.kept gs + n.resources := by
  obtain rfl := World.newRuntime_rest ha
  have hfree : holders Held.shutOf gs w.runtimes.length = 0 := by
    refine holders_eq_zero fun x hx h => ?_
    unfold Held.shutOf at h
    split at h
    · exact hi.no_runtime le_rfl x hx h
    · cases h
  have hnew := sum_new OcRuntime.resources w.nativeOf
    (World.nativeOf { w with runtimes := w.runtimes ++ [⟨false, some n, 1, false⟩] }) Held.shutOf
    ((Op.newRuntime n).upd g r) n hg rfl hfree
    (fun y hy => by simp [World.nativeOf, List.getElem?_append_left hy]) (by simp [World.nativeOf])
  unfold World.kept
  rw [List.length_append, List.length_singleton, hnew, add_right_comm]
  congr 2
  exact Finset.sum_congr rfl fun s _ => keeps_same hg rfl rfl

theorem kept_newSession {r s : Nat} {gated : Bool} {n : OcSession} {ins outs : List TensorInfo}
    (hi : Inv w gs) (hg : gs[i]? = some g)
    (ha : w.act (.newSession r gated n ins outs) s = some w') :
    w'.kept (gs.set i ((Op.newSession r gated n ins outs).upd g s)) = w.kept gs + n.resources := by
  obtain ⟨rfl, rfl⟩ := World.newSession_rest ha
  have hfree : holders Held.freedOf gs w.sessions.length = 0 := by
    refine holders_eq_zero fun x hx h => ?_
    exact hi.no_session le_rfl x hx (Held.freedOf_some h).2
  have hnew := sum_new OcSession.resources w.sessionNative
    (World.sessionNative { w with
      sessions := w.sessions ++
        [⟨⟨w.sessions.length, r, gated, ins, outs⟩, 0, .idle, 0, some n, false⟩] }) Held.freedOf
    ((Op.newSession r gated n ins outs).upd g w.sessions.length) n hg rfl hfree
    (fun y hy => by simp [World.sessionNative, List.getElem?_append_left hy])
    (by simp [World.sessionNative])
  unfold World.kept
  rw [List.length_append, List.length_singleton, hnew, ← add_assoc]
  congr 2
  exact Finset.sum_congr rfl fun r _ => keeps_same hg rfl rfl

omit [Platform] in
/-- What a call hands over, the world keeps. -/
theorem hand_over {x y z : Multiset Resource} (h : x ≤ y) : 0 + y + z = 0 + (y - x) + (z + x) := by
  calc 0 + y + z = 0 + (y - x + x) + z := by rw [tsub_add_cancel_of_le h]
    _ = 0 + (y - x) + (z + x) := by rw [← add_assoc, add_assoc, add_comm x z]

omit [Platform] in
/-- An operation that is not about runtimes and sessions. -/
theorem kept_rest {e : Op} {a : e.Resp} (hg : gs[i]? = some g) (he : ∀ f, e ≠ .enter f)
    (hs : w'.sessions = w.sessions) (hr : w'.runtimes = w.runtimes) :
    w'.kept (gs.set i (e.upd g a)) = w.kept gs := by
  obtain ⟨hshut, hfreed⟩ := frees_same (g := g) a he
  refine kept_same (by rw [hr]) (by rw [hs]) (fun r => keeps_same hg hshut ?_)
    fun s => keeps_same hg hfreed ?_
  · rw [World.nativeOf, World.nativeOf, hr]
  · rw [World.sessionNative, World.sessionNative, hs]

/-- **A step balances.** -/
theorem kept_step {e : Op} {a : e.Resp} (hi : Inv w gs) (hg : gs[i]? = some g) (hp : e.Pre g)
    (ha : w.act e a = some w') :
    e.acquires a + g.live + w.kept gs =
      e.releases + (e.upd g a).live + w'.kept (gs.set i (e.upd g a)) := by
  have hlive := (e.changes g a).live
  cases e with
  | sess s o =>
    have hlive : ((Op.sess s o).upd g a).live = g.live := hlive
    rw [hlive, kept_sess hg hp ha]
    rfl
  | rt r o =>
    have hlive : ((Op.rt r o).upd g a).live = g.live := hlive
    rw [hlive, kept_rt hi hg hp ha]
    rfl
  | newRuntime n =>
    rw [kept_newRuntime hi hg ha]
    exact hand_over hp.2
  | newSession r gated n ins outs =>
    rw [kept_newSession hi hg ha]
    exact hand_over hp.2.2.2.2
  | enter f =>
    obtain rfl := Option.some.inj ha
    have hlive : ((Op.enter f).upd g a).live = g.takes f + g.live := hlive
    have hacq : (Op.enter f).acquires a = 0 := rfl
    have hrel : (Op.enter f).releases = 0 := rfl
    rw [hlive, hacq, hrel, ← kept_enter hi hg hp, zero_add, zero_add, ← add_assoc,
      add_comm g.live]
  | nat o =>
    obtain ⟨-, hs, hr⟩ := World.act_rest ha
    have hlive : ((Op.nat o).upd g a).live = o.acquires a + (g.live - o.releases) := hlive
    rw [kept_rest hg (fun f h => by cases h) hs hr, hlive]
    refine congrArg (· + w.kept gs) ?_
    calc o.acquires a + g.live = o.acquires a + (o.releases + (g.live - o.releases)) := by
          rw [add_tsub_cancel_of_le hp.1]
      _ = o.releases + (o.acquires a + (g.live - o.releases)) := add_left_comm _ _ _
  | fault => exact a.elim
  | pool o =>
    obtain ⟨-, hs, hr⟩ := World.act_rest ha
    have hlive : ((Op.pool o).upd g a).live = g.live := hlive
    rw [kept_rest hg (fun f h => by cases h) hs hr, hlive]
    rfl
  | cb o =>
    obtain ⟨-, hs, hr⟩ := World.act_rest ha
    have hlive : ((Op.cb o).upd g a).live = g.live := hlive
    rw [kept_rest hg (fun f h => by cases h) hs hr, hlive]
    rfl
  | _ =>
    obtain ⟨-, hs, hr⟩ := World.act_rest ha
    rw [kept_rest hg (fun f h => by cases h) hs hr]
    rfl

/-- The ledger of the binding. -/
theorem ledger : Ledger system protocol Held.start Op.acquires (fun e _ => e.releases) Held.live
    World.kept where
  init := rfl
  act := by
    intro σ i t e k a w' g hr ht hk ha hg
    subst hg
    have hpre := Reachable.wp hr (List.mem_of_getElem? ht)
    rw [hk] at hpre
    exact kept_step (Reachable.inv hr) (State.ghosts_get ht) hpre.1 ha
  start := by
    intro w c w' gs h
    obtain ⟨cbs, rfl⟩ := World.start_rest h
    refine ⟨rfl, ?_⟩
    unfold World.kept
    congr 1
    · exact Finset.sum_congr rfl fun r _ => keeps_snoc rfl rfl
    · exact Finset.sum_congr rfl fun s _ => keeps_snoc rfl rfl
  move := by
    intro w v w' gs h
    obtain ⟨ctxs, pool, rfl⟩ := World.move_rest h
    rfl

/-! ## The references of closed sessions -/

section
variable {σ : Global} {t : Goroutine} {s : Nat} {st st' : SessionSt}

/-- Only the release of its reference ends a call's duty to release it. -/
theorem cleared_upd {e : Op} {a : e.Resp} (hp : e.Pre g) (h : g.cleared = some s) :
    (e.upd g a).cleared = some s ∨ ∃ r, e = .rt r (.decRefs (some s)) := by
  cases e with
  | sess s' o =>
    cases o with
    | clearNative =>
      rw [hp.2.2.2.2.2.1] at h
      cases h
    | gateSelect c => cases a <;> exact .inl h
    | _ => exact .inl h
  | rt r o =>
    cases o with
    | decRefs owner =>
      cases owner with
      | none =>
        simp only [Op.upd, RtOp.upd]
        split <;> exact .inl h
      | some s' =>
        have hs : g.cleared = some s' := hp.2.2.2
        rw [h, Option.some.injEq] at hs
        exact .inr ⟨r, by rw [hs]⟩
    | getNative =>
      simp only [Op.upd, RtOp.upd]
      split <;> exact .inl h
    | _ => exact .inl h
  | cb o =>
    obtain ⟨_, _, _, hupd⟩ := o.upd_shape g a
    rw [show (Op.cb o).upd g a = _ from hupd]
    exact .inl h
  | nat o =>
    obtain ⟨_, _, hupd⟩ := g.nat_upd o a
    rw [show (Op.nat o).upd g a = _ from hupd]
    exact .inl h
  | pool o => cases o <;> exact .inl h
  | _ => exact .inl h

omit [Platform] in
/-- A session that is closed and still counted was so before, or is being closed. -/
theorem World.SessionAfter.closed {e : Op} {a : e.Resp} (h : w.SessionAfter s st st' e a)
    (hnone : st'.native = none) (hrel : st'.released = false) :
    (st.native = none ∧ st.released = false ∧ ∀ r, e ≠ .rt r (.decRefs (some s))) ∨
      e = .sess s .clearNative := by
  cases e with
  | sess s' o =>
    rw [World.SessionAfter] at h
    split at h
    · next hs =>
      subst hs
      obtain ⟨-, hr, hn, -⟩ := SessionSt.act_keeps h
      by_cases ho : o = .clearNative
      · exact .inr (by rw [ho])
      · rw [hn ho] at hnone
        rw [hr] at hrel
        exact .inl ⟨hnone, hrel, fun r h => by cases h⟩
    · rw [h] at hnone hrel
      exact .inl ⟨hnone, hrel, fun r h => by cases h⟩
  | rt r o =>
    cases o with
    | decRefs owner =>
      cases owner with
      | none =>
        obtain rfl : st' = st := h
        exact .inl ⟨hnone, hrel, fun r h => by cases h⟩
      | some s' =>
        simp only [World.SessionAfter] at h
        split at h
        · rw [h] at hrel
          cases hrel
        · next hs =>
          rw [h] at hnone hrel
          refine .inl ⟨hnone, hrel, fun r h => ?_⟩
          cases h
          exact hs rfl
    | _ =>
      obtain rfl : st' = st := h
      exact .inl ⟨hnone, hrel, fun r h => by cases h⟩
  | _ =>
    obtain rfl : st' = st := h
    exact .inl ⟨hnone, hrel, fun r h => by cases h⟩

/-- A new session has its native session. -/
theorem World.act_fresh {e : Op} {a : e.Resp} (h : w.act e a = some w')
    (hold : w.sessions[s]? = none) (hst : w'.sessions[s]? = some st) : st.native ≠ none := by
  have hsame : w'.sessions = w.sessions → False := fun hs => by
    rw [hs, hold] at hst
    cases hst
  cases e with
  | sess s' o =>
    obtain ⟨st₁, st₁', -, -, rfl⟩ := sess_cases h
    have hlt := (List.getElem?_eq_some_iff.1 hst).1
    rw [List.length_set] at hlt
    exact absurd hold (by simp [hlt])
  | rt r o =>
    obtain ⟨st₁, st₁', -, -, rfl⟩ := rt_cases h
    rw [noteRelease_get, hold] at hst
    cases hst
  | newRuntime n =>
    rw [newRuntime_rest h] at hsame
    exact (hsame rfl).elim
  | newSession r gated n ins outs =>
    rw [(newSession_rest h).2] at hst
    have hle : w.sessions.length ≤ s := List.getElem?_eq_none_iff.1 hold
    rw [List.getElem?_append_right hle] at hst
    rw [List.mem_singleton.1 (List.mem_of_getElem? hst)]
    exact fun h => by cases h
  | _ => exact (hsame (act_rest h).2.1).elim

/-- Who has closed a session gives its reference back. -/
theorem Reachable.cleared (hr : system.Reachable σ) (hst : σ.world.sessions[s]? = some st)
    (hnone : st.native = none) (hrel : st.released = false) :
    ∃ t ∈ σ.threads, (held t).cleared = some s := by
  induction hr generalizing st with
  | init => cases hst
  | @step σ σ' l hr hs ih =>
    cases hs with
    | @act i t e k a w' ht hk ha =>
      have hmem := List.mem_of_getElem? ht
      have hlt := (List.getElem?_eq_some_iff.1 ht).1
      have hpre := Reachable.wp hr hmem
      rw [hk] at hpre
      have hnext : held (t.next k a) = e.upd (held t) a := Thread.ghost_next protocol Held.start t k a
      have hnew : t.next k a ∈ σ.threads.set i (t.next k a) :=
        List.mem_of_getElem? (List.getElem?_set_self hlt)
      cases hold : σ.world.sessions[s]? with
      | none =>
        -- a new session has its native session
        exact absurd hnone (World.act_fresh ha hold hst)
      | some st₀ =>
        obtain ⟨st₁, hst₁, hafter⟩ := World.act_session ha hold
        obtain rfl : st = st₁ := by rw [hst, Option.some.injEq] at hst₁; exact hst₁
        rcases hafter.closed hnone hrel with ⟨hnone₀, hrel₀, hne⟩ | rfl
        · obtain ⟨u, hu, hcleared⟩ := ih hold hnone₀ hrel₀
          obtain ⟨j, hj⟩ := List.mem_iff_getElem?.1 hu
          by_cases hij : i = j
          · subst hij
            obtain rfl : t = u := by rw [ht, Option.some.injEq] at hj; exact hj
            rcases cleared_upd (a := a) hpre.1 hcleared with h | ⟨r, he⟩
            · exact ⟨_, hnew, hnext ▸ h⟩
            · exact absurd he (hne r)
          · exact ⟨u, List.mem_of_getElem? ((List.getElem?_set_ne hij).trans hj), hcleared⟩
        · exact ⟨_, hnew, by rw [hnext]; rfl⟩
    | start hs =>
      obtain ⟨cbs, rfl⟩ := World.start_rest hs
      obtain ⟨u, hu, hcleared⟩ := ih hst hnone hrel
      exact ⟨u, List.mem_append_left _ hu, hcleared⟩
    | move hm =>
      obtain ⟨ctxs, pool, rfl⟩ := World.move_rest hm
      exact ih hst hnone hrel

end

/-! ## The ledger -/

section
variable {σ : Global} {t : Goroutine} {r s : Nat}

/-- What all calls together have acquired, and released. -/
def acquiredIn (σ : Global) : Multiset Resource := total (fun t : Goroutine => acquired t.trace) σ.threads

def releasedIn (σ : Global) : Multiset Resource := total (fun t : Goroutine => released t.trace) σ.threads

/-- What the runtime `r` owns, until `oc_close` has been entered for it. -/
def runtimeOwns (σ : Global) (r : Nat) : Multiset Resource :=
  if closes σ r = 0 then (σ.world.nativeOf r).elim 0 OcRuntime.resources else 0

/-- What the session `s` owns, until `Close` has entered `oc_session_free` for it. -/
def sessionOwns (σ : Global) (s : Nat) : Multiset Resource :=
  if sessionFrees σ s = 0 then (σ.world.sessionNative s).elim 0 OcSession.resources else 0

theorem acquiredIn_eq (hr : system.Reachable σ) :
    acquiredIn σ = releasedIn σ + total Held.live (σ.threads.map held) +
      (∑ r ∈ Finset.range σ.world.runtimes.length, runtimeOwns σ r +
        ∑ s ∈ Finset.range σ.world.sessions.length, sessionOwns σ s) := by
  refine (ledger.balance hr).trans ?_
  congr 1
  unfold World.kept keeps runtimeOwns sessionOwns
  simp only [closes_eq hr, sessionFrees_eq hr]
  rfl

/-- Every call has returned. -/
def Settled (σ : Global) : Prop := ∀ t ∈ σ.threads, ∃ ret, t.rest = .ret ret

/-- When every call has returned, no reference is in transit and nothing is being freed. -/
theorem Settled.idle (hr : system.Reachable σ) (h : Settled σ) : ∀ g ∈ σ.threads.map held, g.Idle := by
  intro g hg
  obtain ⟨t, ht, rfl⟩ := List.mem_map.1 hg
  obtain ⟨ret, hret⟩ := h t ht
  exact (Reachable.ends hr ht hret).idle

theorem Settled.none_held (hr : system.Reachable σ) (h : Settled σ) (f : Held → Option Nat) (x : Nat)
    (hf : ∀ g, g.Idle → g.Wf → f g = none) : holders f (σ.threads.map held) x = 0 := by
  refine holders_eq_zero fun g hg hx => ?_
  rw [hf g (h.idle hr g hg) ((Reachable.inv hr).wf g hg)] at hx
  cases hx

/-- The runtime of settled calls: what its `native` says. -/
theorem Settled.runtime (hr : system.Reachable σ) (h : Settled σ) {st : RuntimeSt}
    (hst : σ.world.runtimes[r]? = some st) :
    st.refs = (if st.closed then 0 else 1) + unreleased σ.world r ∧
      (st.native.isSome ↔ 0 < st.refs) ∧ closes σ r = if st.refs = 0 then 1 else 0 := by
  have hok := (Reachable.inv hr).runtimes r st hst
  have hraised := h.none_held hr Held.raised r fun g hg _ => hg.raised
  have howes := h.none_held hr Held.owes r fun g hg _ => hg.owes
  have hzero := h.none_held hr Held.zero r fun g hg _ => hg.zero
  have hlast := h.none_held hr Held.lastOf r fun g hg _ => by
    unfold Held.lastOf
    rw [hg.zero, ite_self]
  have hrefs := hok.refs
  have hnative := hok.native
  have hshut := hok.shut
  rw [hraised, howes, unreleased_eq] at hrefs
  rw [hzero] at hnative
  rw [hlast, ← closes_eq hr] at hshut
  exact ⟨by simpa using hrefs, by simpa using hnative, hshut⟩

theorem Settled.session (hr : system.Reachable σ) (h : Settled σ) {st : SessionSt}
    (hst : σ.world.sessions[s]? = some st) :
    (st.native = none ↔ st.released = true) ∧
      sessionFrees σ s = if st.native = none then 1 else 0 := by
  have hok := (Reachable.inv hr).sessions s st hst
  have hfreeing := h.none_held hr Held.freeing s fun g hg hwf => by
    cases hf : g.freeing with
    | none => rfl
    | some s' =>
      have hexcl := (hwf.freeing hf).2
      rw [hg.excl] at hexcl
      cases hexcl
  have hfreed := hok.freed
  rw [hfreeing, add_zero, ← sessionFrees_eq hr] at hfreed
  refine ⟨⟨fun hnone => ?_, fun hrel => ?_⟩, hfreed⟩
  · by_contra hrel
    obtain ⟨t, ht, hcleared⟩ := Reachable.cleared hr hst hnone (by simpa using hrel)
    rw [(h.idle hr _ (Reachable.held_mem ht)).cleared] at hcleared
    cases hcleared
  · cases hn : st.native with
    | none => rfl
    | some n =>
      rw [(hok.native n hn).1] at hrel
      cases hrel

/-- A runtime whose `Close` has returned is closed. -/
theorem Reachable.closedRuntime (hr : system.Reachable σ) (ht : t ∈ σ.threads) {ret : Ret}
    (hret : t.rest = .ret ret) (hcall : t.call = .closeRuntime r) {st : RuntimeSt}
    (hst : σ.world.runtimes[r]? = some st) : st.closed = true := by
  obtain ⟨ls, hx⟩ := hr.execution
  obtain ⟨cs, hlin, -⟩ := commits.linearizes hx
  obtain ⟨i, hi⟩ := List.mem_iff_getElem?.1 ht
  have hdone := hlin.returned i t ret hi hret
  rw [hcall] at hdone
  rcases hdone with ⟨c, hc, -, hmeans⟩ | ⟨hno, -⟩
  · have hmem : .closedRuntime r ∈ cs.map Commit.op := List.mem_map.2 ⟨c, hc, hmeans.2⟩
    have hclosed := Registry.closed_after hlin.legal hmem
    unfold Registry.ClosedRuntime at hclosed
    rw [World.registry_runtime hst, Option.some.injEq] at hclosed
    exact hclosed
  · exact hno.elim

/-- A runtime keeps its native part until it and its sessions are closed. -/
theorem Settled.open_iff (hr : system.Reachable σ) (h : Settled σ) {st : RuntimeSt}
    (hst : σ.world.runtimes[r]? = some st) : st.native.isSome ↔ st.closed = false ∨
      ∃ ss ∈ σ.world.sessions, ss.sess.runtime = r ∧ ss.native.isSome := by
  obtain ⟨hrefs, hnative, -⟩ := h.runtime hr hst
  have hpos : 0 < unreleased σ.world r ↔
      ∃ ss ∈ σ.world.sessions, ss.sess.runtime = r ∧ ss.native.isSome := by
    unfold unreleased
    rw [List.countP_pos_iff]
    refine exists_congr fun ss => and_congr_right fun hss => ?_
    obtain ⟨s, hs⟩ := List.mem_iff_getElem?.1 hss
    obtain ⟨hiff, -⟩ := h.session hr hs
    rw [decide_eq_true_eq, Option.isSome_iff_ne_none, ne_eq, hiff, Bool.not_eq_true]
  rw [hnative, ← hpos, hrefs]
  cases st.closed with
  | true => simp
  | false =>
    refine iff_of_true ?_ (.inl rfl)
    rw [if_neg Bool.false_ne_true]
    omega

/-- What is left when every call has returned. -/
theorem Settled.left (hr : system.Reachable σ) (h : Settled σ) :
    acquiredIn σ = releasedIn σ +
      (total (fun st => st.native.elim 0 OcRuntime.resources) σ.world.runtimes +
        total (fun st => st.native.elim 0 OcSession.resources) σ.world.sessions) := by
  have hlive : total Held.live (σ.threads.map held) = 0 :=
    total_eq_zero_of fun g hg => (h.idle hr g hg).live
  rw [acquiredIn_eq hr, hlive, add_zero, ← sum_entries, ← sum_entries]
  congr 2
  · refine Finset.sum_congr rfl fun r hlt => ?_
    obtain ⟨st, hst⟩ : ∃ st, σ.world.runtimes[r]? = some st :=
      ⟨_, List.getElem?_eq_getElem (Finset.mem_range.1 hlt)⟩
    obtain ⟨-, hnative, hcloses⟩ := h.runtime hr hst
    unfold runtimeOwns World.nativeOf
    rw [hst]
    dsimp only [Option.bind_some, Option.elim_some]
    split at hcloses
    · next hzero =>
      have hnone : st.native = none := by
        by_contra hn
        have hpos := hnative.1 (Option.isSome_iff_ne_none.2 hn)
        omega
      rw [hcloses, hnone, if_neg (by omega)]
      rfl
    · rw [if_pos hcloses]
  · refine Finset.sum_congr rfl fun s hlt => ?_
    obtain ⟨st, hst⟩ : ∃ st, σ.world.sessions[s]? = some st :=
      ⟨_, List.getElem?_eq_getElem (Finset.mem_range.1 hlt)⟩
    obtain ⟨-, hfrees⟩ := h.session hr hst
    unfold sessionOwns World.sessionNative
    rw [hst]
    dsimp only [Option.bind_some, Option.elim_some]
    split at hfrees
    · next hnone =>
      rw [hfrees, hnone, if_neg (by omega)]
      rfl
    · rw [if_pos hfrees]

/-- A session whose `Close` has returned has no native session. -/
theorem Reachable.closedSession (hr : system.Reachable σ) (ht : t ∈ σ.threads) {ret : Ret}
    (hret : t.rest = .ret ret) {st : SessionSt} (hst : σ.world.sessions[s]? = some st)
    (hcall : t.call = .closeSession st.sess) : st.native = none := by
  have hi := Reachable.inv hr
  have hgone := (Reachable.ends hr ht hret).gone st.sess hcall
  obtain ⟨st₁, hst₁, hnone⟩ := (hi.knows _ (Reachable.held_mem ht)).gone hgone st.sess
    (by rw [Reachable.call hr ht, hcall]; rfl)
  rw [(hi.sessions s st hst).id, hst, Option.some.injEq] at hst₁
  rw [hst₁, hnone]

/-- **The native objects of the binding.** -/
theorem resource_ledger (hr : system.Reachable σ) :
    releasedIn σ + (∑ r ∈ Finset.range σ.world.runtimes.length, runtimeOwns σ r +
      ∑ s ∈ Finset.range σ.world.sessions.length, sessionOwns σ s) ≤ acquiredIn σ ∧
    (Settled σ →
      acquiredIn σ = releasedIn σ +
        (total (fun st => st.native.elim 0 OcRuntime.resources) σ.world.runtimes +
          total (fun st => st.native.elim 0 OcSession.resources) σ.world.sessions) ∧
      (∀ r st, σ.world.runtimes[r]? = some st → (st.native.isSome ↔ st.closed = false ∨
        ∃ ss ∈ σ.world.sessions, ss.sess.runtime = r ∧ ss.native.isSome)) ∧
      ((∀ r < σ.world.runtimes.length, ∃ t ∈ σ.threads, t.call = .closeRuntime r) →
        (∀ ss ∈ σ.world.sessions, ∃ t ∈ σ.threads, t.call = .closeSession ss.sess) →
        acquiredIn σ = releasedIn σ)) := by
  refine ⟨?_, fun hsettled => ⟨hsettled.left hr, fun r st hst => hsettled.open_iff hr hst, ?_⟩⟩
  · rw [acquiredIn_eq hr, add_right_comm]
    exact Multiset.le_add_right _ _
  intro hruntimes hsessions
  have hsess : ∀ ss ∈ σ.world.sessions, ss.native = none := by
    intro ss hss
    obtain ⟨s, hs⟩ := List.mem_iff_getElem?.1 hss
    obtain ⟨t, ht, hcall⟩ := hsessions ss hss
    obtain ⟨ret, hret⟩ := hsettled t ht
    exact Reachable.closedSession hr ht hret hs hcall
  have hruns : ∀ st ∈ σ.world.runtimes, st.native = none := by
    intro st hst
    obtain ⟨r, hrst⟩ := List.mem_iff_getElem?.1 hst
    obtain ⟨t, ht, hcall⟩ := hruntimes r (List.getElem?_eq_some_iff.1 hrst).1
    obtain ⟨ret, hret⟩ := hsettled t ht
    have hclosed := Reachable.closedRuntime hr ht hret hcall hrst
    by_contra hn
    rcases (hsettled.open_iff hr hrst).1 (Option.isSome_iff_ne_none.2 hn) with h | ⟨ss, hss, -, hsome⟩
    · rw [hclosed] at h
      cases h
    · rw [hsess ss hss] at hsome
      cases hsome
  rw [hsettled.left hr, total_eq_zero_of fun st hst => by rw [hruns st hst]; rfl,
    total_eq_zero_of fun ss hss => by rw [hsess ss hss]; rfl, add_zero, add_zero]

end

end

namespace Sample

/-- Goroutine 4 closes the runtime after everything else. -/
def shutDown : List Cue := ended ++ [.start (.closeRuntime 0), go 4 14]

end Sample

open Sample in
theorem resource_ledger_sample : 0 < (acquiredIn (system.played shutDown)).card ∧
    acquiredIn (system.played shutDown) = releasedIn (system.played shutDown) := by
  obtain ⟨hvalues, hcard, hruntimes, hsessions⟩ :
      (∀ t ∈ (system.played shutDown).threads, t.rest.value.isSome) ∧
      0 < (acquiredIn (system.played shutDown)).card ∧
      (∀ r < (system.played shutDown).world.runtimes.length,
        ∃ t ∈ (system.played shutDown).threads, t.call = .closeRuntime r) ∧
      ∀ ss ∈ (system.played shutDown).world.sessions,
        ∃ t ∈ (system.played shutDown).threads, t.call = .closeSession ss.sess := by
    decide +kernel
  have hsettled : Settled (system.played shutDown) := by
    intro t ht
    obtain ⟨ret, hret⟩ := Option.isSome_iff_exists.1 (hvalues t ht)
    exact ⟨ret, Prog.value_eq.1 hret⟩
  refine ⟨hcard, ?_⟩
  exact ((resource_ledger (System.played_reachable shutDown)).2 hsettled).2.2 hruntimes hsessions

end Onnxcraft
