import Onnxcraft.Protocol.Steps

/-!
# The references of a runtime

While its mutex is free, `refs` counts the runtime's own reference and those of its sessions, and
`native` is set iff one is left. `oc_close` is called once, by the call that takes the count to 0,
when no native session and no other native call of the runtime is left.
-/

namespace Onnxcraft

open Effect

section
variable [Platform] {w : World} {gs : List Held} {σ σ' : Global} {t : Goroutine} {r : Nat}
  {st : RuntimeSt}

/-- The sessions of `r` whose reference has not been given back. -/
def unreleased (w : World) (r : Nat) : Nat :=
  w.sessions.countP fun st => st.sess.runtime = r ∧ st.released = false

/-- How often the calls on `r` have entered `oc_close`. -/
def closes (σ : Global) (r : Nat) : Nat :=
  total (fun t : Goroutine => if t.call.runtime = some r then closings t.trace else 0) σ.threads

/-- The event takes a reference count to 0. -/
def takesLast : Event Op Op.Resp → Bool
  | ⟨.rt _ (.decRefs _), n⟩ => n = 0
  | _ => false

/-- The call has taken the count of `r` to 0 and has not yet entered `oc_close`. -/
def Closer (r : Nat) (t : Goroutine) : Prop :=
  t.call.runtime = some r ∧ t.trace.any takesLast ∧ closings t.trace = 0

instance (r : Nat) : DecidablePred (Closer r) := fun _ => inferInstanceAs (Decidable (_ ∧ _ ∧ _))

/-- The call works on the runtime `r`: it is a load, a run or a `Close`. -/
def WorksOn (r : Nat) (t : Goroutine) : Prop :=
  t.call.runtime = some r ∨ t.call.session.map (·.runtime) = some r

/-! ## The counts -/

omit [Platform] in
theorem unreleased_eq (w : World) (r : Nat) :
    holders SessionSt.counts w.sessions r = unreleased w r := by
  rw [unreleased, countP_eq_total, holders]
  congr 1
  funext st
  unfold SessionSt.counts
  cases st.released <;> simp

theorem closes_eq (hr : system.Reachable σ) (r : Nat) :
    closes σ r = holders Held.shutOf (σ.threads.map held) r := by
  rw [closes, holders, total, total, List.map_map]
  congr 1
  apply List.map_congr_left
  intro t ht
  have hshut : closings t.trace = if (held t).shut then 1 else 0 :=
    closings_eq (Reachable.valid hr ht)
  simp only [Function.comp_apply, Held.shutOf, Reachable.call hr ht, hshut]
  cases (held t).shut <;> simp

/-- Who has taken a count to 0 is about to call `oc_close`, or has called it. -/
theorem takesLast_iff {tr : Trace} {c : Call} (h : protocol.Valid tr (Held.start c)) :
    tr.any takesLast = ((protocol.after tr (Held.start c)).zero.isSome ||
      (protocol.after tr (Held.start c)).shut) := by
  refine h.history (I := fun tr g => tr.any takesLast = (g.zero.isSome || g.shut)) rfl ?_
  intro tr g e a hg hp _
  rw [List.any_append, hg, List.any_cons, List.any_nil, Bool.or_false, protocol_upd]
  cases e with
  | rt r o =>
    cases o with
    | decRefs owner =>
      by_cases ha : a = 0
      · cases owner <;> simp [takesLast, Op.upd, RtOp.upd, ha]
      · cases owner <;> simp [takesLast, Op.upd, RtOp.upd, ha, Held.gave]
    | clearNative =>
      have hshut : g.shut = true := hp.2.2.2.1
      simp [takesLast, Op.upd, RtOp.upd, hshut]
    | getNative =>
      simp only [takesLast, Bool.or_false, Op.upd, RtOp.upd]
      split <;> rfl
    | _ => simp [takesLast, Op.upd, RtOp.upd]
  | sess s o =>
    obtain ⟨_, _, _, _, _, _, _, _, _, hupd⟩ := o.upd_shape g s a
    rw [show (Op.sess s o).upd g a = _ from hupd]
    simp [takesLast]
  | cb o =>
    obtain ⟨_, _, _, hupd⟩ := o.upd_shape g a
    rw [show (Op.cb o).upd g a = _ from hupd]
    simp [takesLast]
  | nat o =>
    obtain ⟨_, _, hupd⟩ := g.nat_upd o a
    rw [show (Op.nat o).upd g a = _ from hupd]
    simp [takesLast]
  | enter f =>
    cases f with
    | ocClose x =>
      have hzero : g.zero.isSome = true := hp.2.1
      simp [takesLast, Op.upd, hzero]
    | _ => simp [takesLast, Op.upd, Held.shuts]
  | pool o => cases o <;> simp [takesLast, Op.upd]
  | _ => simp [takesLast, Op.upd]

theorem closer_iff (hr : system.Reachable σ) (ht : t ∈ σ.threads) (r : Nat) :
    Closer r t ↔ (held t).lastOf = some r := by
  have hv := Reachable.valid hr ht
  have hshut : closings t.trace = if (held t).shut then 1 else 0 := closings_eq hv
  have hlast : t.trace.any takesLast = ((held t).zero.isSome || (held t).shut) := takesLast_iff hv
  have hwf := (Reachable.inv hr).wf _ (Reachable.held_mem ht)
  unfold Closer Held.lastOf
  rw [hshut, hlast]
  cases hs : (held t).shut with
  | true => simp
  | false =>
    simp only [Bool.or_false, Bool.false_eq_true, if_false, and_true]
    constructor
    · intro h
      obtain ⟨r', hzero⟩ := Option.isSome_iff_exists.1 h.2
      have hcall := hwf.mu r' (hwf.zero r' hzero)
      rw [Reachable.call hr ht, h.1] at hcall
      rw [hzero, ← hcall]
    · intro h
      have hcall := hwf.mu r (hwf.zero r h)
      rw [Reachable.call hr ht] at hcall
      exact ⟨hcall, by rw [h]; rfl⟩

theorem closers_eq (hr : system.Reachable σ) (r : Nat) :
    σ.threads.countP (fun t => Closer r t) = holders Held.lastOf (σ.threads.map held) r := by
  rw [countP_eq_total, holders, total, total, List.map_map]
  congr 1
  apply List.map_congr_left
  intro t ht
  simp only [Function.comp_apply, decide_eq_true_eq, closer_iff hr ht r]

/-- While the mutex is free, no reference is in transit. -/
theorem Inv.settled (hi : Inv w gs) (hok : RuntimeOk w gs r st) (hfree : st.locked = false) :
    holders Held.raised gs r = 0 ∧ holders Held.owes gs r = 0 ∧ holders Held.zero gs r = 0 := by
  have hmu : ∀ g ∈ gs, g.mu ≠ some r := by
    intro g hg hmu
    obtain ⟨i, hgi⟩ := List.mem_iff_getElem?.1 hg
    have hpos := holders_pos hgi hmu
    rw [hok.locked, hfree] at hpos
    exact absurd hpos (by decide)
  refine ⟨holders_eq_zero ?_, holders_eq_zero ?_, holders_eq_zero ?_⟩
  · intro g hg h
    exact hmu g hg ((hi.wf g hg).raised r h)
  · intro g hg h
    exact hmu g hg ((hi.wf g hg).owes r h)
  · intro g hg h
    exact hmu g hg ((hi.wf g hg).zero r h)

/-! ## The end of a runtime -/

/-- The runtime of a session that is not closed has a reference. -/
theorem Inv.counted (hi : Inv w gs) (hst : w.runtimes[r]? = some st) {s : Nat} {ss : SessionSt}
    (hss : w.sessions[s]? = some ss) (hrun : ss.sess.runtime = r) (hnat : ss.native.isSome) :
    0 < st.refs := by
  obtain ⟨n, hn⟩ := Option.isSome_iff_exists.1 hnat
  obtain ⟨hrel, -⟩ := (hi.sessions s ss hss).native n hn
  have hpos : 0 < holders SessionSt.counts w.sessions r :=
    holders_pos hss (by simp [SessionSt.counts, hrel, hrun])
  have hrefs := (hi.runtimes r st hst).refs
  split at hrefs <;> omega

/-- A call in a C function keeps its runtime alive: it holds the mutex, or a session that is not
closed. -/
theorem Inv.inside_alive (hi : Inv w gs) {g : Held} (hg : g ∈ gs) {f : CFunc} {x : OcRuntime}
    (hin : g.inC = some f) (hx : f.runtime = some x)
    (hcall : g.call.runtime = some r ∨ g.call.session.map (·.runtime) = some r) :
    g.mu = some r ∨ ∃ (s : Nat) (ss : SessionSt), w.sessions[s]? = some ss ∧
      ss.sess.runtime = r ∧ ss.native.isSome := by
  have hwf := hi.wf g hg
  have hk := hi.knows g hg
  have hmu : ∀ r', g.mu = some r' → g.mu = some r := by
    intro r' hr'
    have hrt := hwf.mu r' hr'
    cases hc : g.call <;> rw [hc] at hcall hrt <;> simp_all [Call.runtime, Call.session]
  have hseen : ∀ n, g.seen = some n → ∃ (s : Nat) (ss : SessionSt), w.sessions[s]? = some ss ∧
      ss.sess.runtime = r ∧ ss.native.isSome := by
    intro n hn
    obtain ⟨s, ss, hlock, hss, hnat⟩ := hk.seen n hn
    have hid : g.call.session.map (·.id) = some s := hlock.elim (hwf.read s) (hwf.excl s)
    obtain ⟨s₀, hs₀, rfl⟩ := Option.map_eq_some_iff.1 hid
    obtain ⟨st₀, hst₀, rfl⟩ := hk.session s₀ hs₀
    obtain rfl : ss = st₀ := by rw [hss, Option.some.injEq] at hst₀; exact hst₀
    have hrun : ss.sess.runtime = r := by
      cases hc : g.call <;> rw [hc] at hcall hs₀ <;> simp_all [Call.runtime, Call.session]
    exact ⟨_, ss, hss, hrun, by rw [hnat]; rfl⟩
  have hruntime : ∀ y, g.runtime = some y → g.mu = some r ∨ ∃ (s : Nat) (ss : SessionSt),
      w.sessions[s]? = some ss ∧ ss.sess.runtime = r ∧ ss.native.isSome := by
    intro y hy
    unfold Held.runtime at hy
    cases hrt : g.rt with
    | some z =>
      obtain ⟨r', hr', -⟩ := hk.rt z hrt
      exact .inl (hmu r' hr')
    | none =>
      cases hn : g.seen with
      | some n => exact .inr (hseen n hn)
      | none => simp [hrt, hn] at hy
  have hinside := hwf.inside f hin
  cases f with
  | ocOpen => cases hx
  | ocClose y =>
    obtain ⟨r', hzero⟩ := Option.isSome_iff_exists.1 hinside.1
    exact .inl (hmu r' (hwf.zero r' hzero))
  | ocSessionFree n =>
    obtain ⟨n', -, hr, -⟩ := hinside
    exact hruntime _ hr
  | ocRun n | ocRunInto n | ocOutputsFree n => exact .inr (hseen n hinside.1)
  | ocTerminate y o =>
    obtain ⟨id, hc, -⟩ := hinside
    rw [hc] at hcall
    exact absurd hcall (by simp [Call.runtime, Call.session])
  | _ => exact hruntime _ hinside

/-- The call is in a C function that works on a runtime. -/
def InNative (t : Goroutine) : Prop := ∃ f x, inC t.trace = some f ∧ f.runtime = some x

/-- Once the runtime is closed it stays so, and its count only falls. -/
theorem Reachable.closed (hr : system.Reachable σ) (hst : σ.world.runtimes[r]? = some st)
    (hclosed : st.closed) (hpath : system.Path (fun _ _ => True) σ σ') :
    ∃ st', σ'.world.runtimes[r]? = some st' ∧ st'.closed ∧ st'.refs ≤ st.refs := by
  induction hpath with
  | nil => exact ⟨st, hst, hclosed, le_rfl⟩
  | @snoc σ₁ σ₂ l hpath _ hs ih =>
    obtain ⟨st₁, hst₁, hclosed₁, hle⟩ := ih
    have hr₁ := hpath.reachable hr
    cases hs with
    | @act i t e k a w' ht hk ha =>
      obtain ⟨st₂, hst₂, hafter⟩ := World.act_runtime ha hst₁
      refine ⟨st₂, hst₂, ?_⟩
      have hkeep : st₂ = st₁ → st₂.closed = true ∧ st₂.refs ≤ st.refs := by
        intro heq
        rw [heq]
        exact ⟨hclosed₁, hle⟩
      cases e with
      | rt r' o =>
        rw [World.RuntimeAfter] at hafter
        split at hafter
        · next hrr =>
          subst hrr
          have hcases := RuntimeSt.act_cases hafter
          cases o with
          | incRefs =>
            -- the call has read `closed` under the mutex
            have hpre := Reachable.wp hr₁ (List.mem_of_getElem? ht)
            rw [hk] at hpre
            obtain ⟨hmu, hfalse, -⟩ := hpre.1.2
            have hknows := (Reachable.inv hr₁).knows _ (Reachable.held_mem (List.mem_of_getElem? ht))
            obtain ⟨r₀, st₀, hmu₀, hst₀, hfalse₀⟩ := hknows.closed _ hfalse
            obtain rfl : r₀ = r' := by rw [hmu, Option.some.injEq] at hmu₀; exact hmu₀.symm
            obtain rfl : st₁ = st₀ := by rw [hst₁, Option.some.injEq] at hst₀; exact hst₀
            rw [hfalse₀] at hclosed₁
            exact absurd hclosed₁ Bool.false_ne_true
          | decRefs owner =>
            obtain ⟨hless, rfl⟩ := hcases
            have hfewer : st₁.refs - 1 ≤ st.refs := by omega
            exact ⟨hclosed₁, hless.trans_le hfewer⟩
          | setClosed =>
            rw [hcases]
            exact ⟨rfl, hle⟩
          | clearNative =>
            rw [hcases]
            exact ⟨hclosed₁, hle⟩
          | _ =>
            rw [hcases.2]
            exact ⟨hclosed₁, hle⟩
        · exact hkeep hafter
      | _ => exact hkeep hafter
    | start hstart =>
      obtain ⟨cbs, rfl⟩ := World.start_rest hstart
      exact ⟨st₁, hst₁, hclosed₁, hle⟩
    | move hmove =>
      obtain ⟨ctxs, pool, rfl⟩ := World.move_rest hmove
      exact ⟨st₁, hst₁, hclosed₁, hle⟩

/-- Who is in `oc_close` has found the last reference gone, every session closed, and no other call
in native code of the runtime. -/
theorem Reachable.closing (hr : system.Reachable σ) (hst : σ.world.runtimes[r]? = some st) {i : Nat}
    (ht : σ.threads[i]? = some t) (hcall : t.call.runtime = some r) {n : Option OcRuntime}
    (hin : inC t.trace = some (.ocClose n)) :
    st.refs = 0 ∧ n = st.native ∧ n.isSome ∧
      (∀ ss ∈ σ.world.sessions, ss.sess.runtime = r → ss.native = none) ∧
      ∀ (j : Nat) (u : Goroutine), σ.threads[j]? = some u → WorksOn r u → InNative u → j = i := by
  have hi := Reachable.inv hr
  have hmem := List.mem_of_getElem? ht
  have hwf := hi.wf _ (Reachable.held_mem hmem)
  have hinC : (held t).inC = some (.ocClose n) := (inC_eq (Reachable.valid hr hmem)).trans hin
  obtain ⟨hzero, x, rfl, hrt⟩ := hwf.inside _ hinC
  obtain ⟨r', hzero⟩ := Option.isSome_iff_exists.1 hzero
  have hmu := hwf.zero r' hzero
  obtain rfl : r = r' := by
    have := hwf.mu r' hmu
    rw [Reachable.call hr hmem, hcall, Option.some.injEq] at this
    exact this
  have hok := hi.runtimes r st hst
  have hrefs : st.refs = 0 := hok.zero (holders_pos (Reachable.held_get ht) hzero)
  have hnative : st.native = some x := by
    obtain ⟨r₀, hmu₀, hnat⟩ := (hi.knows _ (Reachable.held_mem hmem)).rt x hrt
    obtain rfl : r = r₀ := by rw [hmu, Option.some.injEq] at hmu₀; exact hmu₀
    rw [World.nativeOf, hst] at hnat
    exact hnat
  have hnone : ∀ ss ∈ σ.world.sessions, ss.sess.runtime = r → ss.native = none := by
    intro ss hss hrun
    obtain ⟨s, hs⟩ := List.mem_iff_getElem?.1 hss
    by_contra hnat
    have := hi.counted hst hs hrun (Option.isSome_iff_ne_none.2 hnat)
    omega
  refine ⟨hrefs, hnative.symm, rfl, hnone, ?_⟩
  intro j u hu hworks huin
  obtain ⟨f, y, huin, hy⟩ := huin
  have humem := List.mem_of_getElem? hu
  rw [← inC_eq (Reachable.valid hr humem)] at huin
  have hworks : (held u).call.runtime = some r ∨ (held u).call.session.map (·.runtime) = some r := by
    rw [Reachable.call hr humem]
    exact hworks
  rcases hi.inside_alive (Reachable.held_mem humem) huin hy hworks with hmu' | ⟨s, ss, hs, hrun, hsome⟩
  · refine holder_unique (f := Held.mu) (x := r) ?_ (Reachable.held_get hu) (Reachable.held_get ht)
      hmu' hmu
    rw [hok.locked]
    split <;> decide
  · rw [hnone ss (List.mem_of_getElem? hs) hrun] at hsome
    exact absurd hsome (by decide)

/-- What a run reads of its runtime, without the mutex. -/
theorem Reachable.run_native (hr : system.Reachable σ) (hst : σ.world.runtimes[r]? = some st)
    {i : Nat} (ht : σ.threads[i]? = some t) (hrun : t.call.ctx.isSome) {n : Option OcRuntime}
    (hs : system.Step σ (.act i ⟨.rt r .getNative, n⟩) σ') :
    n = st.native ∧ n.isSome ∧ 0 < st.refs := by
  have hi := Reachable.inv hr
  have hmem := List.mem_of_getElem? ht
  cases hs with
  | @act _ u _ k _ w' hu hk ha =>
    obtain rfl : t = u := by rw [ht, Option.some.injEq] at hu; exact hu
    have hpre := Reachable.wp hr hmem
    rw [hk] at hpre
    obtain ⟨-, hpre⟩ := hpre.1
    have hcall := Reachable.call hr hmem
    have hwf := hi.wf _ (Reachable.held_mem hmem)
    have hmu : (held t).mu ≠ some r := by
      intro hmu
      have hrt := hwf.mu r hmu
      rw [hcall] at hrt
      cases hc : t.call <;> rw [hc] at hrt hrun <;> simp_all [Call.runtime, Call.ctx]
    obtain ⟨hseen, hrun'⟩ := hpre.resolve_left hmu
    obtain ⟨m, hm⟩ := Option.isSome_iff_exists.1 hseen
    obtain ⟨s, ss, hlock, hss, hnat⟩ := (hi.knows _ (Reachable.held_mem hmem)).seen m hm
    have hid := hlock.elim (hwf.read s) (hwf.excl s)
    obtain ⟨s₀, hs₀, rfl⟩ := Option.map_eq_some_iff.1 hid
    obtain ⟨st₀, hst₀, rfl⟩ := (hi.knows _ (Reachable.held_mem hmem)).session s₀ hs₀
    obtain rfl : ss = st₀ := by rw [hss, Option.some.injEq] at hst₀; exact hst₀
    have hr' : ss.sess.runtime = r := by
      rw [hs₀] at hrun'
      exact Option.some.inj hrun'
    obtain ⟨-, -, hlive⟩ := (hi.sessions _ ss hss).native m hnat
    rw [hr', World.nativeOf, hst] at hlive
    obtain ⟨st₁, st₁', hst₁, hact, -⟩ := World.rt_cases ha
    obtain rfl : st = st₁ := by rw [hst, Option.some.injEq] at hst₁; exact hst₁
    obtain ⟨hn, -⟩ := RuntimeSt.act_cases hact
    refine ⟨hn, ?_, hi.counted hst hss hr' (by rw [hnat]; rfl)⟩
    have hlive : st.native = some m.runtime := hlive
    rw [hn, hlive]
    rfl

/-- **The references of a runtime.** -/
theorem runtime_references (hr : system.Reachable σ) (hst : σ.world.runtimes[r]? = some st) :
    (st.locked = false →
      st.refs = (if st.closed then 0 else 1) + unreleased σ.world r ∧
      (st.native.isSome ↔ 0 < st.refs) ∧ closes σ r = if st.refs = 0 then 1 else 0) ∧
    closes σ r + σ.threads.countP (fun t => Closer r t) = (if st.refs = 0 then 1 else 0) ∧
    (∀ (i : Nat) (t : Goroutine) (n : Option OcRuntime), σ.threads[i]? = some t →
      t.call.runtime = some r → inC t.trace = some (.ocClose n) →
      st.refs = 0 ∧ n = st.native ∧ n.isSome ∧
        (∀ ss ∈ σ.world.sessions, ss.sess.runtime = r → ss.native = none) ∧
        ∀ (j : Nat) (u : Goroutine), σ.threads[j]? = some u → WorksOn r u → InNative u → j = i) ∧
    (∀ σ', system.Path (fun _ _ => True) σ σ' → st.closed →
      ∃ st', σ'.world.runtimes[r]? = some st' ∧ st'.closed ∧ st'.refs ≤ st.refs) ∧
    ∀ (i : Nat) (t : Goroutine) (n : Option OcRuntime) (σ' : Global), σ.threads[i]? = some t →
      t.call.ctx.isSome → system.Step σ (.act i ⟨.rt r .getNative, n⟩) σ' →
      n = st.native ∧ n.isSome ∧ 0 < st.refs ∧ closes σ r = 0 := by
  have hi := Reachable.inv hr
  have hok := hi.runtimes r st hst
  have hshut := hok.shut
  rw [← closes_eq hr, ← closers_eq hr] at hshut
  refine ⟨?_, hshut, ?_, ?_, ?_⟩
  · intro hfree
    obtain ⟨hraised, howes, hzero⟩ := hi.settled hok hfree
    have hrefs := hok.refs
    have hnative := hok.native
    rw [hraised, howes, unreleased_eq] at hrefs
    rw [hzero] at hnative
    refine ⟨by simpa using hrefs, by simpa using hnative, ?_⟩
    -- no call is between the last reference and `oc_close` when nobody holds the mutex
    have hlast : holders Held.lastOf (σ.threads.map held) r ≤
        holders Held.zero (σ.threads.map held) r := by
      apply total_le
      intro g _
      unfold Held.lastOf
      split <;> simp
    rw [← closers_eq hr, hzero] at hlast
    omega
  · intro i t n ht hcall hin
    exact Reachable.closing hr hst ht hcall hin
  · intro σ' hpath hclosed
    exact Reachable.closed hr hst hclosed hpath
  · intro i t n σ' ht hrun hs
    obtain ⟨hn, hsome, hpos⟩ := Reachable.run_native hr hst ht hrun hs
    refine ⟨hn, hsome, hpos, ?_⟩
    rw [if_neg (by omega)] at hshut
    omega

end

namespace Sample

/-- The runtime after a load and a run. -/
def opened : RuntimeSt := (system.played (ran true)).world.runtimes.get ⟨0, by decide +kernel⟩

end Sample

open Sample in
theorem runtime_references_sample : opened.refs = 2 ∧
    opened.refs = (if opened.closed then 0 else 1) + unreleased (system.played (ran true)).world 0 := by
  have hst : (system.played (ran true)).world.runtimes[0]? = some opened := List.getElem?_eq_getElem _
  have h := runtime_references (System.played_reachable (ran true)) hst
  exact ⟨by decide +kernel, (h.1 (by decide +kernel)).1⟩

end Onnxcraft
