import Onnxcraft.Properties.Ownership
import Onnxcraft.Properties.Liveness

/-!
# The native session of a session

`Close` frees it once, when no run holds the read lock and every run has given everything back.
Native calls of runs and of their callbacks are made while it is not freed, and a run that takes the
read lock later finds the session closed.
-/

namespace Onnxcraft

open Effect

section
variable [Platform] {w : World} {gs : List Held} {σ σ' : Global} {t : Goroutine} {s : Nat}
  {st : SessionSt}

/-- The call is a `Close` of the session `s`. -/
def ClosesSession (s : Nat) (t : Goroutine) : Prop :=
  t.call.Closes ∧ t.call.session.map (·.id) = some s

instance : DecidablePred Call.Closes
  | .closeRuntime _ | .closeSession _ => .isTrue trivial
  | .openLibrary _ | .load _ _ _ | .loadBytes _ _ _ | .run _ _ _ | .runInto _ _ _ _
  | .callback _ _ _ => .isFalse id

instance (s : Nat) : DecidablePred (ClosesSession s) := fun _ => inferInstanceAs (Decidable (_ ∧ _))

/-- How often the `Close`s of the session `s` have entered `oc_session_free`. -/
def sessionFrees (σ : Global) (s : Nat) : Nat :=
  total (fun t : Goroutine => if ClosesSession s t then freeings t.trace else 0) σ.threads

/-- A call that is no `Close` frees no session. -/
theorem unfreed {tr : Trace} {c : Call} (h : protocol.Valid tr (Held.start c)) (hc : ¬c.Closes) :
    (protocol.after tr (Held.start c)).freed = false := by
  refine (h.history (I := fun _ g => Along c g ∧ g.freed = false) ⟨.start c, rfl⟩ ?_).2
  intro _ g e a hg hp _
  obtain ⟨halong, hfreed⟩ := hg
  refine ⟨halong.step hp, ?_⟩
  rw [protocol_upd, (e.changes g a).freed]
  unfold Held.freedAfter
  cases e with
  | enter f =>
    cases f with
    | ocSessionFree n =>
      have hexcl : g.excl = none :=
        (halong.wf.closes.resolve_left (halong.call ▸ hc)).2.1
      simp [Held.frees, hexcl, hfreed]
    | _ => exact hfreed
  | _ => exact hfreed

theorem sessionFrees_eq (hr : system.Reachable σ) (s : Nat) :
    sessionFrees σ s = holders Held.freedOf (σ.threads.map held) s := by
  rw [sessionFrees, holders, total, total, List.map_map]
  congr 1
  apply List.map_congr_left
  intro t ht
  have hcall := Reachable.call hr ht
  simp only [Function.comp_apply, Held.freedOf, hcall]
  by_cases hc : t.call.Closes
  · have hfreed : freeings t.trace = if (held t).freed then 1 else 0 :=
      freeings_eq (Reachable.valid hr ht) hc
    rw [hfreed]
    cases (held t).freed <;> simp [ClosesSession, hc]
  · have hfreed : (held t).freed = false := unfreed (Reachable.valid hr ht) hc
    simp [ClosesSession, hc, hfreed]

/-- While a call holds the read lock of the session, nobody is freeing it. -/
theorem Inv.not_freeing (hi : Inv w gs) (hst : w.sessions[s]? = some st) {g : Held} (hg : g ∈ gs)
    (hread : g.read = some s) : holders Held.freeing gs s = 0 := by
  have hok := hi.sessions s st hst
  obtain ⟨i, hgi⟩ := List.mem_iff_getElem?.1 hg
  have hreaders : 0 < st.readers := hok.readers ▸ holders_pos hgi hread
  apply holders_eq_zero
  intro x hx hfreeing
  obtain ⟨j, hxj⟩ := List.mem_iff_getElem?.1 hx
  have hpos := holders_pos hxj ((hi.wf x hx).freeing hfreeing).2
  rw [hok.held] at hpos
  split at hpos
  · next hheld =>
    have := hok.alone hheld
    omega
  · exact absurd hpos (by decide)

/-- A run that holds the read lock and has found the session open: it is open, and not freed. -/
theorem Reachable.reader (hr : system.Reachable σ) (ht : t ∈ σ.threads) {n : OcSession}
    (hseen : (held t).seen = some n) (hread : (held t).read.isSome) :
    ∃ (s : Session) (st : SessionSt), t.call.session = some s ∧
      σ.world.sessions[s.id]? = some st ∧ st.native = some n ∧ (held t).read = some s.id ∧
      sessionFrees σ s.id = 0 := by
  have hi := Reachable.inv hr
  have hmem := Reachable.held_mem ht
  have hwf := hi.wf _ hmem
  obtain ⟨s', hread⟩ := Option.isSome_iff_exists.1 hread
  have hid := hwf.read s' hread
  rw [Reachable.call hr ht] at hid
  obtain ⟨s, hs, rfl⟩ := Option.map_eq_some_iff.1 hid
  obtain ⟨st, hst, -⟩ := (hi.knows _ hmem).session s (by rw [Reachable.call hr ht, hs])
  have hnat := hi.seen hmem (by rw [Reachable.call hr ht, hs]; rfl) hst hseen
  refine ⟨s, st, hs, hst, hnat, hread, ?_⟩
  have hfreed := (hi.sessions _ st hst).freed
  rw [hi.not_freeing hst hmem hread, hnat] at hfreed
  rw [sessionFrees_eq hr, hfreed]
  rfl

/-- A run that does not hold its read lock has nothing to give back, and is not in native code. -/
theorem Reachable.unread (hr : system.Reachable σ) (ht : t ∈ σ.threads) (hrun : t.call.ctx.isSome)
    (hread : (held t).read = none) : (held t).live = 0 ∧ (held t).inC = none := by
  obtain ⟨ctx, hctx⟩ := Option.isSome_iff_exists.1 hrun
  obtain ⟨s, inputs, outputs, into, q, hs, h, -, hret⟩ := Call.run_inv hctx (hr.runs t ht)
  rcases s.run_cases ctx inputs outputs into h with (htr | ⟨e, htr⟩) |
    ⟨tr', q', htr, ⟨-, hbody⟩ | ⟨tr', res, rfl, hres, -, -⟩⟩
  · unfold held Thread.ghost
    rw [htr]
    exact ⟨rfl, rfl⟩
  · unfold held Thread.ghost
    rw [htr]
    exact ⟨rfl, rfl⟩
  · -- the lock has been taken and not given back
    have hlocks : rLocks s.id t.trace =
        rUnlocks s.id t.trace + if (held t).read = some s.id then 1 else 0 :=
      rLocks_eq (Reachable.valid hr ht) s.id
    have hnone : rUnlocks s.id t.trace = 0 := by
      apply List.countP_eq_zero.2
      intro ev hev
      simp only [decide_eq_true_eq]
      intro he
      rw [htr] at hev
      rcases List.mem_cons.1 hev with rfl | hev
      · cases he
      rcases List.mem_cons.1 hev with rfl | hev
      · cases he
      have hno := hbody ev hev
      rw [he] at hno
      exact hno
    have hone : 0 < rLocks s.id t.trace :=
      List.countP_pos_iff.2 ⟨⟨.sess s.id .rLock, ()⟩, by simp [htr], by simp⟩
    rw [hnone, hread, if_neg (by simp)] at hlocks
    omega
  · have hidle := (Reachable.ends hr ht (hret res hres)).idle
    exact ⟨hidle.live, hidle.inC⟩

/-! ## The step that frees the session -/

/-- Every run of the session has given everything back when `Close` frees it. -/
theorem Reachable.free_step (hr : system.Reachable σ) (hst : σ.world.sessions[s]? = some st) {i : Nat}
    (ht : σ.threads[i]? = some t) (hclose : ClosesSession s t) {n : Option OcSession}
    (hs : system.Step σ (.act i ⟨.enter (.ocSessionFree n), ()⟩) σ') :
    n = st.native ∧ n.isSome ∧ st.readers = 0 ∧ sessionFrees σ s = 0 ∧
      ∀ u ∈ σ.threads, u.call.ctx.isSome → u.call.session.map (·.id) = some s →
        rLocks s u.trace = rUnlocks s u.trace ∧ acquired u.trace = released u.trace ∧
        tokensSent s u.trace = tokensReceived s u.trace ∧ inC u.trace = none := by
  have hi := Reachable.inv hr
  have hmem := List.mem_of_getElem? ht
  have hwf := hi.wf _ (Reachable.held_mem hmem)
  have hok := hi.sessions s st hst
  cases hs with
  | @act _ u _ k _ w' hu hk ha =>
    obtain rfl : t = u := by rw [ht, Option.some.injEq] at hu; exact hu
    have hpre := Reachable.wp hr hmem
    rw [hk] at hpre
    obtain ⟨m, rfl, -, hcloses, hexcl⟩ := hpre.1.2
    have hcall := Reachable.call hr hmem
    have hsome := hcloses (hcall ▸ hclose.1)
    obtain ⟨hseen, hfreed⟩ := hexcl hsome
    obtain ⟨s', hexcl⟩ := Option.isSome_iff_exists.1 hsome
    have hid := hwf.excl s' hexcl
    obtain rfl : s' = s := by
      rw [hcall, hclose.2, Option.some.injEq] at hid
      exact hid.symm
    have hpos := holders_pos (Reachable.held_get ht) hexcl
    rw [hok.held] at hpos
    split at hpos
    case isFalse => exact absurd hpos (by decide)
    next hheld =>
    have hzero := hok.alone hheld
    have hnative : st.native = some m := hi.seen (Reachable.held_mem hmem) hid hst hseen
    refine ⟨hnative.symm, rfl, hzero, ?_, ?_⟩
    · -- another `Close` that had freed it would have left no native session
      rw [sessionFrees_eq hr]
      have hcount := hok.freed
      rw [hnative, if_neg (by simp), Nat.zero_add] at hcount
      rw [hcount]
      exact hi.none_freeing (Reachable.held_get ht) hexcl hfreed
    · intro u hu hrun hus
      have hread : (held u).read ≠ some s' := by
        intro hread
        obtain ⟨j, huj⟩ := List.mem_iff_getElem?.1 (Reachable.held_mem hu)
        have := holders_pos huj hread
        rw [hok.readers] at this
        omega
      have hgate : (held u).gate ≠ some s' := by
        intro hgate
        exact hread ((hi.wf _ (Reachable.held_mem hu)).gate _ hgate)
      have hv := Reachable.valid hr hu
      have hlocks := rLocks_eq hv s'
      have htokens := tokens_eq hv s'
      rw [show protocol.after u.trace (Held.start u.call) = held u from rfl, if_neg hread] at hlocks
      rw [show protocol.after u.trace (Held.start u.call) = held u from rfl, if_neg hgate] at htokens
      have hunread : (held u).read = none := by
        cases hsome : (held u).read with
        | none => rfl
        | some s₁ =>
          have hid₁ := (hi.wf _ (Reachable.held_mem hu)).read s₁ hsome
          rw [Reachable.call hr hu, hus, Option.some.injEq] at hid₁
          exact absurd (hid₁ ▸ hsome) hread
      obtain ⟨hlive, hinC⟩ := Reachable.unread hr hu hrun hunread
      refine ⟨hlocks, ?_, htokens, ?_⟩
      · rw [run_acquired hr hu hrun (List.append_nil _).symm,
          show protocol.after u.trace (Held.start u.call) = held u from rfl, hlive, add_zero]
      · rw [← inC_eq hv]
        exact hinC

/-! ## After the session is closed -/

/-- A run that finds its session closed gives the lock back and says so. -/
theorem Session.run_closed {s : Session} {ctx : Ctx} {inputs outputs : List Tensor} {into : Bool}
    {tr : Trace} {q : Act (Except GoError (List Tensor))}
    (h : Runs (s.run ctx inputs outputs into)
      (⟨.ctxErr ctx, none⟩ :: ⟨.sess s.id .rLock, ()⟩ :: tr) q)
    (hnone : ∀ n, ⟨.sess s.id .getNative, n⟩ ∈ tr → n = none) :
    tr <+: [⟨.sess s.id .getNative, none⟩, ⟨.sess s.id .rUnlock, ()⟩] ∧
      ∀ res, q = .ret res → res = .error .closed := by
  obtain ⟨_, hev, h₁⟩ := Runs.op_inv h
  cases hev
  obtain ⟨_, -, h₂⟩ := Runs.op_inv h₁
  cases tr with
  | nil =>
    refine ⟨List.nil_prefix, ?_⟩
    intro res hres
    rw [hres] at h₂
    cases h₂
  | cons ev tr =>
    obtain ⟨n, rfl, h₃⟩ := Runs.op_inv h₂
    obtain rfl := hnone n List.mem_cons_self
    cases tr with
    | nil =>
      refine ⟨by simp, ?_⟩
      intro res hres
      rw [hres] at h₃
      cases h₃
    | cons ev tr =>
      obtain ⟨_, rfl, h₄⟩ := Runs.op_inv h₃
      obtain ⟨rfl, rfl⟩ := Runs.ret_inv h₄
      refine ⟨by simp, ?_⟩
      intro res hres
      exact (Prog.ret.inj hres).symm

/-- What the session is, and what goroutine `i` has read of it, since it was closed. -/
theorem Reachable.stays_closed {i : Nat} (ht : σ.threads[i]? = some t)
    (hst : σ.world.sessions[s]? = some st) (hnone : st.native = none)
    (hpath : system.Path (fun _ _ => True) σ σ') :
    ∃ st' t' tr, σ'.world.sessions[s]? = some st' ∧ st'.native = none ∧
      σ'.threads[i]? = some t' ∧ t'.call = t.call ∧ t'.trace = t.trace ++ tr ∧
      ∀ n, ⟨.sess s .getNative, n⟩ ∈ tr → n = none := by
  induction hpath with
  | nil => exact ⟨st, t, [], hst, hnone, ht, rfl, by simp, by simp⟩
  | @snoc σ₁ σ₂ l hpath _ hs ih =>
    obtain ⟨st₁, t₁, tr, hst₁, hnone₁, ht₁, hcall, htr, hread⟩ := ih
    cases hs with
    | @act j u e k a w' hu hk ha =>
      obtain ⟨st₂, hst₂, hafter⟩ := World.act_session ha hst₁
      have hnone₂ : st₂.native = none := by
        rcases hafter.fixed.2 with h | h
        · rw [h, hnone₁]
        · exact h
      by_cases hij : j = i
      · subst hij
        obtain rfl : t₁ = u := by rw [ht₁, Option.some.injEq] at hu; exact hu
        refine ⟨st₂, t₁.next k a, tr ++ [⟨e, a⟩], hst₂, hnone₂,
          List.getElem?_set_self (List.getElem?_eq_some_iff.1 ht₁).1, hcall, ?_, ?_⟩
        · rw [Thread.next_trace, htr, List.append_assoc]
        · intro n hn
          rcases List.mem_append.1 hn with hn | hn
          · exact hread n hn
          · -- this event reads the session as it is
            obtain ⟨rfl, hna⟩ := Sigma.mk.inj (List.mem_singleton.1 hn)
            obtain rfl := eq_of_heq hna
            rw [World.SessionAfter, if_pos rfl] at hafter
            rw [(SessionSt.act_cases hafter).1, hnone₁]
      · exact ⟨st₂, t₁, tr, hst₂, hnone₂, (List.getElem?_set_ne hij).trans ht₁, hcall, htr, hread⟩
    | start hstart =>
      obtain ⟨cbs, rfl⟩ := World.start_rest hstart
      exact ⟨st₁, t₁, tr, hst₁, hnone₁,
        (List.getElem?_append_left (List.getElem?_eq_some_iff.1 ht₁).1).trans ht₁, hcall, htr, hread⟩
    | move hmove =>
      obtain ⟨ctxs, pool, rfl⟩ := World.move_rest hmove
      exact ⟨st₁, t₁, tr, hst₁, hnone₁, ht₁, hcall, htr, hread⟩

/-- A run that takes the read lock once the session has been freed. -/
theorem Reachable.late_run (hr : system.Reachable σ) (hst : σ.world.sessions[s]? = some st)
    (hfreed : sessionFrees σ s = 1) {i : Nat} (ht : σ.threads[i]? = some t) {ctx : Ctx}
    (hctx : t.call.ctx = some ctx) {σ₁ : Global}
    (hs : system.Step σ (.act i ⟨.sess s .rLock, ()⟩) σ₁)
    (hpath : system.Path (fun _ _ => True) σ₁ σ') :
    ∃ t', σ'.threads[i]? = some t' ∧
      t'.trace <+: [⟨.ctxErr ctx, none⟩, ⟨.sess s .rLock, ()⟩, ⟨.sess s .getNative, none⟩,
        ⟨.sess s .rUnlock, ()⟩] ∧
      ∀ ret, t'.rest = .ret ret → ret = .tensors (.error .closed) ∨ ret = .none (.error .closed) := by
  have hi := Reachable.inv hr
  have hmem := List.mem_of_getElem? ht
  have hr₁ := hr.step hs
  cases hs with
  | @act _ u _ k _ w' hu hk ha =>
    obtain rfl : t = u := by rw [ht, Option.some.injEq] at hu; exact hu
    have hat : AtLock t s := ⟨k, hk⟩
    have htr := hat.trace hr hmem hctx
    -- no writer is inside, so the session is no longer being freed
    obtain ⟨st₁, st₁', hst₁, hact, rfl⟩ := World.sess_cases ha
    obtain rfl : st = st₁ := by rw [hst, Option.some.injEq] at hst₁; exact hst₁
    obtain ⟨hidle, rfl⟩ := SessionSt.act_cases hact
    have hok := hi.sessions s st hst
    have hfreeing : holders Held.freeing (σ.threads.map held) s = 0 := by
      apply holders_eq_zero
      intro x hx hfreeing
      obtain ⟨j, hxj⟩ := List.mem_iff_getElem?.1 hx
      have hpos := holders_pos hxj ((hi.wf x hx).freeing hfreeing).2
      rw [hok.held, hidle, if_neg (by simp)] at hpos
      exact absurd hpos (by decide)
    have hnone : st.native = none := by
      have hcount := hok.freed
      rw [← sessionFrees_eq hr, hfreed, hfreeing] at hcount
      split at hcount
      · assumption
      · omega
    have hlt := (List.getElem?_eq_some_iff.1 hst).1
    have hnone' : ({ st with readers := st.readers + 1 } : SessionSt).native = none := hnone
    obtain ⟨st', t', tr, hst', -, ht', hcall, htr', hread⟩ := Reachable.stays_closed (i := i) (s := s)
      (t := t.next k ()) (List.getElem?_set_self (List.getElem?_eq_some_iff.1 ht).1)
      (List.getElem?_set_self hlt) hnone' hpath
    refine ⟨t', ht', ?_⟩
    have hruns := (hpath.reachable hr₁).runs t' (List.mem_of_getElem? ht')
    have hctx' : t'.call.ctx = some ctx := by rw [hcall]; exact hctx
    obtain ⟨s₀, inputs, outputs, into, q, hs₀, h, hret, -⟩ := Call.run_inv hctx' hruns
    have hs₀' : s₀.id = s := by
      have hpre := Reachable.wp hr hmem
      rw [hk] at hpre
      have hid := hpre.1.2.1
      rw [Reachable.call hr hmem, show t.call = t'.call from hcall.symm, hs₀] at hid
      exact Option.some.inj hid
    subst hs₀'
    rw [htr', Thread.next_trace, htr] at h
    obtain ⟨hpre, hres⟩ := Session.run_closed h hread
    refine ⟨?_, ?_⟩
    · rw [htr', Thread.next_trace, htr]
      exact (List.prefix_append_right_inj [_, _]).2 hpre
    · intro ret hrest
      obtain ⟨res, hq, rfl⟩ := hret ret hrest
      rw [hres res hq]
      cases into
      · exact .inl rfl
      · exact .inr rfl

/-- **The native session of a session.** -/
theorem session_lifetime (hr : system.Reachable σ) (hst : σ.world.sessions[s]? = some st) :
    sessionFrees σ s ≤ 1 ∧
    (∀ t ∈ σ.threads, ClosesSession s t → ∀ ret, t.rest = .ret ret → sessionFrees σ s = 1) ∧
    (∀ (i : Nat) (t : Goroutine) (n : Option OcSession) (σ' : Global), σ.threads[i]? = some t →
      ClosesSession s t → system.Step σ (.act i ⟨.enter (.ocSessionFree n), ()⟩) σ' →
      n = st.native ∧ n.isSome ∧ st.readers = 0 ∧ sessionFrees σ s = 0 ∧
        ∀ u ∈ σ.threads, u.call.ctx.isSome → u.call.session.map (·.id) = some s →
          rLocks s u.trace = rUnlocks s u.trace ∧ acquired u.trace = released u.trace ∧
          tokensSent s u.trace = tokensReceived s u.trace ∧ inC u.trace = none) ∧
    (∀ t ∈ σ.threads, t.call.session.map (·.id) = some s → ∀ n,
      (inC t.trace = some (.ocRun n) ∨ inC t.trace = some (.ocRunInto n) ∨
        inC t.trace = some (.ocOutputsFree n)) → st.native = some n ∧ sessionFrees σ s = 0) ∧
    (∀ t ∈ σ.threads, ∀ x o, inC t.trace = some (.ocTerminate x o) →
      ∃ u ∈ σ.threads, ∃ (s₁ : Session) (st₁ : SessionSt) (n : OcSession), u.call.session = some s₁ ∧
        rLocks s₁.id u.trace = rUnlocks s₁.id u.trace + 1 ∧
        σ.world.sessions[s₁.id]? = some st₁ ∧ st₁.native = some n ∧ n.runtime = x ∧
        sessionFrees σ s₁.id = 0) ∧
    ∀ (i : Nat) (t : Goroutine) (ctx : Ctx) (σ₁ σ' : Global), sessionFrees σ s = 1 →
      σ.threads[i]? = some t → t.call.ctx = some ctx →
      system.Step σ (.act i ⟨.sess s .rLock, ()⟩) σ₁ → system.Path (fun _ _ => True) σ₁ σ' →
      ∃ t', σ'.threads[i]? = some t' ∧
        t'.trace <+: [⟨.ctxErr ctx, none⟩, ⟨.sess s .rLock, ()⟩, ⟨.sess s .getNative, none⟩,
          ⟨.sess s .rUnlock, ()⟩] ∧
        ∀ ret, t'.rest = .ret ret →
          ret = .tensors (.error .closed) ∨ ret = .none (.error .closed) := by
  have hi := Reachable.inv hr
  have hok := hi.sessions s st hst
  have hle : sessionFrees σ s ≤ 1 := by
    rw [sessionFrees_eq hr]
    exact hok.once
  refine ⟨hle, ?_, ?_, ?_, ?_, ?_⟩
  · intro t ht hclose ret hret
    obtain ⟨s₀, hs₀, hid⟩ := Option.map_eq_some_iff.1 hclose.2
    have hcall : t.call = .closeSession s₀ := by
      obtain ⟨hcl, -⟩ := hclose
      cases hc : t.call <;> rw [hc] at hs₀ hcl <;> simp_all [Call.session, Call.Closes]
    have hgone := (Reachable.ends hr ht hret).gone s₀ hcall
    obtain ⟨st₀, hst₀, hnone⟩ := (hi.knows _ (Reachable.held_mem ht)).gone hgone s₀
      (by rw [Reachable.call hr ht, hs₀])
    rw [hid] at hst₀
    obtain rfl : st = st₀ := by rw [hst, Option.some.injEq] at hst₀; exact hst₀
    have hcount := hok.freed
    rw [if_pos hnone, ← sessionFrees_eq hr] at hcount
    omega
  · intro i t n σ' ht hclose hs
    exact Reachable.free_step hr hst ht hclose hs
  · intro t ht hid n hin
    have hinC : (held t).inC = inC t.trace := inC_eq (Reachable.valid hr ht)
    have hwf := hi.wf _ (Reachable.held_mem ht)
    have hreads : (held t).seen = some n ∧ (held t).read.isSome := by
      rcases hin with hin | hin | hin <;> rw [← hinC] at hin
      · exact ⟨(hwf.inside _ hin).1, (hwf.inside _ hin).2.1⟩
      · exact ⟨(hwf.inside _ hin).1, (hwf.inside _ hin).2.1⟩
      · exact ⟨(hwf.inside _ hin).1, (hwf.inside _ hin).2.1⟩
    obtain ⟨s₀, st₀, hs₀, hst₀, hnat, -, hfrees⟩ := Reachable.reader hr ht hreads.1 hreads.2
    obtain rfl : s₀.id = s := by
      rw [hs₀] at hid
      exact Option.some.inj hid
    obtain rfl : st = st₀ := by rw [hst, Option.some.injEq] at hst₀; exact hst₀
    exact ⟨hnat, hfrees⟩
  · intro t ht x o hin
    have hinC : (held t).inC = inC t.trace := inC_eq (Reachable.valid hr ht)
    rw [← hinC] at hin
    obtain ⟨id, hcall, hfire⟩ := (hi.wf _ (Reachable.held_mem ht)).inside _ hin
    obtain ⟨i, hgi⟩ := List.mem_iff_getElem?.1 (Reachable.held_mem ht)
    obtain ⟨cb, j, g, -, -, hcall', -, hgj, hwatch, -, hseen, -⟩ := hi.callback_owner hgi hfire
    rw [List.getElem?_map] at hgj
    obtain ⟨u, hu, rfl⟩ := Option.map_eq_some_iff.1 hgj
    have hmem := List.mem_of_getElem? hu
    obtain ⟨n, hn, hr₀⟩ := Option.map_eq_some_iff.1 hseen
    have hread := (hi.wf _ (Reachable.held_mem hmem)).watch (by rw [hwatch]; rfl)
    obtain ⟨s₁, st₁, hs₁, hst₁, hnat, hread, hfrees⟩ := Reachable.reader hr hmem hn hread
    refine ⟨u, hmem, s₁, st₁, n, hs₁, ?_, hst₁, hnat, ?_, hfrees⟩
    · have := rLocks_eq (Reachable.valid hr hmem) s₁.id
      rw [show protocol.after u.trace (Held.start u.call) = held u from rfl, hread, if_pos rfl] at this
      exact this
    · rw [hcall] at hcall'
      rw [hr₀]
      exact (Call.callback.inj hcall').1.symm
  · intro i t ctx σ₁ σ' hfreed ht hctx hs hpath
    exact Reachable.late_run hr hst hfreed ht hctx hs hpath

end

namespace Sample

/-- Goroutine 3 closes the session after the run. -/
def ended : List Cue := ran true ++ [.start (.closeSession (session true)), go 3 17]

def closer : Goroutine := (system.played ended).threads.get ⟨3, by decide +kernel⟩

def closerDone : Returned closer (.closeSession (session true)) := .of (by decide +kernel)

/-- The session after that. -/
def closed : SessionSt := (system.played ended).world.sessions.get ⟨0, by decide +kernel⟩

end Sample

open Sample in
theorem session_lifetime_sample : closed.native = none ∧ sessionFrees (system.played ended) 0 = 1 := by
  have hst : (system.played ended).world.sessions[0]? = some closed := List.getElem?_eq_getElem _
  obtain ⟨hcall, ret, hret⟩ := closerDone
  have hcloses : ClosesSession 0 closer := by
    rw [ClosesSession, hcall]
    exact ⟨trivial, rfl⟩
  have h := session_lifetime (System.played_reachable ended) hst
  exact ⟨by decide +kernel, h.2.1 closer (List.get_mem _ _) hcloses ret hret⟩

end Onnxcraft
