import Onnxcraft.Effect.History
import Onnxcraft.Protocol.Sound

/-!
# What a call has done

The ghost state of a call, read off its events: a lock is held iff it has been taken once more than
it has been given back, what must be released is what has been acquired and not released, and so
on. With `sound`, this is what every reachable state says about its calls in terms of their events
alone.
-/

namespace Onnxcraft

open Effect

/-- A call of the binding in progress. -/
abbrev Goroutine := Thread Call Op Op.Resp Ret

/-- A state of the binding. -/
abbrev Global := State World Call Op Op.Resp Ret

section
variable [Platform] {g : Held}

/-! ## What an operation changes -/

omit [Platform] in
theorem SessOp.upd_shape (g : Held) (s : Nat) (o : SessOp) (a : o.Resp) :
    ∃ read pend excl gate selected seen gone cleared canceled, o.upd g s a =
      { g with read, pend, excl, gate, selected, seen, gone, cleared, canceled } := by
  cases o with
  | gateSelect c => cases a <;> exact ⟨_, _, _, _, _, _, _, _, _, rfl⟩
  | _ => exact ⟨_, _, _, _, _, _, _, _, _, rfl⟩

omit [Platform] in
theorem RtOp.upd_shape (g : Held) (r : Nat) (o : RtOp) (a : o.Resp) :
    ∃ closed rt raised owes cleared zero, o.upd g r a =
      { g with
        mu := match o with | .lock => some r | .unlock => none | _ => g.mu
        closed, rt, raised, owes, cleared, zero } := by
  cases o with
  | getNative =>
    simp only [RtOp.upd]
    split <;> exact ⟨_, _, _, _, _, _, rfl⟩
  | decRefs owner =>
    simp only [RtOp.upd]
    cases owner <;> split <;> exact ⟨_, _, _, _, _, _, rfl⟩
  | _ => exact ⟨_, _, _, _, _, _, rfl⟩

omit [Platform] in
theorem CbOp.upd_shape (g : Held) (o : CbOp) (a : o.Resp) :
    ∃ watch joining fire, o.upd g a = { g with watch, joining, fire } := by
  cases o with
  | stop id =>
    simp only [CbOp.upd]
    split <;> exact ⟨_, _, _, rfl⟩
  | _ => exact ⟨_, _, _, rfl⟩

namespace Held

/-! The fields that a trace determines, after an operation. -/

def readAfter (g : Held) : Op → Option Nat
  | .sess s .rLock => some s
  | .sess _ .rUnlock => none
  | _ => g.read

def gateAfter (g : Held) : (e : Op) → e.Resp → Option Nat
  | .sess s (.gateSelect _), sent => if sent then some s else g.gate
  | .sess _ .gateRecv, _ => none
  | _, _ => g.gate

def selectedAfter (g : Held) : Op → Bool
  | .sess _ (.gateSelect _) => true
  | _ => g.selected

def muAfter (g : Held) : Op → Option Nat
  | .rt r .lock => some r
  | .rt _ .unlock => none
  | _ => g.mu

def inCAfter (g : Held) : Op → Option CFunc
  | .enter f => some f
  | .leave _ => none
  | _ => g.inC

def phaseAfter (g : Held) : Op → Phase
  | .enter f => g.enterPhase f
  | .leave f => g.leavePhase f
  | _ => g.phase

def shutAfter (g : Held) : Op → Bool
  | .enter f => g.shuts f
  | _ => g.shut

def freedAfter (g : Held) : Op → Bool
  | .enter f => g.frees f
  | _ => g.freed

def liveAfter (g : Held) : (e : Op) → e.Resp → Multiset Resource
  | .newRuntime n, _ => g.live - n.resources
  | .newSession _ _ n _ _, _ => g.live - n.resources
  | .enter f, _ => g.takes f + g.live
  | .nat o, a => o.acquires a + (g.live - o.releases)
  | _, _ => g.live

end Held

/-- What an operation changes of these fields. -/
structure Op.Changes (g : Held) (e : Op) (a : e.Resp) (g' : Held) : Prop where
  call : g'.call = g.call
  read : g'.read = g.readAfter e
  gate : g'.gate = g.gateAfter e a
  selected : g'.selected = g.selectedAfter e
  mu : g'.mu = g.muAfter e
  inC : g'.inC = g.inCAfter e
  phase : g'.phase = g.phaseAfter e
  shut : g'.shut = g.shutAfter e
  freed : g'.freed = g.freedAfter e
  live : g'.live = g.liveAfter e a

omit [Platform] in
theorem Op.changes (g : Held) (e : Op) (a : e.Resp) : e.Changes g a (e.upd g a) := by
  cases e with
  | sess s o =>
    cases o with
    | gateSelect c => cases a <;> exact ⟨rfl, rfl, rfl, rfl, rfl, rfl, rfl, rfl, rfl, rfl⟩
    | _ => exact ⟨rfl, rfl, rfl, rfl, rfl, rfl, rfl, rfl, rfl, rfl⟩
  | rt r o =>
    obtain ⟨_, _, _, _, _, _, h⟩ := o.upd_shape g r a
    have h : (Op.rt r o).upd g a = _ := h
    rw [h]
    cases o <;> exact ⟨rfl, rfl, rfl, rfl, rfl, rfl, rfl, rfl, rfl, rfl⟩
  | cb o =>
    obtain ⟨_, _, _, h⟩ := o.upd_shape g a
    have h : (Op.cb o).upd g a = _ := h
    rw [h]
    exact ⟨rfl, rfl, rfl, rfl, rfl, rfl, rfl, rfl, rfl, rfl⟩
  | nat o =>
    obtain ⟨_, _, h⟩ := Held.nat_upd g o a
    have h : (Op.nat o).upd g a = _ := h
    rw [h]
    exact ⟨rfl, rfl, rfl, rfl, rfl, rfl, rfl, rfl, rfl, rfl⟩
  | pool o => cases o <;> exact ⟨rfl, rfl, rfl, rfl, rfl, rfl, rfl, rfl, rfl, rfl⟩
  | fault => exact a.elim
  | _ => exact ⟨rfl, rfl, rfl, rfl, rfl, rfl, rfl, rfl, rfl, rfl⟩

/-! ## Reachable states -/

/-- The ghost state of a call. -/
def held (t : Goroutine) : Held := t.ghost protocol Held.start

section
variable {σ : Global} {t : Goroutine}

theorem Reachable.inv (hr : system.Reachable σ) : Inv σ.world (σ.threads.map held) :=
  (sound.reachable hr).1

theorem Reachable.valid (hr : system.Reachable σ) (ht : t ∈ σ.threads) :
    protocol.Valid t.trace (Held.start t.call) :=
  sound.valid hr t ht

theorem Reachable.wp (hr : system.Reachable σ) (ht : t ∈ σ.threads) :
    wp protocol t.rest (Ends t.call) (held t) :=
  (sound.reachable hr).2 t ht

/-- A call stays what it is. -/
theorem Reachable.call (hr : system.Reachable σ) (ht : t ∈ σ.threads) : (held t).call = t.call :=
  (Reachable.valid hr ht).history (I := fun _ g => g.call = t.call) rfl
    fun _ _ e a h _ _ => (e.changes _ a).call.trans h

/-- A call that has returned has given everything back. -/
theorem Reachable.ends (hr : system.Reachable σ) (ht : t ∈ σ.threads) {res : Ret}
    (hret : t.rest = .ret res) : Ends t.call res (held t) := by
  have := Reachable.wp hr ht
  rwa [hret] at this

theorem Reachable.held_mem (ht : t ∈ σ.threads) : held t ∈ σ.threads.map held :=
  List.mem_map_of_mem ht

theorem Reachable.held_get {i : Nat} (ht : σ.threads[i]? = some t) :
    (σ.threads.map held)[i]? = some (held t) := by
  simp [ht]

end

/-! ## Counts -/

section
variable {tr : Trace} {c : Call}

/-- What holds along every history of the call `c`. -/
structure Along (c : Call) (g : Held) : Prop where
  wf : g.Wf
  call : g.call = c

omit [Platform] in
theorem Along.start (c : Call) : Along c (Held.start c) := ⟨.start c, rfl⟩

theorem Along.step {e : Op} {a : e.Resp} (h : Along c g) (hp : e.Pre g) : Along c (e.upd g a) :=
  ⟨h.wf.step hp, (e.changes g a).call.trans h.call⟩

/-- The read locks of `s` that a trace takes, and gives back. -/
def rLocks (s : Nat) (tr : Trace) : Nat := tr.countP fun ev => ev.1 = .sess s .rLock

def rUnlocks (s : Nat) (tr : Trace) : Nat := tr.countP fun ev => ev.1 = .sess s .rUnlock

/-- The mutex of `r`. -/
def muLocks (r : Nat) (tr : Trace) : Nat := tr.countP fun ev => ev.1 = .rt r .lock

def muUnlocks (r : Nat) (tr : Trace) : Nat := tr.countP fun ev => ev.1 = .rt r .unlock

/-- The event sends a token into the gate of `s`. -/
def sendsToken (s : Nat) : Event Op Op.Resp → Bool
  | ⟨.sess s' (.gateSelect _), sent⟩ => s' = s && sent
  | _ => false

/-- The tokens of `s` that a trace sends into the gate, and receives from it. -/
def tokensSent (s : Nat) (tr : Trace) : Nat := tr.countP (sendsToken s)

def tokensReceived (s : Nat) (tr : Trace) : Nat := tr.countP fun ev => ev.1 = .sess s .gateRecv

/-- The calls of `oc_close` and of `oc_session_free` in a trace. -/
def closings (tr : Trace) : Nat :=
  tr.countP fun ev => match ev.1 with | .enter (.ocClose _) => true | _ => false

def freeings (tr : Trace) : Nat :=
  tr.countP fun ev => match ev.1 with | .enter (.ocSessionFree _) => true | _ => false

/-- The C function that a trace has entered and not left. -/
def inC (tr : Trace) : Option CFunc :=
  tr.foldl (fun f ev => match ev.1 with | .enter f => some f | .leave _ => none | _ => f) none

theorem rLocks_eq (h : protocol.Valid tr (Held.start c)) (s : Nat) :
    rLocks s tr =
      rUnlocks s tr + if (protocol.after tr (Held.start c)).read = some s then 1 else 0 := by
  have := h.count (f := fun g => if g.read = some s then 1 else 0) (I := Along c)
    (p := fun ev => ev.1 = .sess s .rLock) (q := fun ev => ev.1 = .sess s .rUnlock) (.start c) ?_
  · exact this
  intro g e a hg hp _
  refine ⟨hg.step hp, ?_⟩
  rw [protocol_upd, (e.changes g a).read]
  unfold Held.readAfter
  cases e with
  | sess s' o =>
    obtain ⟨-, -, hp⟩ := hp
    cases o with
    | rLock =>
      have hp : g.read = none := hp.1
      by_cases hs : s' = s <;> simp [hp, hs]
    | rUnlock =>
      have hp : g.read = some s' := hp.1
      by_cases hs : s' = s <;> simp [hp, hs]
    | _ => simp
  | _ => simp

theorem muLocks_eq (h : protocol.Valid tr (Held.start c)) (r : Nat) :
    muLocks r tr =
      muUnlocks r tr + if (protocol.after tr (Held.start c)).mu = some r then 1 else 0 := by
  have := h.count (f := fun g => if g.mu = some r then 1 else 0) (I := Along c)
    (p := fun ev => ev.1 = .rt r .lock) (q := fun ev => ev.1 = .rt r .unlock) (.start c) ?_
  · exact this
  intro g e a hg hp _
  refine ⟨hg.step hp, ?_⟩
  rw [protocol_upd, (e.changes g a).mu]
  unfold Held.muAfter
  cases e with
  | rt r' o =>
    obtain ⟨-, hp⟩ := hp
    cases o with
    | lock =>
      have hp : g.mu = none := hp.1
      by_cases hr : r' = r <;> simp [hp, hr]
    | unlock =>
      have hp : g.mu = some r' := hp.1
      by_cases hr : r' = r <;> simp [hp, hr]
    | _ => simp
  | _ => simp

theorem tokens_eq (h : protocol.Valid tr (Held.start c)) (s : Nat) :
    tokensSent s tr =
      tokensReceived s tr + if (protocol.after tr (Held.start c)).gate = some s then 1 else 0 := by
  have := h.count (f := fun g => if g.gate = some s then 1 else 0) (I := Along c)
    (p := sendsToken s) (q := fun ev => ev.1 = .sess s .gateRecv) (.start c) ?_
  · exact this
  intro g e a hg hp _
  refine ⟨hg.step hp, ?_⟩
  rw [protocol_upd, (e.changes g a).gate]
  unfold Held.gateAfter
  cases e with
  | sess s' o =>
    obtain ⟨-, -, hp⟩ := hp
    cases o with
    | gateSelect ctx =>
      have hp : g.gate = none := hp.2.2.2
      cases a <;> by_cases hs : s' = s <;> simp [sendsToken, hp, hs]
    | gateRecv =>
      have hp : g.gate = some s' := hp.1
      by_cases hs : s' = s <;> simp [sendsToken, hp, hs]
    | _ => simp [sendsToken]
  | _ => simp [sendsToken]

/-- The select of the gate. -/
def Op.selects : Op → Bool
  | .sess _ (.gateSelect _) => true
  | _ => false

/-- A call takes at most one token. -/
theorem tokens_le (h : protocol.Valid tr (Held.start c)) (s : Nat) : tokensSent s tr ≤ 1 := by
  have hsel := h.count (f := fun g => if g.selected then 1 else 0) (I := Along c)
    (p := fun ev => ev.1.selects)
    (q := fun _ => false) (.start c) fun g e a hg hp _ => by
      refine ⟨hg.step hp, ?_⟩
      rw [protocol_upd, (e.changes g a).selected]
      unfold Held.selectedAfter
      cases e with
      | sess s' o =>
        obtain ⟨-, -, hp⟩ := hp
        cases o with
        | gateSelect ctx =>
          have hp : g.selected = false := hp.2.2.1
          simp [Op.selects, hp]
        | _ => simp [Op.selects]
      | _ => simp [Op.selects]
  have hle : tokensSent s tr ≤ tr.countP fun ev => ev.1.selects := by
    refine List.countP_mono_left fun ev _ hev => ?_
    obtain ⟨e, a⟩ := ev
    unfold sendsToken at hev
    split at hev <;> simp_all [Op.selects]
  have h0 : (Held.start c).selected = false := rfl
  rw [h0, List.countP_false] at hsel
  simp only [Bool.false_eq_true, if_false, add_zero, Function.const_apply, zero_add] at hsel
  split at hsel <;> omega

theorem closings_eq (h : protocol.Valid tr (Held.start c)) :
    closings tr = if (protocol.after tr (Held.start c)).shut then 1 else 0 := by
  have := h.count (f := fun g => if g.shut then 1 else 0) (I := Along c)
    (p := fun ev => match ev.1 with | .enter (.ocClose _) => true | _ => false)
    (q := fun _ => false) (.start c) ?_
  · simpa [Held.start, closings] using this
  intro g e a hg hp _
  refine ⟨hg.step hp, ?_⟩
  rw [protocol_upd, (e.changes g a).shut]
  unfold Held.shutAfter
  cases e with
  | enter f =>
    cases f with
    | ocClose r =>
      have hp : g.shut = false := hp.2.2.1
      simp [hp, Held.shuts]
    | _ => rfl
  | _ => rfl

/-- `Close` calls `oc_session_free` under its write lock. -/
theorem freeings_eq (h : protocol.Valid tr (Held.start c)) (hc : c.Closes) :
    freeings tr = if (protocol.after tr (Held.start c)).freed then 1 else 0 := by
  have := h.count (f := fun g => if g.freed then 1 else 0) (I := Along c)
    (p := fun ev => match ev.1 with | .enter (.ocSessionFree _) => true | _ => false)
    (q := fun _ => false) (.start c) ?_
  · simpa [Held.start, freeings] using this
  intro g e a hg hp _
  refine ⟨hg.step hp, ?_⟩
  rw [protocol_upd, (e.changes g a).freed]
  unfold Held.freedAfter
  cases e with
  | enter f =>
    cases f with
    | ocSessionFree n =>
      obtain ⟨-, _, -, -, hcloses, hexcl⟩ := hp
      have he := hcloses (hg.call ▸ hc)
      simp [Held.frees, he, (hexcl he).2]
    | _ => rfl
  | _ => rfl

theorem inC_eq (h : protocol.Valid tr (Held.start c)) :
    (protocol.after tr (Held.start c)).inC = inC tr := by
  refine h.history (I := fun tr g => g.inC = inC tr) rfl fun tr g e a hg _ _ => ?_
  rw [protocol_upd, (e.changes g a).inC]
  unfold Held.inCAfter
  rw [inC, List.foldl_append, List.foldl_cons, List.foldl_nil]
  cases e <;> first | rfl | exact hg

/-- The phases of a run follow one another. -/
theorem phase_le (h : protocol.Valid tr g) (hg : g.Wf) :
    g.phase.rank ≤ (protocol.after tr g).phase.rank := by
  refine (h.history (I := fun _ g' => g'.Wf ∧ g.phase.rank ≤ g'.phase.rank) ⟨hg, le_rfl⟩ ?_).2
  rintro _ g' e a ⟨hwf, hle⟩ hp _
  refine ⟨hwf.step hp, hle.trans ?_⟩
  rw [protocol_upd, (e.changes g' a).phase]
  unfold Held.phaseAfter
  cases e with
  | enter f =>
    cases f with
    | ocRun n | ocRunInto n =>
      have : g'.phase = .before := hp.2.2.2.1
      simp [this, Phase.rank]
    | ocOutputsFree n =>
      have : g'.phase = .after := hp.2.2.2
      simp [this, Held.enterPhase, Phase.rank]
    | _ => exact le_rfl
  | leave f =>
    cases f with
    | ocRun n | ocRunInto n =>
      have : g'.phase = .native := (hwf.inside _ hp).2.2.1
      simp [this, Held.leavePhase, Phase.rank]
    | _ => exact le_rfl
  | _ => exact le_rfl

/-! ## What is acquired and released -/

/-- What an event hands over to a new runtime or session. -/
def gives (ev : Event Op Op.Resp) : Multiset Resource :=
  match ev.1 with
  | .newRuntime n => n.resources
  | .newSession _ _ n _ _ => n.resources
  | _ => 0

/-- What a trace hands over. -/
def given (tr : Trace) : Multiset Resource := total gives tr

/-- What a call that is not a `Close` has acquired it has released, handed over, or must release. -/
theorem acquired_eq (h : protocol.Valid tr (Held.start c)) (hc : ¬c.Closes) :
    acquired tr = released tr + given tr + (protocol.after tr (Held.start c)).live := by
  have := h.balance (f := Held.live) (I := Along c) (a := fun ev => ev.1.acquires ev.2)
    (b := fun ev => ev.1.releases + gives ev) (.start c) ?_
  · rw [show (Held.start c).live = 0 from rfl, add_zero] at this
    rw [acquired, this, released, given]
    congr 1
    clear this h
    induction tr with
    | nil => rfl
    | cons ev tr ih =>
      simp only [total_cons, ih]
      abel
  intro g e a hg hp _
  refine ⟨hg.step hp, ?_⟩
  rw [protocol_upd, (e.changes g a).live]
  unfold Held.liveAfter
  have hcloses : ¬g.call.Closes := hg.call ▸ hc
  cases e with
  | newRuntime n =>
    simp only [Op.acquires, Op.releases, gives, zero_add]
    exact (add_tsub_cancel_of_le hp.2).symm
  | newSession r gated n ins outs =>
    simp only [Op.acquires, Op.releases, gives, zero_add]
    exact (add_tsub_cancel_of_le hp.2.2.2.2).symm
  | enter f =>
    -- only `Close` takes anything over
    have htakes : g.takes f = 0 := by
      rcases hg.wf.closes with hcl | ⟨-, hexcl, -, hzero⟩
      · exact absurd hcl hcloses
      · cases f with
        | ocClose r =>
          have : g.zero.isSome := hp.2.1
          simp [hzero] at this
        | ocSessionFree n => cases n <;> simp [Held.takes, hexcl]
        | _ => rfl
    simp [Op.acquires, Op.releases, gives, htakes]
  | nat o =>
    simp only [Op.acquires, Op.releases, gives, add_zero]
    calc o.acquires a + g.live = o.acquires a + (o.releases + (g.live - o.releases)) := by
          rw [add_tsub_cancel_of_le hp.1]
      _ = o.releases + (o.acquires a + (g.live - o.releases)) := add_left_comm _ _ _
  | _ => simp [Op.acquires, Op.releases, gives]

/-- A run hands nothing over. -/
theorem given_run (h : protocol.Valid tr (Held.start c)) (hc : c.ctx.isSome) : given tr = 0 := by
  have hr : c.runtime = none := by cases c <;> simp_all [Call.ctx, Call.runtime]
  have hopen : ¬c.Opens := by cases c <;> simp_all [Call.ctx, Call.Opens]
  refine (h.history (I := fun tr g => Along c g ∧ given tr = 0) ⟨.start c, rfl⟩ ?_).2
  rintro tr g e a ⟨hg, htr⟩ hp _
  refine ⟨hg.step hp, ?_⟩
  rw [given, total_append, show total gives tr = 0 from htr, zero_add, total_cons, total_nil, add_zero]
  cases e with
  | newRuntime n => exact absurd (hg.call ▸ hp.1) hopen
  | newSession r gated n ins outs =>
    have := hg.wf.mu r hp.1
    rw [hg.call, hr] at this
    cases this
  | _ => rfl

end

end

end Onnxcraft
