import Onnxcraft.Protocol.SessionStep

/-!
# Steps on a runtime

`inv_rt`: a step on a runtime's mutex, references or native runtime keeps the invariant, and gives
the call an answer that its protocol relies on.
-/

namespace Onnxcraft

open Effect

section
variable [Platform] {w w' : World} {gs : List Held} {g g' : Held} {i : Nat}

omit [Platform] in
/-- An open runtime has a reference. -/
theorem RuntimeOk.refs_pos {r : Nat} {st : RuntimeSt} (h : RuntimeOk w gs r st)
    (hc : st.closed = false) : 0 < st.refs := by
  have := h.refs
  rw [hc] at this
  simp only [Bool.false_eq_true, if_false] at this
  omega

omit [Platform] in
/-- `oc_close` is only called when the last reference is gone. -/
theorem RuntimeOk.unshut {r : Nat} {st : RuntimeSt} (h : RuntimeOk w gs r st) (hg : gs[i]? = some g)
    (hr : g.call.runtime = some r) (hpos : st.refs ≠ 0) : g.shut = false := by
  cases hs : g.shut with
  | false => rfl
  | true =>
    have h1 := holders_pos (f := Held.shutOf) (x := r) hg (by simp [Held.shutOf, hs, hr])
    have h2 := h.shut
    rw [if_neg hpos] at h2
    omega

/-- The references that an operation takes from the sessions. -/
def RtOp.ends : RtOp → Nat
  | .decRefs (some _) => 1
  | _ => 0

theorem RuntimeOk.step {r : Nat} {st st' : RuntimeSt} {o : RtOp} {a : o.Resp} (hi : Inv w gs)
    (hg : gs[i]? = some g) (hst : w.runtimes[r]? = some st) (hp : (Op.rt r o).Pre g)
    (hact : st.act o a = some st')
    (hs : holders SessionSt.counts w'.sessions r + o.ends =
      holders SessionSt.counts w.sessions r) :
    RuntimeOk w' (gs.set i (o.upd g r a)) r st' := by
  have h := hi.runtimes r st hst
  have hmem := List.mem_of_getElem? hg
  have hwf := hi.wf g hmem
  have hk := hi.knows g hmem
  obtain ⟨-, hp⟩ := hp
  have hsame : ∀ f : Held → Option Nat, (f (o.upd g r a) = some r ↔ f g = some r) →
      holders f (gs.set i (o.upd g r a)) r = holders f gs r := fun f hf => holders_set_iff hg hf
  have htake : ∀ f : Held → Option Nat, f g = none → f (o.upd g r a) = some r →
      holders f (gs.set i (o.upd g r a)) r = holders f gs r + 1 := fun f hf hf' =>
    holders_take hg (by simp [hf]) hf'
  have hdrop : ∀ f : Held → Option Nat, f g = some r → f (o.upd g r a) = none →
      holders f (gs.set i (o.upd g r a)) r + 1 = holders f gs r := fun f hf hf' =>
    holders_drop hg hf (by simp [hf'])
  have hclosed : g.mu = some r → g.closed = some false → st.closed = false := by
    intro hmu hc
    obtain ⟨r', st₁, hmu', hst₁, hc'⟩ := hk.closed false hc
    obtain rfl : r = r' := by rwa [hmu, Option.some.injEq] at hmu'
    rw [hst, Option.some.injEq] at hst₁
    rw [hst₁, hc']
  have hdid := RuntimeSt.act_cases hact
  cases o with
  | lock =>
    obtain ⟨hfree, rfl⟩ := hdid
    simp only [RtOp.ends, add_zero] at hs
    exact {
      locked := by
        rw [htake Held.mu hp.1 rfl, h.locked, hfree]
        rfl
      refs := by
        rw [hs, hsame Held.raised Iff.rfl, hsame Held.owes Iff.rfl]
        exact h.refs
      native := by
        rw [hsame Held.zero Iff.rfl]
        exact h.native
      zero := by
        rw [hsame Held.zero Iff.rfl]
        exact h.zero
      shut := by
        rw [hsame Held.shutOf Iff.rfl, hsame Held.lastOf Iff.rfl]
        exact h.shut }
  | unlock =>
    obtain ⟨hlocked, rfl⟩ := hdid
    simp only [RtOp.ends, add_zero] at hs
    have hdrop := hdrop Held.mu hp.1 rfl
    exact {
      locked := by
        rw [h.locked, hlocked] at hdrop
        simpa using hdrop
      refs := by
        rw [hs, hsame Held.raised Iff.rfl, hsame Held.owes Iff.rfl]
        exact h.refs
      native := by
        rw [hsame Held.zero Iff.rfl]
        exact h.native
      zero := by
        rw [hsame Held.zero Iff.rfl]
        exact h.zero
      shut := by
        rw [hsame Held.shutOf Iff.rfl, hsame Held.lastOf Iff.rfl]
        exact h.shut }
  | getClosed =>
    obtain ⟨-, rfl⟩ := hdid
    simp only [RtOp.ends, add_zero] at hs
    exact h.frame hg (.of_eq rfl) hs
  | setClosed =>
    have hst' : st' = { st with closed := true } := hdid
    simp only [RtOp.ends, add_zero] at hs
    obtain ⟨hmu, hc, howes, -⟩ := hp
    have hopen := hclosed hmu hc
    rw [hst']
    exact {
      locked := (hsame Held.mu Iff.rfl).trans h.locked
      refs := by
        have := h.refs
        rw [hopen] at this
        rw [hs, hsame Held.raised Iff.rfl, htake Held.owes howes rfl]
        simp only [Bool.false_eq_true, if_false, if_true] at this ⊢
        omega
      native := by
        rw [hsame Held.zero Iff.rfl]
        exact h.native
      zero := by
        rw [hsame Held.zero Iff.rfl]
        exact h.zero
      shut := by
        rw [hsame Held.shutOf Iff.rfl, hsame Held.lastOf Iff.rfl]
        exact h.shut }
  | getNative =>
    obtain ⟨-, rfl⟩ := hdid
    simp only [RtOp.ends, add_zero] at hs
    refine h.frame hg (.of_eq ?_) hs
    simp only [RtOp.upd]
    split <;> rfl
  | clearNative =>
    have hst' : st' = { st with native := none } := hdid
    simp only [RtOp.ends, add_zero] at hs
    obtain ⟨hmu, hzero, hshut, -⟩ := hp
    have hz := hdrop Held.zero hzero rfl
    have hone : holders Held.zero gs r ≤ 1 := by
      calc holders Held.zero gs r ≤ holders Held.mu gs r := total_le fun x hx => by
            by_cases hxz : x.zero = some r
            · simp [hxz, (hi.wf x hx).zero r hxz]
            · simp [hxz]
        _ ≤ 1 := by
            rw [h.locked]
            split <;> omega
    have hlast : (RtOp.upd g r .clearNative a).lastOf = some r ↔ g.lastOf = some r := by
      have hshut : g.shut = true := hshut
      simp [RtOp.upd, Held.lastOf, hshut]
    have hrefs := h.zero (by omega)
    rw [hst']
    exact {
      locked := (hsame Held.mu Iff.rfl).trans h.locked
      refs := by
        rw [hs, hsame Held.raised Iff.rfl, hsame Held.owes Iff.rfl]
        exact h.refs
      native := by
        show false = true ↔ 0 < st.refs ∨ _
        rw [hrefs]
        simp
        omega
      zero := fun _ => hrefs
      shut := by
        rw [hsame Held.shutOf Iff.rfl, hsame Held.lastOf hlast]
        exact h.shut }
  | incRefs =>
    have hst' : st' = { st with refs := st.refs + 1 } := hdid
    simp only [RtOp.ends, add_zero] at hs
    obtain ⟨hmu, hc, -, hraised⟩ := hp
    have hpos := h.refs_pos (hclosed hmu hc)
    have hzero : holders Held.zero gs r = 0 := by
      by_contra hne
      have := h.zero (by omega)
      omega
    rw [hst']
    exact {
      locked := (hsame Held.mu Iff.rfl).trans h.locked
      refs := by
        have := h.refs
        rw [hs, htake Held.raised hraised rfl, hsame Held.owes Iff.rfl]
        show st.refs + 1 = _
        push_cast
        omega
      native := by
        show _ ↔ 0 < st.refs + 1 ∨ _
        rw [h.native]
        constructor
        · exact fun _ => .inl (by omega)
        · exact fun _ => .inl hpos
      zero := by
        rw [hsame Held.zero Iff.rfl, hzero]
        exact fun h => absurd h (by omega)
      shut := by
        have := h.shut
        rw [hsame Held.shutOf Iff.rfl, hsame Held.lastOf Iff.rfl, this]
        show _ = if st.refs + 1 = 0 then 1 else 0
        rw [if_neg (by omega), if_neg (by omega)] }
  | decRefs owner =>
    obtain ⟨hn, hst'⟩ := hdid
    obtain ⟨hmu, hzero, howner⟩ := hp
    have hgave : (g.gave owner).mu = g.mu ∧ (g.gave owner).raised = g.raised ∧
        (g.gave owner).zero = g.zero ∧ (g.gave owner).call = g.call ∧
        (g.gave owner).shut = g.shut := by
      cases owner <;> exact ⟨rfl, rfl, rfl, rfl, rfl⟩
    obtain ⟨hgmu, hgraised, hgzero, hgcall, hgshut⟩ := hgave
    have hupd : ∃ z, RtOp.upd g r (.decRefs owner) a = { g.gave owner with zero := z } ∧
        z = if a = 0 then some r else none := by
      refine ⟨_, ?_, rfl⟩
      simp only [RtOp.upd]
      split
      · rfl
      · rw [← hzero, ← hgzero]
    obtain ⟨z, hupd, hz⟩ := hupd
    have hmu' : holders Held.mu (gs.set i (RtOp.upd g r (.decRefs owner) a)) r =
        holders Held.mu gs r := hsame Held.mu (by rw [hupd]; exact iff_of_eq (by rw [hgmu]))
    have hraised' : holders Held.raised (gs.set i (RtOp.upd g r (.decRefs owner) a)) r =
        holders Held.raised gs r :=
      hsame Held.raised (by rw [hupd]; exact iff_of_eq (by rw [hgraised]))
    -- one reference less, of the runtime itself or of a session
    have hone : holders Held.owes (gs.set i (RtOp.upd g r (.decRefs owner) a)) r +
        holders SessionSt.counts w'.sessions r + 1 =
        holders Held.owes gs r + holders SessionSt.counts w.sessions r := by
      cases owner with
      | none =>
        have := hdrop Held.owes howner (by rw [hupd]; rfl)
        simp only [RtOp.ends, add_zero] at hs
        omega
      | some s =>
        have := hsame Held.owes (by rw [hupd]; exact Iff.rfl)
        simp only [RtOp.ends] at hs
        omega
    have hrefs := h.refs
    have hpos : 0 < st.refs := by
      split at hrefs <;> omega
    have hshut := h.unshut hg (hwf.mu r hmu) (by omega)
    have hzero0 : holders Held.zero gs r = 0 := by
      by_contra hne
      have := h.zero (by omega)
      omega
    have hshut0 : holders Held.shutOf gs r + holders Held.lastOf gs r = 0 := by
      rw [h.shut, if_neg (by omega)]
    have hshut' : holders Held.shutOf (gs.set i (RtOp.upd g r (.decRefs owner) a)) r =
        holders Held.shutOf gs r := hsame Held.shutOf (by
      rw [hupd]
      simp only [Held.shutOf, hgshut, hgcall])
    have hnative : st.native.isSome := h.native.2 (.inl hpos)
    have hrefs' : (st.refs - 1 : Int) = (if st.closed then 0 else 1) +
        holders SessionSt.counts w'.sessions r +
        holders Held.raised (gs.set i (RtOp.upd g r (.decRefs owner) a)) r +
        holders Held.owes (gs.set i (RtOp.upd g r (.decRefs owner) a)) r := by
      rw [hraised']
      generalize (if st.closed then (0 : Int) else 1) = c at hrefs ⊢
      omega
    have hleft : (0 : Int) ≤ st.refs - 1 := by omega
    have hn : (a : Int) = st.refs - 1 := hn
    rw [← hn] at hrefs' hleft
    rw [hst']
    by_cases ha : a = 0
    · have hz : z = some r := by rw [hz, if_pos ha]
      have htz := htake Held.zero hzero (by rw [hupd, hz])
      have htl := htake Held.lastOf (by simp [Held.lastOf, hshut, hzero])
        (by rw [hupd, hz]; simp [Held.lastOf, hgshut, hshut])
      exact {
        locked := hmu'.trans h.locked
        refs := hrefs'
        native := ⟨fun _ => .inr (by omega), fun _ => hnative⟩
        zero := fun _ => ha
        shut := by
          show _ = if a = 0 then 1 else 0
          rw [if_pos ha]
          omega }
    · have hz : z = none := by rw [hz, if_neg ha]
      have htz := hsame Held.zero (by rw [hupd, hz, hzero])
      have htl := hsame Held.lastOf (by rw [hupd, hz]; simp [Held.lastOf, hgshut, hshut, hzero])
      exact {
        locked := hmu'.trans h.locked
        refs := hrefs'
        native := ⟨fun _ => .inl (lt_of_le_of_ne hleft (Ne.symm ha)), fun _ => hnative⟩
        zero := fun hpos => absurd hpos (by rw [htz, hzero0]; exact lt_irrefl 0)
        shut := by
          show _ = if a = 0 then 1 else 0
          rw [if_neg ha]
          omega }

omit [Platform] in
/-- Only the session that is released changes. -/
theorem World.noteRelease_get (w : World) (o : RtOp) (s : Nat) :
    (w.noteRelease o).sessions[s]? = (w.sessions[s]?).map fun st =>
      if o = .decRefs (some s) then { st with released := true } else st := by
  cases o with
  | decRefs owner =>
    cases owner with
    | none => simp [noteRelease]
    | some s' =>
      simp only [noteRelease, release, RtOp.decRefs.injEq, Option.some.injEq]
      by_cases hs : s' = s
      · subst hs
        cases hst : w.sessions[s']? with
        | none => simp [hst]
        | some st =>
          have := (List.getElem?_eq_some_iff.1 hst).1
          simp [this]
      · cases hst : w.sessions[s']? with
        | none => simp [hs]
        | some st => simp [hs]
  | _ => simp [noteRelease]

omit [Platform] in
theorem World.noteRelease_rest (w : World) (o : RtOp) :
    (w.noteRelease o).runtimes = w.runtimes ∧ (w.noteRelease o).ctxs = w.ctxs ∧
      (w.noteRelease o).pool = w.pool ∧ (w.noteRelease o).buffers = w.buffers ∧
      (w.noteRelease o).callbacks = w.callbacks ∧ (w.noteRelease o).options = w.options := by
  cases o with
  | decRefs owner =>
    cases owner with
    | none => exact ⟨rfl, rfl, rfl, rfl, rfl, rfl⟩
    | some s =>
      simp only [noteRelease, release]
      split <;> exact ⟨rfl, rfl, rfl, rfl, rfl, rfl⟩
  | _ => exact ⟨rfl, rfl, rfl, rfl, rfl, rfl⟩

omit [Platform] in
theorem World.err_congr (h : w'.ctxs = w.ctxs) (c : Ctx) : w'.err c = w.err c := by
  rw [World.err, h, World.err]

omit [Platform] in
/-- A step on a runtime changes `closed` and `native` in two places only. -/
theorem RuntimeSt.act_keeps {o : RtOp} {a : o.Resp} {st st' : RuntimeSt}
    (h : st.act o a = some st') : (o ≠ .setClosed → st'.closed = st.closed) ∧
      (o ≠ .clearNative → st'.native = st.native) := by
  have h := RuntimeSt.act_cases h
  cases o with
  | lock | unlock | getClosed | getNative | decRefs =>
    obtain ⟨-, rfl⟩ := h
    exact ⟨fun _ => rfl, fun _ => rfl⟩
  | setClosed =>
    have h : st' = { st with closed := true } := h
    rw [h]
    exact ⟨fun hne => absurd rfl hne, fun _ => rfl⟩
  | clearNative =>
    have h : st' = { st with native := none } := h
    rw [h]
    exact ⟨fun _ => rfl, fun hne => absurd rfl hne⟩
  | incRefs =>
    have h : st' = { st with refs := st.refs + 1 } := h
    rw [h]
    exact ⟨fun _ => rfl, fun _ => rfl⟩

omit [Platform] in
theorem keeps_rt {r : Nat} {st st' : RuntimeSt} {o : RtOp} {a : o.Resp}
    (hst : w.runtimes[r]? = some st) (hact : st.act o a = some st')
    (hmu : g.mu = some r → (o = .setClosed → g.closed = none) ∧ (o = .clearNative → g.rt = none))
    (hcleared : ∀ s, o = .decRefs (some s) → g.cleared ≠ some s) :
    Keeps w ({ w with runtimes := w.runtimes.set r st' }.noteRelease o) g := by
  obtain ⟨hruntimes, hctxs, -, -, hcallbacks, hoptions⟩ :=
    World.noteRelease_rest { w with runtimes := w.runtimes.set r st' } o
  obtain ⟨hclosed, hnative⟩ := RuntimeSt.act_keeps hact
  have hlt := (List.getElem?_eq_some_iff.1 hst).1
  refine ⟨fun s st₁ hst₁ => ?_, by rw [hruntimes]; simp, fun r₁ st₁ hmu₁ hst₁ => ?_,
    fun c e h => by rwa [World.err_congr hctxs], fun j cb hcb => ?_,
    fun h _ hf => .inl (by rwa [hoptions] at hf)⟩
  · rw [World.noteRelease_get,
      show ({ w with runtimes := w.runtimes.set r st' } : World).sessions[s]? = some st₁ from hst₁]
    refine ⟨_, rfl, ?_⟩
    dsimp only
    split
    · next ho => exact ⟨rfl, id, fun _ => rfl, fun hc => absurd hc (hcleared s ho)⟩
    · exact ⟨rfl, id, fun _ => rfl, fun _ => rfl⟩
  · rw [hruntimes]
    by_cases hr : r = r₁
    · subst hr
      obtain rfl : st = st₁ := by rwa [hst, Option.some.injEq] at hst₁
      obtain ⟨h1, h2⟩ := hmu hmu₁
      refine ⟨st', by simp [hlt], fun hc => hclosed fun ho => ?_, fun hc => hnative fun ho => ?_⟩
      · rw [h1 ho] at hc
        exact nomatch hc
      · rw [h2 ho] at hc
        exact nomatch hc
    · exact ⟨st₁, by simpa [hr] using hst₁, fun _ => rfl, fun _ => rfl⟩
  · exact ⟨cb, by rwa [hcallbacks], rfl, rfl, rfl, id⟩

/-- What the call may expect of its step on a runtime. -/
theorem env_rt {r : Nat} {st st' : RuntimeSt} {o : RtOp} {a : o.Resp} (hi : Inv w gs)
    (hg : gs[i]? = some g) (hp : (Op.rt r o).Pre g) (hst : w.runtimes[r]? = some st)
    (hact : st.act o a = some st') : o.Env g r a := by
  have hmem := List.mem_of_getElem? hg
  have hk := hi.knows g hmem
  have hok := hi.runtimes r st hst
  have hdid := RuntimeSt.act_cases hact
  cases o with
  | getNative =>
    obtain ⟨rfl, -⟩ := hdid
    refine ⟨fun x hmu hx => ?_, fun h => ?_, fun n hmu hn => ?_⟩
    · obtain ⟨r', hmu', hnat⟩ := hk.rt x hx
      obtain rfl : r = r' := by rwa [hmu, Option.some.injEq] at hmu'
      simpa [World.nativeOf, hst] using hnat
    · refine hok.native.2 ?_
      rcases h with h | h
      · exact .inr (holders_pos hg h)
      · have h1 := holders_pos hg h
        have h2 := hok.refs
        refine .inl ?_
        split at h2 <;> omega
    · rcases hp.2 with h | ⟨-, hr⟩
      · rw [hmu] at h
        cases h
      · obtain ⟨s, hs, rfl⟩ := Option.map_eq_some_iff.1 hr
        obtain ⟨st₁, hst₁, hsess⟩ := hk.session s hs
        have hnat := hi.seen hmem (by rw [hs]; rfl) hst₁ hn
        have := ((hi.sessions _ st₁ hst₁).native n hnat).2.2
        rw [hsess] at this
        simpa [World.nativeOf, hst] using this
  | _ => trivial

/-- What the call knows after its step on a runtime. -/
theorem knows_rt {r : Nat} {st st' : RuntimeSt} {o : RtOp} {a : o.Resp} (hi : Inv w gs)
    (hg : gs[i]? = some g) (hp : (Op.rt r o).Pre g) (hst : w.runtimes[r]? = some st)
    (hact : st.act o a = some st') :
    Knows ({ w with runtimes := w.runtimes.set r st' }.noteRelease o) (o.upd g r a) := by
  have hmem := List.mem_of_getElem? hg
  have hwf := hi.wf g hmem
  have hk := hi.knows g hmem
  have hlt := (List.getElem?_eq_some_iff.1 hst).1
  have hkeeps := fun (g : Held) => keeps_rt (g := g) hst hact
  obtain ⟨-, hp⟩ := hp
  have hdid := RuntimeSt.act_cases hact
  cases o with
  | lock =>
    have hk' := hk.keep (hkeeps g (by simp) (by simp))
    refine { hk' with
      closed := fun b hb => ?_
      rt := fun x hx => ?_ }
    · obtain ⟨r', -, hmu, -⟩ := hk'.closed b hb
      rw [hp.1] at hmu
      cases hmu
    · obtain ⟨r', hmu, -⟩ := hk'.rt x hx
      rw [hp.1] at hmu
      cases hmu
  | unlock =>
    have hk' := hk.keep (hkeeps g (by simp) (by simp))
    exact { hk' with
      closed := fun _ h => by cases h
      rt := fun _ h => (by cases h) }
  | getClosed =>
    have hk' := hk.keep (hkeeps g (by simp) (by simp))
    obtain ⟨ha, rfl⟩ := hdid
    refine { hk' with closed := fun b hb => ⟨r, st', hp, by simp [World.noteRelease, hlt], ?_⟩ }
    have : some a = some b := hb
    rw [← ha, Option.some.inj this]
  | setClosed =>
    have hst' : st' = { st with closed := true } := hdid
    have hk₀ : Knows w { g with closed := none } := { hk with closed := fun _ h => (by cases h) }
    have hk' := hk₀.keep (hkeeps _ (by simp) (by simp))
    refine { hk' with closed := fun b hb => ⟨r, st', hp.1, by simp [World.noteRelease, hlt], ?_⟩ }
    have : some true = some b := hb
    rw [hst', Option.some.inj this]
  | getNative =>
    have hk' := hk.keep (hkeeps g (by simp) (by simp))
    obtain ⟨ha, hst'⟩ := hdid
    simp only [RtOp.upd]
    split
    · next hmu =>
      refine { hk' with rt := fun x hx => ⟨r, hmu, ?_⟩ }
      have hx : a = some x := hx
      simp [World.nativeOf, World.noteRelease, hlt, hst', ← ha, hx]
    · exact hk'
  | clearNative =>
    have hk₀ : Knows w { g with rt := none } := { hk with rt := fun _ h => (by cases h) }
    have hk' := hk₀.keep (hkeeps _ (by simp) (by simp))
    exact { hk' with rt := fun _ h => (by cases h) }
  | incRefs =>
    have hk' := hk.keep (hkeeps g (by simp) (by simp))
    exact { hk' with }
  | decRefs owner =>
    have hzero : ∀ {w : World} {g : Held} {z : Option Nat}, Knows w g →
        Knows w { g with zero := z } := fun h => { h with }
    cases owner with
    | none =>
      have hk' := hk.keep (hkeeps g (by simp) (by simp))
      have hk' : Knows _ (g.gave none) := { hk' with }
      simp only [RtOp.upd]
      split
      · exact hzero hk'
      · exact hk'
    | some s =>
      have hk₀ : Knows w { g with cleared := none } := { hk with cleared := fun _ h => (by cases h) }
      have hk' := hk₀.keep (hkeeps _ (by simp) (by simp))
      simp only [RtOp.upd]
      split
      · exact hzero hk'
      · exact hk'

omit [Platform] in
/-- `Session.Close` locks the mutex of its session's runtime. -/
theorem Call.session_runtime {c : Call} {s : Session} {r : Nat} (hs : c.session = some s)
    (hr : c.runtime = some r) : s.runtime = r := by
  cases c <;> simp_all [Call.session, Call.runtime]

/-- The sessions that count for a runtime after a step on `r`. -/
theorem counts_rt {r : Nat} {o : RtOp} (ws : List RuntimeSt) (hi : Inv w gs)
    (hg : gs[i]? = some g) (hp : (Op.rt r o).Pre g) (r₁ : Nat) :
    holders SessionSt.counts ({ w with runtimes := ws }.noteRelease o).sessions r₁ +
      (if r₁ = r then o.ends else 0) = holders SessionSt.counts w.sessions r₁ := by
  have hmem := List.mem_of_getElem? hg
  have hwf := hi.wf g hmem
  have hk := hi.knows g hmem
  obtain ⟨-, hp⟩ := hp
  cases o with
  | decRefs owner =>
    cases owner with
    | none => simp [World.noteRelease, RtOp.ends]
    | some s =>
      obtain ⟨hmu, -, hcleared⟩ := hp
      obtain ⟨st, hst, hnone, hrel⟩ := hk.cleared s hcleared
      have hid := hwf.excl s (hwf.cleared s hcleared)
      obtain ⟨s₀, hs₀, rfl⟩ := Option.map_eq_some_iff.1 hid
      obtain ⟨st₀, hst₀, hsess⟩ := hk.session s₀ hs₀
      obtain rfl : st = st₀ := by rwa [hst, Option.some.injEq] at hst₀
      have hr : st.sess.runtime = r := hsess ▸ Call.session_runtime hs₀ (hwf.mu r hmu)
      have hcounts : st.counts = some r := by simp [SessionSt.counts, hrel, hr]
      simp only [World.noteRelease, World.release, hst, RtOp.ends]
      by_cases hr₁ : r₁ = r
      · subst hr₁
        rw [if_pos rfl]
        exact holders_drop hst hcounts (by simp [SessionSt.counts])
      · rw [if_neg hr₁, add_zero]
        refine holders_set_iff hst (iff_of_false (by simp [SessionSt.counts]) ?_)
        rw [hcounts]
        simpa using Ne.symm hr₁
  | _ => simp [World.noteRelease, RtOp.ends]

/-- **A step on a runtime.** -/
theorem inv_rt {r : Nat} {o : RtOp} {a : o.Resp} (hi : Inv w gs) (hg : gs[i]? = some g)
    (hp : (Op.rt r o).Pre g) (ha : w.rt r o a = some w') :
    o.Env g r a ∧ Inv w' (gs.set i (o.upd g r a)) := by
  obtain ⟨st, st', hst, hact, rfl⟩ := World.rt_cases ha
  have hmem := List.mem_of_getElem? hg
  have hwf := hi.wf g hmem
  have hk := hi.knows g hmem
  have hok := hi.runtimes r st hst
  have hlt := (List.getElem?_eq_some_iff.1 hst).1
  have hwf' : (o.upd g r a).Wf := hwf.rt hp
  have hrest : (o.upd g r a).sessionPart = g.sessionPart ∧
      (o.upd g r a).callbackPart = g.callbackPart ∧ (o.upd g r a).buffer = g.buffer ∧
      (o.upd g r a).live = g.live ∧ (o.upd g r a).call = g.call := by
    cases o with
    | getNative =>
      simp only [RtOp.upd]
      split <;> exact ⟨rfl, rfl, rfl, rfl, rfl⟩
    | decRefs owner =>
      simp only [RtOp.upd]
      cases owner <;> split <;> exact ⟨rfl, rfl, rfl, rfl, rfl⟩
    | _ => exact ⟨rfl, rfl, rfl, rfl, rfl⟩
  obtain ⟨hsession, hcallback, hbuffer, hlive, hcall⟩ := hrest
  simp only [Held.callbackPart, Prod.mk.injEq] at hcallback
  obtain ⟨hruntimes, hctxs, hpool, hbuffers, hcallbacks, hoptions⟩ :=
    World.noteRelease_rest { w with runtimes := w.runtimes.set r st' } o
  have hcounts := counts_rt (w.runtimes.set r st') hi hg hp
  -- the mutex and the write lock exclude every other call
  have hmutex : g.mu = some r → ∀ (x : Held) (j : Nat), j ≠ i → gs[j]? = some x →
      x.mu ≠ some r := by
    intro hmu x j hj hx hmu'
    refine hj (holder_unique ?_ hx hg hmu' hmu)
    rw [hok.locked]
    split <;> omega
  have hcleared : ∀ s, g.cleared = some s → ∀ (x : Held) (j : Nat), j ≠ i → gs[j]? = some x →
      x.cleared ≠ some s := by
    intro s hc x j hj hx hc'
    obtain ⟨st₁, hst₁, -⟩ := hk.cleared s hc
    refine hj (holder_unique ?_ hx hg ((hi.wf x (List.mem_of_getElem? hx)).cleared s hc')
      (hwf.cleared s hc))
    rw [(hi.sessions s st₁ hst₁).held]
    split <;> omega
  refine ⟨env_rt hi hg hp hst hact, fun x hx => ?_, fun x hx => ?_, fun s₁ st₁ hst₁ => ?_,
    fun r₁ rst hr => ?_, fun id cb hcb => ?_, fun h => ?_, ?_⟩
  · rcases mem_set_cases hx with rfl | hx
    · exact hwf'
    · exact hi.wf x hx
  · rcases mem_set_other hx with rfl | ⟨j, hj, hjx⟩
    · exact knows_rt hi hg hp hst hact
    · refine (hi.knows x (List.mem_of_getElem? hjx)).keep (keeps_rt hst hact ?_ ?_)
      · refine fun hmu => ⟨?_, ?_⟩ <;> rintro rfl <;>
          exact absurd hmu (hmutex hp.2.1 x j hj hjx)
      · rintro s rfl
        exact hcleared s hp.2.2.2 x j hj hjx
  · rw [World.noteRelease_get] at hst₁
    obtain ⟨st₀, hst₀, rfl⟩ := Option.map_eq_some_iff.1 hst₁
    have hst₀ : w.sessions[s₁]? = some st₀ := hst₀
    have hok₁ := hi.sessions s₁ st₀ hst₀
    have hframe : SessionOk ({ w with runtimes := w.runtimes.set r st' }.noteRelease o)
        (gs.set i (o.upd g r a)) s₁ st₀ := by
      refine hok₁.frame hg (.of_eq hsession) (by rw [hruntimes]; simp) fun n x hn hx => ?_
      by_cases hr : r = st₀.sess.runtime
      · subst hr
        have hsame : st'.native = st.native := by
          refine (RuntimeSt.act_keeps hact).2 ?_
          rintro rfl
          -- a runtime without references has no session
          have h1 := hok.zero (holders_pos hg hp.2.2.1)
          have h2 := hok.refs
          have h3 : 0 < holders SessionSt.counts w.sessions st₀.sess.runtime :=
            holders_pos hst₀ (by simp [SessionSt.counts, (hok₁.native n hn).1])
          split at h2 <;> omega
        have hx : st.native = some x := by simpa only [World.nativeOf, hst, Option.bind_some] using hx
        simp [World.nativeOf, hruntimes, hlt, hsame, hx]
      · simpa [World.nativeOf, hruntimes, hr] using hx
    split
    · next ho =>
      subst ho
      obtain ⟨st₂, hst₂, hnone, -⟩ := hk.cleared s₁ hp.2.2.2
      obtain rfl : st₀ = st₂ := by rwa [hst₀, Option.some.injEq] at hst₂
      exact { hframe with
        native := fun n hn => by
          have hn : st₀.native = some n := hn
          rw [hnone] at hn
          cases hn }
    · exact hframe
  · rw [hruntimes] at hr
    by_cases hrr : r = r₁
    · subst hrr
      obtain rfl : st' = rst := by simpa [hlt] using hr
      refine RuntimeOk.step hi hg hst hp hact ?_
      simpa using hcounts r
    · have hr : w.runtimes[r₁]? = some rst := by simpa [hrr] using hr
      have hother : SameRuntime r₁ g (o.upd g r a) := by
        by_cases hmine : g.call.runtime = some r₁
        · -- the runtime of another call's session is only read
          cases o with
          | getNative =>
            refine .of_eq ?_
            simp only [RtOp.upd]
            split <;> rfl
          | lock =>
            have := hp.2.2.1
            rw [hmine, Option.some.injEq] at this
            exact absurd this.symm hrr
          | _ =>
            have := hwf.mu r (by first | exact hp.2.1 | exact hp.2)
            rw [hmine, Option.some.injEq] at this
            exact absurd this.symm hrr
        · exact .of_other hwf hwf' hcall hmine
      refine (hi.runtimes r₁ rst hr).frame hg hother ?_
      have := hcounts r₁
      rwa [if_neg (Ne.symm hrr), add_zero] at this
  · rw [hcallbacks] at hcb
    exact (hi.callbacks id cb hcb).frame hg (by rw [hcallback.1]) (by rw [hcallback.2])
      fun c h => by rwa [World.err_congr hctxs]
  · rw [optionHolders_frame hg (fun o => by rw [hlive]) h, hoptions]
    exact hi.options h
  · exact hi.pool.frame hg hbuffer ⟨hpool, hbuffers⟩

end

end Onnxcraft
