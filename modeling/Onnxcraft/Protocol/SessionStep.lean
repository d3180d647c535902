import Onnxcraft.Protocol.Frame

/-!
# Steps on a session

`inv_sess`: a step on a session's lock, gate or native session keeps the invariant, and gives the
call an answer that its protocol relies on.
-/

namespace Onnxcraft

open Effect

section
variable [Platform] {w w' : World} {gs : List Held} {g g' : Held} {i : Nat}

/-- The native session as the call has read it. -/
theorem Inv.seen {s : Nat} {st : SessionSt} {n : OcSession} (h : Inv w gs) (hg : g ∈ gs)
    (hs : g.call.session.map (·.id) = some s) (hst : w.sessions[s]? = some st)
    (hn : g.seen = some n) : st.native = some n := by
  obtain ⟨s', st', hlock, hst', hnat⟩ := (h.knows g hg).seen n hn
  have hs' : g.call.session.map (·.id) = some s' := by
    rcases hlock with hlock | hlock
    · exact (h.wf g hg).read s' hlock
    · exact (h.wf g hg).excl s' hlock
  obtain rfl : s = s' := by rwa [hs, Option.some.injEq] at hs'
  rw [hst, Option.some.injEq] at hst'
  rw [hst', hnat]

theorem SessionOk.step {s : Nat} {st st' : SessionSt} {o : SessOp} {a : o.Resp} (hi : Inv w gs)
    (hg : gs[i]? = some g) (hst : w.sessions[s]? = some st) (hp : (Op.sess s o).Pre g)
    (hact : st.act (fun c => (w.err c).isSome) o a = some st') (hw : w'.runtimes = w.runtimes) :
    SessionOk w' (gs.set i (o.upd g s a)) s st' := by
  have h := hi.sessions s st hst
  have hwf := hi.wf g (List.mem_of_getElem? hg)
  obtain ⟨-, hs, hp⟩ := hp
  have hnat : ∀ r, w'.nativeOf r = w.nativeOf r := fun r => by rw [World.nativeOf, hw, World.nativeOf]
  have hlen : st.sess.runtime < w'.runtimes.length := hw ▸ h.runtime
  have hnative : ∀ n, st.native = some n → st.released = false ∧
      n.Matches st.sess.inputs st.sess.outputs ∧ w'.nativeOf st.sess.runtime = some n.runtime := by
    rw [hnat]
    exact h.native
  have hsame : ∀ f : Held → Option Nat, (f (o.upd g s a) = some s ↔ f g = some s) →
      holders f (gs.set i (o.upd g s a)) s = holders f gs s := fun f hf => holders_set_iff hg hf
  have htake : ∀ f : Held → Option Nat, f g = none → f (o.upd g s a) = some s →
      holders f (gs.set i (o.upd g s a)) s = holders f gs s + 1 := fun f hf hf' =>
    holders_take hg (by simp [hf]) hf'
  have hdrop : ∀ f : Held → Option Nat, f g = some s → f (o.upd g s a) = none →
      holders f (gs.set i (o.upd g s a)) s + 1 = holders f gs s := fun f hf hf' =>
    holders_drop hg hf (by simp [hf'])
  have hact := SessionSt.act_cases hact
  cases o with
  | rLock =>
    obtain ⟨hidle, rfl⟩ := hact
    exact {
      id := h.id
      runtime := hlen
      readers := by
        rw [htake Held.read hp.1 rfl, h.readers]
      pending := (hsame Held.pend Iff.rfl).trans h.pending
      held := (hsame Held.excl Iff.rfl).trans h.held
      alone := fun hheld => by simp [hidle] at hheld
      gate := (hsame Held.gate Iff.rfl).trans h.gate
      one := h.one
      native := hnative
      freed := by
        rw [hsame Held.freedOf Iff.rfl, hsame Held.freeing Iff.rfl]
        exact h.freed
      once := (hsame Held.freedOf Iff.rfl).trans_le h.once }
  | rUnlock =>
    obtain ⟨hpos, rfl⟩ := hact
    have hdrop := hdrop Held.read hp.1 rfl
    exact {
      id := h.id
      runtime := hlen
      readers := by
        have := h.readers
        show _ = st.readers - 1
        omega
      pending := (hsame Held.pend Iff.rfl).trans h.pending
      held := (hsame Held.excl Iff.rfl).trans h.held
      alone := fun hheld => by
        have := h.alone hheld
        show st.readers - 1 = 0
        omega
      gate := (hsame Held.gate Iff.rfl).trans h.gate
      one := h.one
      native := hnative
      freed := by
        rw [hsame Held.freedOf Iff.rfl, hsame Held.freeing Iff.rfl]
        exact h.freed
      once := (hsame Held.freedOf Iff.rfl).trans_le h.once }
  | lock =>
    obtain ⟨hidle, rfl⟩ := hact
    exact {
      id := h.id
      runtime := hlen
      readers := (hsame Held.read Iff.rfl).trans h.readers
      pending := by
        rw [htake Held.pend hp.1 rfl, h.pending]
        simp [hidle]
      held := by
        rw [hsame Held.excl Iff.rfl, h.held]
        simp [hidle]
      alone := fun h => by cases h
      gate := (hsame Held.gate Iff.rfl).trans h.gate
      one := h.one
      native := hnative
      freed := by
        rw [hsame Held.freedOf Iff.rfl, hsame Held.freeing Iff.rfl]
        exact h.freed
      once := (hsame Held.freedOf Iff.rfl).trans_le h.once }
  | lockWait =>
    obtain ⟨⟨hpend, hzero⟩, rfl⟩ := hact
    have hdrop := hdrop Held.pend hp.1 rfl
    have hexcl : g.excl ≠ some s := fun he => by
      have := holders_pos (f := Held.excl) hg he
      rw [h.held, hpend] at this
      simp at this
    exact {
      id := h.id
      runtime := hlen
      readers := (hsame Held.read Iff.rfl).trans h.readers
      pending := by
        rw [h.pending, hpend] at hdrop
        simpa using hdrop
      held := by
        rw [holders_take hg hexcl rfl, h.held, hpend]
        simp
      alone := fun _ => hzero
      gate := (hsame Held.gate Iff.rfl).trans h.gate
      one := h.one
      native := hnative
      freed := by
        rw [hsame Held.freedOf Iff.rfl, hsame Held.freeing Iff.rfl]
        exact h.freed
      once := (hsame Held.freedOf Iff.rfl).trans_le h.once }
  | unlock =>
    obtain ⟨hheld, rfl⟩ := hact
    have hdrop := hdrop Held.excl hp.1 rfl
    exact {
      id := h.id
      runtime := hlen
      readers := (hsame Held.read Iff.rfl).trans h.readers
      pending := by
        rw [hsame Held.pend Iff.rfl, h.pending]
        simp [hheld]
      held := by
        rw [h.held, hheld] at hdrop
        simpa using hdrop
      alone := fun h => by cases h
      gate := (hsame Held.gate Iff.rfl).trans h.gate
      one := h.one
      native := hnative
      freed := by
        rw [hsame Held.freedOf Iff.rfl, hsame Held.freeing Iff.rfl]
        exact h.freed
      once := (hsame Held.freedOf Iff.rfl).trans_le h.once }
  | getNative =>
    obtain ⟨ha, rfl⟩ := hact
    have hfreeing : (SessOp.upd g s .getNative a).freeing = some s ↔ g.freeing = some s := by
      rw [ha]
      cases hn : st'.native with
      | some n => rfl
      | none =>
        refine iff_of_false (by simp [SessOp.upd, Held.freeing]) fun hf => ?_
        have h1 := h.freed
        have h2 := h.once
        have h3 := holders_pos (f := Held.freeing) hg hf
        rw [hn, if_pos rfl] at h1
        omega
    exact {
      id := h.id
      runtime := hlen
      readers := (hsame Held.read Iff.rfl).trans h.readers
      pending := (hsame Held.pend Iff.rfl).trans h.pending
      held := (hsame Held.excl Iff.rfl).trans h.held
      alone := h.alone
      gate := (hsame Held.gate Iff.rfl).trans h.gate
      one := h.one
      native := hnative
      freed := by
        rw [hsame Held.freedOf Iff.rfl, hsame Held.freeing hfreeing]
        exact h.freed
      once := (hsame Held.freedOf Iff.rfl).trans_le h.once }
  | clearNative =>
    have hst' : st' = { st with native := none } := hact
    rw [hst']
    obtain ⟨hexcl, hseen, hfreed, -⟩ := hp
    obtain ⟨n, hn⟩ := Option.isSome_iff_exists.1 hseen
    have hnat := hi.seen (List.mem_of_getElem? hg) hs hst hn
    have hgone : g.gone = false := by
      cases hgone : g.gone with
      | false => rfl
      | true =>
        obtain ⟨s', hs'⟩ := Option.map_eq_some_iff.1 hs
        obtain ⟨st'', hst'', hnone⟩ := (hi.knows g (List.mem_of_getElem? hg)).gone hgone s' hs'.1
        rw [hs'.2, hst, Option.some.injEq] at hst''
        rw [← hst'', hnat] at hnone
        cases hnone
    have hdrop := hdrop Held.freeing (by simp [Held.freeing, Held.freedOf, hgone, hfreed, hs]) rfl
    exact {
      id := h.id
      runtime := hlen
      readers := (hsame Held.read Iff.rfl).trans h.readers
      pending := (hsame Held.pend Iff.rfl).trans h.pending
      held := (hsame Held.excl Iff.rfl).trans h.held
      alone := h.alone
      gate := (hsame Held.gate Iff.rfl).trans h.gate
      one := h.one
      native := fun _ h => by cases h
      freed := by
        have := h.freed
        rw [hsame Held.freedOf Iff.rfl, if_pos rfl]
        rw [hnat, if_neg (by simp)] at this
        omega
      once := (hsame Held.freedOf Iff.rfl).trans_le h.once }
  | gateSelect c =>
    obtain ⟨-, -, -, hgate⟩ := hp
    rcases hact with ⟨rfl, h0, rfl⟩ | ⟨rfl, -, rfl⟩
    · exact {
        id := h.id
        runtime := hlen
        readers := (hsame Held.read Iff.rfl).trans h.readers
        pending := (hsame Held.pend Iff.rfl).trans h.pending
        held := (hsame Held.excl Iff.rfl).trans h.held
        alone := h.alone
        gate := by rw [htake Held.gate hgate rfl, h.gate, h0]
        one := le_rfl
        native := hnative
        freed := by
          rw [hsame Held.freedOf Iff.rfl, hsame Held.freeing Iff.rfl]
          exact h.freed
        once := (hsame Held.freedOf Iff.rfl).trans_le h.once }
    · exact h.frame hg (.of_eq rfl) (by rw [hw]) fun n x _ hx => by rwa [hnat]
  | gateRecv =>
    obtain ⟨hpos, rfl⟩ := hact
    have hdrop := hdrop Held.gate hp.1 rfl
    exact {
      id := h.id
      runtime := hlen
      readers := (hsame Held.read Iff.rfl).trans h.readers
      pending := (hsame Held.pend Iff.rfl).trans h.pending
      held := (hsame Held.excl Iff.rfl).trans h.held
      alone := h.alone
      gate := by
        have := h.gate
        show _ = st.gate - 1
        omega
      one := by
        have := h.one
        show st.gate - 1 ≤ 1
        omega
      native := hnative
      freed := by
        rw [hsame Held.freedOf Iff.rfl, hsame Held.freeing Iff.rfl]
        exact h.freed
      once := (hsame Held.freedOf Iff.rfl).trans_le h.once }

omit [Platform] in
/-- A step on a session changes neither its fixed fields nor its history. -/
theorem SessionSt.act_keeps {done : Ctx → Bool} {o : SessOp} {a : o.Resp} {st st' : SessionSt}
    (h : st.act done o a = some st') : st'.sess = st.sess ∧ st'.released = st.released ∧
      (o ≠ .clearNative → st'.native = st.native) ∧ (st.native = none → st'.native = none) := by
  have h := SessionSt.act_cases h
  cases o with
  | rLock => obtain ⟨-, rfl⟩ := h; exact ⟨rfl, rfl, fun _ => rfl, id⟩
  | rUnlock => obtain ⟨-, rfl⟩ := h; exact ⟨rfl, rfl, fun _ => rfl, id⟩
  | lock => obtain ⟨-, rfl⟩ := h; exact ⟨rfl, rfl, fun _ => rfl, id⟩
  | lockWait => obtain ⟨-, rfl⟩ := h; exact ⟨rfl, rfl, fun _ => rfl, id⟩
  | unlock => obtain ⟨-, rfl⟩ := h; exact ⟨rfl, rfl, fun _ => rfl, id⟩
  | getNative => obtain ⟨-, rfl⟩ := h; exact ⟨rfl, rfl, fun _ => rfl, id⟩
  | clearNative =>
    have h : st' = { st with native := none } := h
    rw [h]
    exact ⟨rfl, rfl, fun hne => absurd rfl hne, fun _ => rfl⟩
  | gateSelect c =>
    rcases h with ⟨-, -, rfl⟩ | ⟨-, -, rfl⟩ <;> exact ⟨rfl, rfl, fun _ => rfl, id⟩
  | gateRecv => obtain ⟨-, rfl⟩ := h; exact ⟨rfl, rfl, fun _ => rfl, id⟩

omit [Platform] in
theorem keeps_sess {s : Nat} {st st' : SessionSt} {o : SessOp} {a : o.Resp}
    (hst : w.sessions[s]? = some st)
    (hact : st.act (fun c => (w.err c).isSome) o a = some st')
    (hclear : o = .clearNative → g.read ≠ some s ∧ g.excl ≠ some s) :
    Keeps w { w with sessions := w.sessions.set s st' } g where
  sessions s₁ st₁ hst₁ := by
    obtain ⟨hsess, hrel, hnat, hnone⟩ := SessionSt.act_keeps hact
    have hlt := (List.getElem?_eq_some_iff.1 hst).1
    by_cases hs : s = s₁
    · subst hs
      obtain rfl : st = st₁ := by rwa [hst, Option.some.injEq] at hst₁
      refine ⟨st', by simp [hlt], hsess, hnone, fun hlock => ?_, fun _ => hrel⟩
      by_cases ho : o = .clearNative
      · obtain ⟨h1, h2⟩ := hclear ho
        rcases hlock with hlock | hlock
        · exact absurd hlock h1
        · exact absurd hlock h2
      · exact hnat ho
    · exact ⟨st₁, by simpa [hs] using hst₁, rfl, id, fun _ => rfl, fun _ => rfl⟩
  length := le_rfl
  runtimes _ st _ h := ⟨st, h, fun _ => rfl, fun _ => rfl⟩
  ctxs _ _ h := h
  callbacks _ cb h := ⟨cb, h, rfl, rfl, rfl, id⟩
  options _ _ h := .inl h

/-- What the call knows after its step on its session. -/
theorem knows_sess {s : Nat} {st st' : SessionSt} {o : SessOp} {a : o.Resp} (hi : Inv w gs)
    (hg : gs[i]? = some g) (hp : (Op.sess s o).Pre g) (hst : w.sessions[s]? = some st)
    (hact : st.act (fun c => (w.err c).isSome) o a = some st') :
    o.Env g a ∧ Knows { w with sessions := w.sessions.set s st' } (o.upd g s a) := by
  have hmem := List.mem_of_getElem? hg
  have hwf := hi.wf g hmem
  have hk := hi.knows g hmem
  have hkeeps := keeps_sess (g := g) hst hact
  have hlt := (List.getElem?_eq_some_iff.1 hst).1
  obtain ⟨-, hs, hp⟩ := hp
  have hdid := SessionSt.act_cases hact
  cases o with
  | rLock =>
    have hk' := hk.keep (hkeeps fun h => by cases h)
    refine ⟨trivial, { hk' with seen := fun n hn => ?_ }⟩
    obtain ⟨s', st', hlock, hst'⟩ := hk'.seen n hn
    have hexcl : g.excl = some s' := by
      rcases hlock with hlock | hlock
      · rw [show g.read = none from hp.1] at hlock
        cases hlock
      · exact hlock
    exact ⟨s', st', .inr hexcl, hst'⟩
  | rUnlock =>
    have hk' := hk.keep (hkeeps fun h => by cases h)
    refine ⟨trivial, { hk' with seen := fun _ h => (by cases h), watch := fun id hw => ?_ }⟩
    have hw : g.watch = some id := hw
    rw [hp.2.2.watch] at hw
    cases hw
  | lock =>
    have hk' := hk.keep (hkeeps fun h => by cases h)
    exact ⟨trivial, { hk' with }⟩
  | lockWait =>
    have hk' := hk.keep (hkeeps fun h => by cases h)
    refine ⟨trivial, { hk' with seen := fun n hn => ?_ }⟩
    obtain ⟨s', st', hlock, hst'⟩ := hk'.seen n hn
    refine ⟨s', st', hlock.imp id fun hexcl => ?_, hst'⟩
    have := hwf.excl s' hexcl
    rwa [hs] at this
  | unlock =>
    have hk' := hk.keep (hkeeps fun h => by cases h)
    refine ⟨trivial, { hk' with seen := fun _ h => (by cases h), watch := fun id hw => ?_ }⟩
    have hw : g.watch = some id := hw
    rw [hp.2.2.2.2.watch] at hw
    cases hw
  | getNative =>
    have hk' := hk.keep (hkeeps fun h => by cases h)
    obtain ⟨ha, hst'⟩ := hdid
    have henv : ∀ n, g.seen = some n → a = some n := fun n hn => by rw [ha, hi.seen hmem hs hst hn]
    obtain ⟨s₀, hs₀, hid⟩ := Option.map_eq_some_iff.1 hs
    refine ⟨⟨henv, fun n hn => ⟨s₀, hs₀, ?_⟩⟩, { hk' with
      seen := fun n hn => ?_
      gone := fun hgone s₁ hs₁ => ?_
      watch := fun id hw => ?_ }⟩
    · obtain ⟨st₀, hst₀, hsess⟩ := hk.session s₀ hs₀
      obtain rfl : st = st₀ := by rwa [hid, hst, Option.some.injEq] at hst₀
      rw [← hsess]
      exact ((hi.sessions s st hst).native n (ha ▸ hn)).2.1
    · have hn : a = some n := hn
      exact ⟨s, st', hp, by simp [hlt], by rw [hst', ← ha, hn]⟩
    · cases hn : a with
      | none =>
        obtain rfl : s₀ = s₁ := by
          have hs₁ : g.call.session = some s₁ := hs₁
          rwa [hs₀, Option.some.injEq] at hs₁
        exact ⟨st', by simp [hid, hlt], by rw [hst', ← ha, hn]⟩
      | some n =>
        rw [hn] at hgone
        exact hk'.gone hgone s₁ hs₁
    · obtain ⟨cb, hcb, hctx, hseen, hrest⟩ := hk'.watch id hw
      obtain ⟨n, hn, hr⟩ := Option.map_eq_some_iff.1 hseen
      exact ⟨cb, hcb, hctx, by rw [← hr, SessOp.upd, henv n hn]; rfl, hrest⟩
  | clearNative =>
    obtain ⟨hexcl, hseen, hfreed, hcleared, hwatch, -⟩ := hp
    obtain ⟨n, hn⟩ := Option.isSome_iff_exists.1 hseen
    have hnat := hi.seen hmem hs hst hn
    have hst' : st' = { st with native := none } := hdid
    have hnone : st'.native = none := by rw [hst']
    have hrel : st'.released = false := by
      rw [hst']
      exact ((hi.sessions s st hst).native n hnat).1
    -- the call gives up what it knew of the native session
    have hk₀ : Knows w { g with read := none, excl := none, seen := none, cleared := none, watch := none } :=
      { hk with
        seen := fun _ h => by cases h
        cleared := fun _ h => by cases h
        watch := fun _ h => (by cases h) }
    have hk' := hk₀.keep (keeps_sess hst hact fun _ => ⟨fun h => (by cases h), fun h => by cases h⟩)
    refine ⟨trivial, { hk' with
      seen := fun _ h => by cases h
      cleared := fun s₁ hs₁ => ?_
      gone := fun _ s₁ hs₁ => ?_
      watch := fun id hw => ?_ }⟩
    · obtain ⟨s₀, hs₀, hid⟩ := Option.map_eq_some_iff.1 hs
      obtain rfl : s₀ = s₁ := by
        have hs₁ : g.call.session = some s₁ := hs₁
        rwa [hs₀, Option.some.injEq] at hs₁
      exact ⟨st', by simp [hid, hlt], hnone⟩
    · obtain rfl : s = s₁ := by simpa [SessOp.upd] using hs₁
      exact ⟨st', by simp [hlt], hnone, hrel⟩
    · have hw : g.watch = some id := hw
      rw [hwatch] at hw
      cases hw
  | gateSelect c =>
    have hk' := hk.keep (hkeeps fun h => by cases h)
    rcases hdid with ⟨rfl, -, -⟩ | ⟨rfl, hdone, -⟩
    · exact ⟨trivial, { hk' with }⟩
    · refine ⟨trivial, { hk' with canceled := fun c' _ hc' => ?_ }⟩
      obtain rfl : c = c' := by
        have : g.call.ctx = some c' := hc'
        rwa [hp.1, Option.some.injEq] at this
      exact hdone
  | gateRecv =>
    have hk' := hk.keep (hkeeps fun h => by cases h)
    exact ⟨trivial, { hk' with }⟩

/-- **A step on a session.** -/
theorem inv_sess {s : Nat} {o : SessOp} {a : o.Resp} (hi : Inv w gs) (hg : gs[i]? = some g)
    (hp : (Op.sess s o).Pre g) (ha : w.sess s o a = some w') :
    o.Env g a ∧ Inv w' (gs.set i (o.upd g s a)) := by
  obtain ⟨st, st', hst, hact, rfl⟩ := World.sess_cases ha
  have hmem := List.mem_of_getElem? hg
  have hwf := hi.wf g hmem
  have hwf' : (o.upd g s a).Wf := hwf.sess hp
  obtain ⟨henv, hknows⟩ := knows_sess hi hg hp hst hact
  have hrest : (o.upd g s a).runtimePart = g.runtimePart ∧
      (o.upd g s a).callbackPart = g.callbackPart ∧ (o.upd g s a).buffer = g.buffer ∧
      (o.upd g s a).live = g.live ∧ (o.upd g s a).call = g.call := by
    cases o with
    | gateSelect c => cases a <;> exact ⟨rfl, rfl, rfl, rfl, rfl⟩
    | _ => exact ⟨rfl, rfl, rfl, rfl, rfl⟩
  obtain ⟨hruntime, hcallback, hbuffer, hlive, hcall⟩ := hrest
  simp only [Held.callbackPart, Prod.mk.injEq] at hcallback
  refine ⟨henv, fun x hx => ?_, fun x hx => ?_, fun s₁ st₁ hst₁ => ?_, fun r rst hr => ?_,
    fun id cb hcb => ?_, fun h => ?_, ?_⟩
  · rcases mem_set_cases hx with rfl | hx
    · exact hwf'
    · exact hi.wf x hx
  · rcases mem_set_other hx with rfl | ⟨j, hj, hjx⟩
    · exact hknows
    · refine (hi.knows x (List.mem_of_getElem? hjx)).keep (keeps_sess hst hact ?_)
      rintro rfl
      -- the write lock excludes every other holder
      have hok := hi.sessions s st hst
      have hexcl : g.excl = some s := hp.2.2.1
      have hheld : st.writer = .held := by
        by_contra hne
        have := holders_pos hg hexcl
        rw [hok.held, if_neg hne] at this
        omega
      refine ⟨fun hread => ?_, fun he => ?_⟩
      · have := holders_pos hjx hread
        rw [hok.readers, hok.alone hheld] at this
        omega
      · exact hj (holder_unique (by rw [hok.held, if_pos hheld]) hjx hg he hexcl)
  · by_cases hs : s = s₁
    · subst hs
      obtain rfl : st' = st₁ := by
        have := (List.getElem?_eq_some_iff.1 hst).1
        simpa [this] using hst₁
      exact SessionOk.step hi hg hst hp hact rfl
    · have hst₁ : w.sessions[s₁]? = some st₁ := by simpa [hs] using hst₁
      have hother : g.call.session.map (·.id) ≠ some s₁ := by
        rw [hp.2.1]
        simpa using hs
      exact (hi.sessions s₁ st₁ hst₁).frame hg (.of_other hwf hwf' hcall hother) le_rfl
        fun _ _ _ hx => hx
  · refine (hi.runtimes r rst hr).frame hg (.of_eq hruntime) (holders_set_iff hst ?_)
    obtain ⟨hsess, hrel, -⟩ := SessionSt.act_keeps hact
    simp only [SessionSt.counts, hsess, hrel]
  · exact (hi.callbacks id cb hcb).frame hg (by rw [hcallback.1]) (by rw [hcallback.2])
      fun _ h => h
  · exact (optionHolders_frame hg (fun o => by rw [hlive]) h).trans (hi.options h)
  · exact hi.pool.frame hg hbuffer ⟨rfl, rfl⟩

end

end Onnxcraft
