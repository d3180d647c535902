import Onnxcraft.Protocol.Course
import Onnxcraft.Properties.Closing

/-!
# Linearizability

`linearizable`: whatever the interleaving, the calls of `Open`, `Load`, `LoadBytes`, `Run`,
`RunInto` and the two `Close`s take effect one after the other on a registry of open and closed
runtimes and sessions, each in one of its own steps, and return what the registry says.
-/

namespace Onnxcraft

open Effect

section
variable [Platform] {w w' : World} {σ : Global} {t : Goroutine} {c : Call} {g : Held} {k : Course}

/-! ## What a call knows -/

/-- What a call has found open it has not given back. -/
structure Course.Tracks (k : Course) (g : Held) : Prop where
  sure : k.sure → g.closed = some false
  seen : k.seen → g.seen.isSome

omit [Platform] in
theorem Course.Tracks.start (c : Call) : Course.start.Tracks (Held.start c) where
  sure := nofun
  seen := nofun

omit [Platform] in
theorem Course.Tracks.sess {s : Nat} {o : SessOp} {a : o.Resp} (h : k.Tracks g) :
    (c.course.upd (.sess s o) a k).Tracks (o.upd g s a) := by
  cases o with
  | getNative => exact ⟨h.sure, id⟩
  | rUnlock | unlock | clearNative => exact ⟨h.sure, fun h => by cases h⟩
  | gateSelect c => cases a <;> exact ⟨h.sure, h.seen⟩
  | _ => exact ⟨h.sure, h.seen⟩

omit [Platform] in
theorem Course.Tracks.rt {r : Nat} {o : RtOp} {a : o.Resp} (h : k.Tracks g) :
    (c.course.upd (.rt r o) a k).Tracks (o.upd g r a) := by
  cases o with
  | getClosed =>
    refine ⟨fun ha => ?_, h.seen⟩
    have ha : (!a) = true := ha
    simpa [RtOp.upd] using ha
  | setClosed | unlock => exact ⟨fun h => (by cases h), h.seen⟩
  | getNative =>
    simp only [RtOp.upd]
    split <;> exact ⟨h.sure, h.seen⟩
  | decRefs owner =>
    cases owner <;>
    · simp only [RtOp.upd]
      split <;> exact ⟨h.sure, h.seen⟩
  | _ => exact ⟨h.sure, h.seen⟩

omit [Platform] in
theorem Course.Tracks.step {e : Op} {a : e.Resp} (h : k.Tracks g) :
    (c.course.upd e a k).Tracks (e.upd g a) := by
  cases e with
  | sess s o => exact h.sess
  | rt r o => exact h.rt
  | cb o =>
    obtain ⟨_, _, _, hupd⟩ := o.upd_shape g a
    rw [show (Op.cb o).upd g a = _ from hupd]
    exact ⟨h.sure, h.seen⟩
  | nat o =>
    obtain ⟨_, _, hupd⟩ := g.nat_upd o a
    rw [show (Op.nat o).upd g a = _ from hupd]
    exact ⟨h.sure, h.seen⟩
  | pool o => cases o <;> exact ⟨h.sure, h.seen⟩
  | _ => exact ⟨h.sure, h.seen⟩

theorem Reachable.tracks (hr : system.Reachable σ) (ht : t ∈ σ.threads) :
    (t.ghost t.call.course fun _ => .start).Tracks (held t) := by
  refine (Reachable.valid hr ht).history
    (I := fun tr g => (t.call.course.after tr .start).Tracks g) (.start _) ?_
  intro tr g e a h _ _
  rw [after_append]
  exact h.step

/-! ## The registry of the world -/

omit [Platform] in
theorem map_set_same {α β : Type} {f : α → β} {l : List α} {i : Nat} {a b : α} (h : l[i]? = some a)
    (hf : f b = f a) : (l.set i b).map f = l.map f := by
  obtain ⟨hlt, rfl⟩ := List.getElem?_eq_some_iff.1 h
  rw [List.map_set, hf, ← List.getElem_map f (h := by simpa using hlt), List.set_getElem_self]

/-- An operation that does not change the registry. -/
theorem World.act_quiet {e : Op} {a : e.Resp} (he : e.Quiet) (h : w.act e a = some w') :
    w'.registry = w.registry := by
  cases e with
  | sess s o =>
    obtain ⟨st, st', hst, hact, rfl⟩ := sess_cases h
    obtain ⟨hsess, -, hnat, -⟩ := SessionSt.act_keeps hact
    have hne : o ≠ .clearNative := by
      rintro rfl
      exact he
    simp only [registry, Registry.mk.injEq, true_and]
    exact map_set_same hst (by rw [hsess, hnat hne])
  | rt r o =>
    obtain ⟨st, st', hst, hact, rfl⟩ := rt_cases h
    have hne : o ≠ .setClosed := by
      rintro rfl
      exact he
    simp only [registry, Registry.mk.injEq]
    refine ⟨?_, ?_⟩
    · rw [(noteRelease_rest _ o).1]
      exact map_set_same hst ((RuntimeSt.act_keeps hact).1 hne)
    · apply List.ext_getElem?
      intro s
      rw [List.getElem?_map, List.getElem?_map, noteRelease_get]
      cases w.sessions[s]? with
      | none => rfl
      | some st =>
        simp only [Option.map_some]
        split <;> rfl
  | newRuntime => exact he.elim
  | newSession => exact he.elim
  | _ =>
    obtain ⟨-, hs, hr⟩ := act_rest h
    simp only [registry, hs, hr]

omit [Platform] in
theorem World.registry_session {s : Nat} {st : SessionSt} (h : w.sessions[s]? = some st) :
    w.registry.sessions[s]? = some (st.sess, st.native.isNone) := by
  rw [registry, List.getElem?_map, h]
  rfl

omit [Platform] in
theorem World.registry_runtime {r : Nat} {st : RuntimeSt} (h : w.runtimes[r]? = some st) :
    w.registry.runtimes[r]? = some st.closed := by
  rw [registry, List.getElem?_map, h]
  rfl

/-! ## The operations that calls perform -/

/-- What a call performs, the registry allows, and the call may return what it says. -/
structure Performs (c : Call) (w w' : World) (o : Registry.Action) : Prop where
  step : Registry.step o w.registry = some w'.registry
  means : ∃ ret, c.Means ret o

/-- The runtime that a call has found open is open, and has its native part. -/
theorem Inv.open_runtime {gs : List Held} (hi : Inv w gs) (hg : g ∈ gs)
    (hclosed : g.closed = some false) : ∃ r st, g.mu = some r ∧ w.runtimes[r]? = some st ∧
      st.closed = false ∧ st.native.isSome := by
  obtain ⟨r, st, hmu, hst, hc⟩ := (hi.knows g hg).closed false hclosed
  have hok := hi.runtimes r st hst
  exact ⟨r, st, hmu, hst, hc, hok.native.2 (.inl (hok.refs_pos hc))⟩

/-- `Open` makes a runtime. -/
theorem performs_open {n : OcRuntime} {r : Nat} (hc : c.Opens)
    (ha : w.act (.newRuntime n) r = some w') : Performs c w w' (.opened r) := by
  simp only [World.act, Option.ite_none_right_eq_some, Option.some.injEq] at ha
  obtain ⟨rfl, rfl⟩ := ha
  refine ⟨by simp [Registry.step, World.registry], ?_⟩
  cases c with
  | openLibrary path => exact ⟨.runtime (.ok w.runtimes.length), _, rfl, rfl⟩
  | _ => exact hc.elim

/-- A load makes a session of an open runtime. -/
theorem performs_load {r id : Nat} {gated : Bool} {n : OcSession} {ins outs : List TensorInfo}
    {st : RuntimeSt} (hc : c.loadArgs.map (·.1) = some r) (hst : w.runtimes[r]? = some st)
    (hopen : st.closed = false) (ha : w.act (.newSession r gated n ins outs) id = some w') :
    Performs c w w' (.loaded ⟨id, r, gated, ins, outs⟩) := by
  obtain ⟨rfl, rfl⟩ := World.newSession_rest ha
  have hr := World.registry_runtime hst
  rw [hopen] at hr
  refine ⟨?_, ?_⟩
  · simp [Registry.step, hr]
    simp [World.registry]
  · have hmeans : Runtime.LoadMeans r (.ok ⟨w.sessions.length, r, gated, ins, outs⟩)
        (.loaded ⟨w.sessions.length, r, gated, ins, outs⟩) := .inr ⟨_, rfl, rfl, rfl⟩
    cases c with
    | load r' path o =>
      obtain rfl := Option.some.inj hc
      exact ⟨_, _, rfl, hmeans⟩
    | loadBytes r' model o =>
      obtain rfl := Option.some.inj hc
      exact ⟨_, _, rfl, hmeans⟩
    | _ => cases hc

omit [Platform] in
/-- A list is what it is after an element has been set to what it is. -/
theorem set_same {α : Type} {l : List α} {i : Nat} {a : α} (h : l[i]? = some a) : l.set i a = l := by
  obtain ⟨hlt, rfl⟩ := List.getElem?_eq_some_iff.1 h
  exact List.set_getElem_self hlt

/-- `Runtime.Close` closes the runtime. -/
theorem performs_setClosed {r : Nat} (ha : w.act (.rt r .setClosed) () = some w') :
    Performs (.closeRuntime r) w w' (.closedRuntime r) := by
  obtain ⟨st, st', hst, hact, rfl⟩ := World.rt_cases ha
  obtain rfl : st' = { st with closed := true } := RuntimeSt.act_cases hact
  refine ⟨?_, _, rfl, rfl⟩
  have hlt : r < w.registry.runtimes.length := by
    simpa [World.registry] using (List.getElem?_eq_some_iff.1 hst).1
  rw [Registry.step, if_pos hlt]
  simp [World.registry, World.noteRelease, List.map_set]

/-- A call that finds the runtime closed. -/
theorem World.sees_closed {r : Nat} (ha : w.act (.rt r .getClosed) true = some w') :
    w.registry.runtimes[r]? = some true ∧ w'.registry = w.registry := by
  refine ⟨?_, act_quiet (show Op.Quiet (.rt r .getClosed) from trivial) ha⟩
  obtain ⟨st, st', hst, hact, -⟩ := rt_cases ha
  rw [registry_runtime hst, ← (RuntimeSt.act_cases hact).1]

theorem performs_seenClosed {r : Nat} (ha : w.act (.rt r .getClosed) true = some w') :
    Performs (.closeRuntime r) w w' (.closedRuntime r) := by
  obtain ⟨hr, hsame⟩ := World.sees_closed ha
  refine ⟨?_, _, rfl, rfl⟩
  rw [Registry.step, if_pos (List.getElem?_eq_some_iff.1 hr).1, set_same hr, hsame]

/-- A load finds its runtime closed. -/
theorem performs_refused {r : Nat} (hc : c.loadArgs.map (·.1) = some r)
    (ha : w.act (.rt r .getClosed) true = some w') : Performs c w w' (.refused r) := by
  obtain ⟨hr, hsame⟩ := World.sees_closed ha
  refine ⟨by rw [Registry.step, if_pos hr, hsame], ?_⟩
  cases c with
  | load r' path o =>
    obtain rfl := Option.some.inj hc
    exact ⟨_, _, rfl, .inl ⟨rfl, rfl⟩⟩
  | loadBytes r' model o =>
    obtain rfl := Option.some.inj hc
    exact ⟨_, _, rfl, .inl ⟨rfl, rfl⟩⟩
  | _ => cases hc

section
variable {s : Session} {st : SessionSt} (hst : w.sessions[s.id]? = some st) (hs : st.sess = s)
include hst hs

/-- `Session.Close` closes the session. -/
theorem performs_clear (ha : w.act (.sess s.id .clearNative) () = some w') :
    Performs (.closeSession s) w w' (.closedSession s) := by
  obtain ⟨st₁, st', hst₁, hact, rfl⟩ := World.sess_cases ha
  obtain rfl : st = st₁ := by rw [hst, Option.some.injEq] at hst₁; exact hst₁
  obtain rfl : st' = { st with native := none } := SessionSt.act_cases hact
  have hget := World.registry_session hst
  rw [hs] at hget
  refine ⟨?_, _, rfl, rfl⟩
  rw [Registry.step, if_pos (by rw [hget]; rfl)]
  simp [World.registry, List.map_set, hs]

/-- What a call finds that reads `native`. -/
theorem World.sees_session {n : Option OcSession} (ha : w.act (.sess s.id .getNative) n = some w') :
    w.registry.sessions[s.id]? = some (s, n.isNone) ∧ w'.registry = w.registry := by
  refine ⟨?_, act_quiet (show Op.Quiet (.sess s.id .getNative) from trivial) ha⟩
  obtain ⟨st₁, st', hst₁, hact, -⟩ := sess_cases ha
  obtain rfl : st = st₁ := by rw [hst, Option.some.injEq] at hst₁; exact hst₁
  rw [registry_session hst, hs, (SessionSt.act_cases hact).1]

theorem performs_seenGone (ha : w.act (.sess s.id .getNative) none = some w') :
    Performs (.closeSession s) w w' (.closedSession s) := by
  obtain ⟨hget, hsame⟩ := World.sees_session hst hs ha
  have hget : w.registry.sessions[s.id]? = some (s, true) := hget
  refine ⟨?_, _, rfl, rfl⟩
  rw [Registry.step, if_pos (by rw [hget]; rfl), set_same hget, hsame]

/-- A run finds its session open, or closed. -/
theorem performs_run {n : Option OcSession} (hc : c.session = some s) (hrun : c.ctx.isSome)
    (ha : w.act (.sess s.id .getNative) n = some w') :
    Performs c w w' (if n.isSome then .ran s else .gone s) := by
  obtain ⟨hget, hsame⟩ := World.sees_session hst hs ha
  have hmeans : ∀ o, (∃ res : Except GoError (List Tensor), s.RunMeans res o) →
      (∃ res : Except GoError Unit, s.RunMeans res o) → ∃ ret, c.Means ret o := by
    intro o h1 h2
    obtain ⟨res, hres⟩ := h1
    obtain ⟨res', hres'⟩ := h2
    cases c with
    | run s' ctx inputs =>
      obtain rfl := Option.some.inj hc
      exact ⟨_, res, rfl, hres⟩
    | runInto s' ctx outputs inputs =>
      obtain rfl := Option.some.inj hc
      exact ⟨_, res', rfl, hres'⟩
    | _ => cases hrun
  cases n with
  | none =>
    have hget : w.registry.sessions[s.id]? = some (s, true) := hget
    refine ⟨?_, hmeans _ ⟨_, .inl ⟨rfl, rfl⟩⟩ ⟨_, .inl ⟨rfl, rfl⟩⟩⟩
    show Registry.step (.gone s) w.registry = _
    rw [Registry.step, if_pos hget, hsame]
  | some n =>
    have hget : w.registry.sessions[s.id]? = some (s, false) := hget
    refine ⟨?_, hmeans _ ⟨.ok [], .inr ⟨by simp, rfl⟩⟩ ⟨.ok (), .inr ⟨by simp, rfl⟩⟩⟩
    show Registry.step (.ran s) w.registry = _
    rw [Registry.step, if_pos hget, hsame]

end

/-- **A step in which a call takes effect.** -/
theorem Reachable.performs (hr : system.Reachable σ) (ht : t ∈ σ.threads) {e : Op} {a : e.Resp}
    (hpre : e.Pre (held t)) (ha : World.act e a σ.world = some w') (htr : k.Tracks (held t))
    (hmay : t.call.MayAlter k e) {o : Registry.Action} (ho : t.call.point e a = some o) :
    Performs t.call σ.world w' o := by
  have hi := Reachable.inv hr
  have hmem := Reachable.held_mem ht
  have hcall := Reachable.call hr ht
  have hwf := hi.wf _ hmem
  have hsession : ∀ s, (held t).call.session.map (·.id) = some s → ∃ s₀ st,
      t.call.session = some s₀ ∧ s₀.id = s ∧ σ.world.sessions[s₀.id]? = some st ∧ st.sess = s₀ := by
    intro s hs
    obtain ⟨s₀, hs₀, hid⟩ := Option.map_eq_some_iff.1 hs
    obtain ⟨st, hst, hsess⟩ := (hi.knows _ hmem).session s₀ hs₀
    rw [hcall] at hs₀
    exact ⟨s₀, st, hs₀, hid, hst, hsess⟩
  cases e with
  | newRuntime n =>
    obtain rfl := Option.some.inj ho
    exact performs_open hmay.1 ha
  | newSession r gated n ins outs =>
    obtain rfl := Option.some.inj ho
    obtain ⟨r', st, hmu, hst, hopen, -⟩ := hi.open_runtime hmem (htr.sure hmay.2.2)
    obtain rfl : r' = r := by
      rw [hpre.1, Option.some.injEq] at hmu
      exact hmu.symm
    exact performs_load hmay.1 hst hopen ha
  | rt r op =>
    cases op with
    | setClosed =>
      obtain rfl := Option.some.inj ho
      rw [hmay.1]
      exact performs_setClosed ha
    | getClosed =>
      have hruntime : t.call.runtime = some r := hcall ▸ hwf.mu r hpre.2
      obtain ⟨rfl, ⟨r', hc, rfl⟩ | ⟨hload, rfl⟩⟩ := Call.point_getClosed ho
      · rw [hc] at hruntime
        obtain rfl := Option.some.inj hruntime
        rw [hc]
        exact performs_seenClosed ha
      · refine performs_refused ?_ ha
        cases hc : t.call <;> rw [hc] at hruntime hload <;> first
          | exact hruntime
          | cases hload
    | _ => cases ho
  | sess s op =>
    obtain ⟨s₀, st, hs₀, rfl, hst, hsess⟩ := hsession s hpre.2.1
    cases op with
    | clearNative =>
      obtain ⟨⟨s₁, hc⟩, -⟩ := hmay
      rw [hc] at ho hs₀
      obtain rfl := Option.some.inj hs₀
      obtain rfl := Option.some.inj ho
      rw [hc]
      exact performs_clear hst hsess ha
    | getNative =>
      rcases Call.point_getNative ho with ⟨s₁, hc, rfl, rfl⟩ | ⟨s₁, hs₁, hrun, rfl⟩
      · rw [hc] at hs₀
        obtain rfl := Option.some.inj hs₀
        rw [hc]
        exact performs_seenGone hst hsess ha
      · rw [hs₀] at hs₁
        obtain rfl := Option.some.inj hs₁
        exact performs_run hst hsess hs₀ hrun ha
    | _ => cases ho
  | _ => cases ho

/-- What a call has found open has its native part. -/
theorem Reachable.backed (hr : system.Reachable σ) {i : Nat} (ht : σ.threads[i]? = some t) {e : Op}
    {a : e.Resp} (hpre : e.Pre (held t)) (ha : World.act e a σ.world = some w')
    (htr : k.Tracks (held t)) : e.Backed k a := by
  have hi := Reachable.inv hr
  have hmem := List.mem_of_getElem? ht
  have hwf := hi.wf _ (Reachable.held_mem hmem)
  cases e with
  | rt r o =>
    cases o with
    | getNative =>
      intro hsure
      obtain ⟨r', st, hmu, hst, -, hnat⟩ := hi.open_runtime (Reachable.held_mem hmem) (htr.sure hsure)
      have hsame : r' = r := by
        rcases hpre.2 with h | ⟨-, hs⟩
        · rw [h, Option.some.injEq] at hmu
          exact hmu.symm
        · obtain ⟨s, hs, hrun⟩ := Option.map_eq_some_iff.1 hs
          rw [← hrun]
          exact (Call.session_runtime hs (hwf.mu r' hmu)).symm
      subst hsame
      obtain ⟨st₁, st', hst₁, hact, -⟩ := World.rt_cases ha
      obtain rfl : st = st₁ := by rw [hst, Option.some.injEq] at hst₁; exact hst₁
      rw [(RuntimeSt.act_cases hact).1]
      exact hnat
    | _ => trivial
  | sess s o =>
    cases o with
    | getNative =>
      intro hseen
      obtain ⟨n, hn⟩ := Option.isSome_iff_exists.1 (htr.seen hseen)
      have henv := (inv_act hi (Reachable.held_get ht) hpre ha).1
      rw [henv.1 n hn]
      rfl
    | _ => trivial
  | _ => trivial

omit [Platform] in
/-- What changes the registry is what a call performs, and it has performed nothing before. -/
theorem Call.MayAlter.quiet {e : Op} (h : c.MayAlter k e) (a : e.Resp)
    (hdone : k.op.isSome ∨ c.point e a = none) : e.Quiet := by
  have hnone : k.op = none → c.point e a = none := fun hop => by
    rcases hdone with h | h
    · rw [hop] at h
      cases h
    · exact h
  cases e with
  | newRuntime => cases hnone h.2
  | newSession => cases hnone h.2.1
  | rt r o =>
    cases o with
    | setClosed => cases hnone h.2
    | _ => trivial
  | sess s o =>
    cases o with
    | clearNative =>
      obtain ⟨⟨s₀, rfl⟩, hop⟩ := h
      cases hnone hop
    | _ => trivial
  | _ => trivial

/-- The linearization points of the binding. -/
theorem commits : Commits registry World.registry Call.Means Call.Leaves system Call.course
    (fun _ => .start) Course.op where
  init := rfl
  fresh _ := rfl
  prog := course_spec
  act := by
    intro σ i t e k r w' g hr ht hk ha hg hmay
    have hmem := List.mem_of_getElem? ht
    have hpre := Reachable.wp hr hmem
    rw [hk] at hpre
    have htr : g.Tracks (held t) := hg ▸ Reachable.tracks hr hmem
    refine ⟨Reachable.backed hr ht hpre.1 ha htr, ?_⟩
    cases hop : g.op with
    | some o =>
      refine .inl ⟨?_, World.act_quiet (hmay.quiet r (.inl (by rw [hop]; rfl))) ha⟩
      show (g.op <|> t.call.point e r) = some o
      rw [hop]
      rfl
    | none =>
      have hupd : (t.call.course.upd e r g).op = t.call.point e r := by
        show (g.op <|> t.call.point e r) = _
        rw [hop]
        rfl
      cases hpoint : t.call.point e r with
      | none =>
        exact .inl ⟨hupd.trans hpoint, World.act_quiet (hmay.quiet r (.inr hpoint)) ha⟩
      | some o =>
        obtain ⟨hstep, ret, hmeans⟩ := Reachable.performs hr hmem hpre.1 ha htr hmay hpoint
        exact .inr ⟨rfl, o, ret, hupd.trans hpoint, hstep, hmeans⟩
  start := by
    intro w c w' h
    obtain ⟨cbs, rfl⟩ := World.start_rest h
    rfl
  move := by
    intro w v w' h
    obtain ⟨ctxs, pool, rfl⟩ := World.move_rest h
    rfl

/-- **Linearizability.** -/
theorem linearizable {ls : List (Label Call Move Op Op.Resp)} (hx : system.Execution ls σ) :
    ∃ cs, Linearizes registry World.registry Call.Means Call.Leaves ls σ cs ∧ InTime system ls cs :=
  commits.linearizes hx

end

namespace Sample

/-- The closing of the session, as its linearization point. -/
def Closing (c : Commit Op Op.Resp Registry.Action) : Prop :=
  c.thread = 3 ∧ c.op = .closedSession (session true)

end Sample

open Sample in
theorem linearizable_sample : ∃ (ls : List (Label Call Move Op Op.Resp))
    (cs : List (Commit Op Op.Resp Registry.Action)), system.Execution ls (system.played ended) ∧
      (cs.map Commit.label).Sublist ls ∧ ∃ c ∈ cs, Closing c := by
  obtain ⟨ls, hx⟩ := (System.played_reachable (S := system) ended).execution
  obtain ⟨cs, hlin, -⟩ := linearizable hx
  obtain ⟨hcall, ret, hret⟩ := closerDone
  have hget : (system.played ended).threads[3]? = some closer := List.getElem?_eq_getElem _
  refine ⟨ls, cs, hx, hlin.steps, ?_⟩
  have hdone := hlin.returned 3 closer ret hget hret
  rw [hcall] at hdone
  rcases hdone with ⟨c, hc, hi, hmeans⟩ | ⟨hno, -⟩
  · exact ⟨c, hc, hi, hmeans.2⟩
  · exact hno.elim

end Onnxcraft
