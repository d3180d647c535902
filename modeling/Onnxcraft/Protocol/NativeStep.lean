import Onnxcraft.Protocol.Frame

/-!
# Steps on the pool and native steps

`inv_pool` and `inv_nat`: a step on the descriptor pool and a native call keep the invariant. The
run options that exist are those that one call must release, and only the callback that a run waits
for may set the flag of its options.
-/

namespace Onnxcraft

open Effect

section
variable [Platform] {w w' : World} {gs : List Held} {g g' : Held} {i : Nat}

/-! ## Steps that do not touch what is counted -/

/-- A step that changes neither the world nor what is counted. -/
theorem Inv.still (hi : Inv w gs) (hg : gs[i]? = some g) (hwf : g'.Wf) (hk : Knows w g')
    (hs : g'.sessionPart = g.sessionPart) (hr : g'.runtimePart = g.runtimePart)
    (hc : g'.callbackPart = g.callbackPart) (hb : g'.buffer = g.buffer)
    (hl : ∀ o, g'.live.count (.runOptions o) = g.live.count (.runOptions o)) :
    Inv w (gs.set i g') := by
  simp only [Held.callbackPart, Prod.mk.injEq] at hc
  refine ⟨fun x hx => ?_, fun x hx => ?_, fun s st hst => ?_, fun r st hst => ?_,
    fun id cb hcb => ?_, fun h => ?_, hi.pool.frame hg hb ⟨rfl, rfl⟩⟩
  · rcases mem_set_cases hx with rfl | hx
    · exact hwf
    · exact hi.wf x hx
  · rcases mem_set_cases hx with rfl | hx
    · exact hk
    · exact hi.knows x hx
  · exact (hi.sessions s st hst).frame hg (.of_eq hs) le_rfl fun _ _ _ hx => hx
  · exact (hi.runtimes r st hst).frame hg (.of_eq hr) rfl
  · exact (hi.callbacks id cb hcb).frame hg (by rw [hc.1]) (by rw [hc.2]) fun _ h => h
  · exact (optionHolders_frame hg hl h).trans (hi.options h)

/-- Reading the context's error. -/
theorem inv_ctxErr {c : Ctx} {a : Option CtxError} (hi : Inv w gs) (hg : gs[i]? = some g)
    (hp : (Op.ctxErr c).Pre g) (ha : a = w.err c) :
    Op.Env g (.ctxErr c) a ∧ Inv w (gs.set i ((Op.ctxErr c).upd g a)) := by
  have hmem := List.mem_of_getElem? hg
  have hk := hi.knows g hmem
  have hp : g.call.ctx = some c := hp
  refine ⟨⟨fun e he => ?_, fun hcan => ?_⟩, hi.still hg ((hi.wf g hmem).step hp) { hk with
    done := fun e c' he hc' => ?_
    canceled := fun c' hcan hc' => ?_ } rfl rfl rfl rfl fun _ => rfl⟩
  · rw [ha, hk.done e c he hp]
  · rw [ha]
    exact hk.canceled c hcan hp
  all_goals
    obtain rfl : c = c' := by
      have hc' : g.call.ctx = some c' := hc'
      rwa [hp, Option.some.injEq] at hc'
    rw [← ha]
  · exact he
  · exact hcan

/-- Leaving a C function. -/
theorem inv_leave {f : CFunc} (hi : Inv w gs) (hg : gs[i]? = some g) :
    Inv w (gs.set i ((Op.leave f).upd g ())) := by
  have hmem := List.mem_of_getElem? hg
  have hk := hi.knows g hmem
  exact hi.still hg (hi.wf g hmem).leave { hk with } rfl rfl rfl rfl fun _ => rfl

/-! ## The descriptor pool -/

omit [Platform] in
theorem keeps_pool {ps : List Buffer} {n : Nat} : Keeps w { w with pool := ps, buffers := n } g where
  sessions _ st h := ⟨st, h, rfl, id, fun _ => rfl, fun _ => rfl⟩
  length := le_rfl
  runtimes _ st _ h := ⟨st, h, fun _ => rfl, fun _ => rfl⟩
  ctxs _ _ h := h
  callbacks _ cb h := ⟨cb, h, rfl, rfl, rfl, id⟩
  options _ _ h := .inl h

/-- A step on the pool: only what is pooled and who has a buffer changes. -/
theorem Inv.pooled {ps : List Buffer} {n : Nat} {b : Option Nat} (hi : Inv w gs)
    (hg : gs[i]? = some g)
    (hpool : PoolOk { w with pool := ps, buffers := n } (gs.set i { g with buffer := b })) :
    Inv { w with pool := ps, buffers := n } (gs.set i { g with buffer := b }) := by
  have hmem := List.mem_of_getElem? hg
  have hwf : ({ g with buffer := b } : Held).Wf := { hi.wf g hmem with
    inside := fun f hf => by
      have := (hi.wf g hmem).inside f hf
      cases f <;> exact this }
  refine ⟨fun x hx => ?_, fun x hx => ?_, fun s st hst => ?_, fun r st hst => ?_,
    fun id cb hcb => ?_, fun h => ?_, hpool⟩
  · rcases mem_set_cases hx with rfl | hx
    · exact hwf
    · exact hi.wf x hx
  · rcases mem_set_cases hx with rfl | hx
    · exact { (hi.knows g hmem).keep keeps_pool with }
    · exact (hi.knows x hx).keep keeps_pool
  · exact (hi.sessions s st hst).frame hg (.of_eq rfl) le_rfl fun _ _ _ hx => hx
  · exact (hi.runtimes r st hst).frame hg (.of_eq rfl) rfl
  · exact (hi.callbacks id cb hcb).frame hg Iff.rfl Iff.rfl fun _ h => h
  · refine (optionHolders_frame hg ?_ h).trans (hi.options h)
    exact fun _ => rfl

/-- **A step on the descriptor pool.** -/
theorem inv_pool {o : PoolOp} {a : o.Resp} (hi : Inv w gs) (hg : gs[i]? = some g)
    (hp : (Op.pool o).Pre g) (ha : w.descriptors o a = some w') :
    Op.Env g (.pool o) a ∧ Inv w' (gs.set i ((Op.pool o).upd g a)) := by
  have hpool := hi.pool
  cases o with
  | get =>
    have hp : g.buffer = none := hp
    have htake : ∀ x, holders Held.buffer (gs.set i { g with buffer := some a.id }) x =
        holders Held.buffer gs x + if a.id = x then 1 else 0 := by
      intro x
      have := holders_set (f := Held.buffer) hg { g with buffer := some a.id } x
      rw [hp] at this
      simpa using this
    simp only [World.descriptors] at ha
    split at ha
    · next hin =>
      obtain rfl := Option.some.inj ha
      refine ⟨hpool.clean a hin, hi.pooled hg ⟨fun b hb => hpool.clean b (List.mem_of_mem_erase hb),
        fun x => ?_, fun x hx => ?_⟩⟩
      all_goals
        rw [htake]
        have hcount : (List.map (·.id) (w.pool.erase a)).count x + (if a.id = x then 1 else 0) =
            (List.map (·.id) w.pool).count x := by
          rw [((List.perm_cons_erase hin).map (·.id)).count_eq x, List.map_cons, List.count_cons]
          simp only [beq_iff_eq]
      · have := hpool.one x
        show (List.map (·.id) (w.pool.erase a)).count x + _ ≤ 1
        omega
      · have := hpool.made x hx
        show (List.map (·.id) (w.pool.erase a)).count x + _ = 0
        omega
    · split at ha
      · next hnew =>
        obtain rfl := Option.some.inj ha
        have hnone := hpool.made w.buffers le_rfl
        refine ⟨by simp [hnew, Op.Env, Buffer.Clean], hi.pooled hg ⟨hpool.clean, fun x => ?_, fun x hx => ?_⟩⟩
        all_goals
          rw [htake, hnew]
        · have := hpool.one x
          show (List.map (·.id) w.pool).count x + (_ + if w.buffers = x then 1 else 0) ≤ 1
          split
          · next hx =>
            subst hx
            omega
          · omega
        · have hx : w.buffers + 1 ≤ x := hx
          have := hpool.made x (by omega)
          show (List.map (·.id) w.pool).count x + (_ + if w.buffers = x then 1 else 0) = 0
          rw [if_neg (by omega)]
          omega
      · cases ha
  | put b =>
    obtain ⟨hb, hclean⟩ := hp
    simp only [World.descriptors, Option.some.injEq] at ha
    subst ha
    have hput : ∀ x, holders Held.buffer (gs.set i { g with buffer := none }) x +
        (if b.id = x then 1 else 0) = holders Held.buffer gs x := by
      intro x
      have := holders_set (f := Held.buffer) hg { g with buffer := none } x
      rw [hb] at this
      simpa using this
    refine ⟨trivial, hi.pooled hg ⟨fun c hc => ?_, fun x => ?_, fun x hx => ?_⟩⟩
    · rcases List.mem_cons.1 hc with rfl | hc
      · exact hclean
      · exact hpool.clean c hc
    all_goals
      have hcount : (List.map (·.id) (b :: w.pool)).count x =
          (List.map (·.id) w.pool).count x + if b.id = x then 1 else 0 := by
        rw [List.map_cons, List.count_cons]
        simp only [beq_iff_eq]
      have := hput x
      rw [hcount]
    · have := hpool.one x
      omega
    · have := hpool.made x hx
      omega

/-! ## Run options -/

/-- Run options are held by one call. -/
theorem Inv.option_owner {j k : Nat} {x y : Held} {o : Handle} (hi : Inv w gs)
    (hx : gs[j]? = some x) (hy : gs[k]? = some y) (hxo : .runOptions o ∈ x.live)
    (hyo : .runOptions o ∈ y.live) : j = k := by
  by_contra hne
  have h1 := hi.options o
  have h2 := total_two (f := fun g : Held => g.live.count (.runOptions o)) hx hy hne
  have h3 := Multiset.count_pos.2 hxo
  have h4 := Multiset.count_pos.2 hyo
  unfold optionHolders at h1
  split at h1 <;> omega

/-- Run options that a call holds exist. -/
theorem Inv.option_exists {o : Handle} (hi : Inv w gs) (hg : gs[i]? = some g)
    (ho : .runOptions o ∈ g.live) : (w.options o).isSome := by
  by_contra hne
  have h1 := hi.options o
  have h2 := total_pos (f := fun g : Held => g.live.count (.runOptions o)) hg
  have h3 := Multiset.count_pos.2 ho
  rw [if_neg hne] at h1
  unfold optionHolders at h1
  omega

/-- The run that waits for a running callback. -/
theorem Inv.callback_owner {id : Nat} (hi : Inv w gs) (hg : gs[i]? = some g)
    (hf : g.fire = some id) : ∃ (cb : CbSt) (j : Nat) (x : Held), w.callbacks[id]? = some cb ∧
      cb.state = .running ∧ g.call = .callback cb.r cb.options id ∧ (w.err cb.ctx).isSome ∧
      gs[j]? = some x ∧ x.watch = some id ∧ x.call.ctx = some cb.ctx ∧
      x.seen.map (·.runtime) = some cb.r ∧ .runOptions cb.options ∈ x.live := by
  have hmem := List.mem_of_getElem? hg
  obtain ⟨r, o, hcall⟩ := (hi.wf g hmem).fire id hf
  obtain ⟨cb, hcb, rfl, rfl⟩ := (hi.knows g hmem).callback r o id hcall
  have hok := hi.callbacks id cb hcb
  have hrun : cb.state = .running := by
    by_contra hne
    have h1 := hok.fire
    have h2 := holders_pos hg hf
    rw [if_neg hne] at h1
    omega
  have hwatch := hok.watch
  rw [hrun] at hwatch
  obtain ⟨j, x, hx, hxw⟩ := exists_holder (f := Held.watch) (l := gs) (x := id) (by omega)
  obtain ⟨cb', hcb', hctx, hseen, hlive, -⟩ := (hi.knows x (List.mem_of_getElem? hx)).watch id hxw
  obtain rfl : cb = cb' := by rwa [hcb, Option.some.injEq] at hcb'
  exact ⟨cb, j, x, hcb, hrun, hcall, hok.done (.inl hrun), hx, hxw, hctx, hseen, hlive⟩

omit [Platform] in
theorem keeps_options {f : Handle → Option Bool}
    (h : ∀ o, .runOptions o ∈ g.live → f o = some true →
      w.options o = some true ∨ ∃ c, g.call.ctx = some c ∧ (w.err c).isSome) :
    Keeps w { w with options := f } g where
  sessions _ st h := ⟨st, h, rfl, id, fun _ => rfl, fun _ => rfl⟩
  length := le_rfl
  runtimes _ st _ h := ⟨st, h, fun _ => rfl, fun _ => rfl⟩
  ctxs _ _ h := h
  callbacks _ cb h := ⟨cb, h, rfl, rfl, rfl, id⟩
  options := h

/-- A native call that changes the run options. -/
theorem Inv.optioned {f : Handle → Option Bool} {L : Multiset Resource} (hi : Inv w gs)
    (hg : gs[i]? = some g)
    (hk : Knows { w with options := f } { g with live := L })
    (hkeep : ∀ x j, j ≠ i → gs[j]? = some x → Keeps w { w with options := f } x)
    (hf : ∀ o, optionHolders gs o + L.count (.runOptions o) =
      (if (f o).isSome then 1 else 0) + g.live.count (.runOptions o)) :
    Inv { w with options := f } (gs.set i { g with live := L }) := by
  have hmem := List.mem_of_getElem? hg
  have hwf : ({ g with live := L } : Held).Wf := { hi.wf g hmem with
    inside := fun f hf => by
      have := (hi.wf g hmem).inside f hf
      cases f <;> exact this }
  refine ⟨fun x hx => ?_, fun x hx => ?_, fun s st hst => ?_, fun r st hst => ?_,
    fun id cb hcb => ?_, fun o => ?_, hi.pool.frame hg rfl ⟨rfl, rfl⟩⟩
  · rcases mem_set_cases hx with rfl | hx
    · exact hwf
    · exact hi.wf x hx
  · rcases mem_set_other hx with rfl | ⟨j, hj, hjx⟩
    · exact hk
    · exact (hi.knows x (List.mem_of_getElem? hjx)).keep (hkeep x j hj hjx)
  · exact (hi.sessions s st hst).frame hg (.of_eq rfl) le_rfl fun _ _ _ hx => hx
  · exact (hi.runtimes r st hst).frame hg (.of_eq rfl) rfl
  · exact (hi.callbacks id cb hcb).frame hg Iff.rfl Iff.rfl fun _ h => h
  · have h1 : optionHolders (gs.set i { g with live := L }) o + g.live.count (.runOptions o) =
        optionHolders gs o + L.count (.runOptions o) := total_set hg
    have h2 := hf o
    show optionHolders (gs.set i { g with live := L }) o = if (f o).isSome then 1 else 0
    omega

omit [Platform] in
/-- What is known while native resources other than run options come and go. -/
theorem Knows.native {L : Multiset Resource} {c b : Bool} (hk : Knows w g)
    (hL : ∀ o, L.count (.runOptions o) = g.live.count (.runOptions o))
    (hc : c → ∀ ctx, g.call.ctx = some ctx → (w.err ctx).isSome) :
    Knows w { g with live := L, canceled := c, aborted := b } := by
  have hmem : ∀ o, .runOptions o ∈ L ↔ .runOptions o ∈ g.live := fun o => by
    rw [← Multiset.count_pos, hL o, Multiset.count_pos]
  exact { hk with
    canceled := fun ctx hcan hctx => hc hcan ctx hctx
    watch := fun id hw => by
      obtain ⟨cb, hcb, hctx, hseen, hlive, hjoin⟩ := hk.watch id hw
      exact ⟨cb, hcb, hctx, hseen, (hmem _).2 hlive, hjoin⟩
    flag := fun o ho => hk.flag o ((hmem o).1 ho) }

/-- **A native call.** -/
theorem inv_nat {o : NativeOp} {a : o.Resp} (hi : Inv w gs) (hg : gs[i]? = some g)
    (hp : (Op.nat o).Pre g) (ha : w.native o a = some w') :
    o.Env a ∧ Inv w' (gs.set i (o.upd g a)) := by
  have hmem := List.mem_of_getElem? hg
  have hk := hi.knows g hmem
  obtain ⟨hle, hp⟩ := hp
  unfold World.native at ha
  split at ha
  swap
  · cases ha
  next hallows =>
  refine ⟨hallows, ?_⟩
  -- a call that neither makes nor frees run options
  have hplain : ∀ (L : Multiset Resource) (c b : Bool),
      (∀ h, L.count (.runOptions h) = g.live.count (.runOptions h)) →
      (c → ∀ ctx, g.call.ctx = some ctx → (w.err ctx).isSome) →
      Inv w (gs.set i { g with live := L, canceled := c, aborted := b }) := by
    intro L c b hL hc
    refine hi.still hg ?_ (hk.native hL hc) rfl rfl rfl rfl hL
    exact { hi.wf g hmem with
      inside := fun f hf => by
        have := (hi.wf g hmem).inside f hf
        cases f <;> exact this }
  have hcount : o ≠ .createRunOptions → (∀ h, o ≠ .releaseRunOptions h) → ∀ h,
      (o.acquires a + (g.live - o.releases)).count (.runOptions h) =
        g.live.count (.runOptions h) := by
    intro h1 h2 h
    rw [Multiset.count_add, Multiset.count_sub, NativeOp.acquires_count h1,
      NativeOp.releases_count (h2 h)]
    omega
  have hcan : g.canceled → ∀ ctx, g.call.ctx = some ctx → (w.err ctx).isSome :=
    fun hc ctx => hk.canceled ctx hc
  cases o with
  | createRunOptions =>
    cases a with
    | error st =>
      obtain rfl := Option.some.inj ha
      refine hplain _ _ _ (fun h => ?_) hcan
      unfold NativeOp.acquires NativeOp.releases
      simp
    | ok h =>
      simp only [Option.ite_none_right_eq_some, Option.some.injEq] at ha
      obtain ⟨hfree, rfl⟩ := ha
      have hflag : ∀ x, Function.update w.options h (some false) x = some true →
          w.options x = some true := by
        intro x hx
        by_cases hxh : x = h
        · subst hxh
          simp at hx
        · simpa [hxh] using hx
      have hk' := hk.keep (keeps_options (f := Function.update w.options h (some false))
        fun x _ hx => .inl (hflag x hx))
      have hL : NativeOp.acquires .createRunOptions (.ok h) + (g.live - NativeOp.releases .createRunOptions) =
          {.runOptions h} + g.live := by
        unfold NativeOp.acquires NativeOp.releases
        simp
      show Inv _ (gs.set i { g with live := _ })
      rw [hL]
      refine hi.optioned hg { hk' with
        watch := fun id hw => ?_
        flag := fun x hx hf => ?_ } (fun x j _ _ => keeps_options fun y _ hy => .inl (hflag y hy))
        fun x => ?_
      · obtain ⟨cb, hcb, hctx, hseen, hlive, hjoin⟩ := hk'.watch id hw
        exact ⟨cb, hcb, hctx, hseen, Multiset.mem_add.2 (.inr hlive), hjoin⟩
      · rcases Multiset.mem_add.1 hx with hx | hx
        · obtain rfl : x = h := by simpa using hx
          simp at hf
        · exact hk'.flag x hx hf
      · have := hi.options x
        rw [Multiset.count_add, Multiset.count_singleton]
        by_cases hxh : x = h
        · subst hxh
          rw [hfree] at this
          simp at this ⊢
          omega
        · have hne : Resource.runOptions x ≠ .runOptions h := by simpa using hxh
          rw [if_neg hne, Function.update_of_ne hxh]
          omega
  | runOptionsSetTerminate h =>
    cases a with
    | error st =>
      obtain rfl := Option.some.inj ha
      exact hplain _ _ _ (hcount (by simp) (by simp)) hcan
    | ok _ =>
      obtain rfl := Option.some.inj ha
      obtain ⟨r, id, hcall, hfire⟩ := hp
      obtain ⟨cb, j, x, hcb, hrun, hcall', hdone, hx, hxw, hctx, hseen, hlive⟩ :=
        hi.callback_owner hg hfire
      obtain rfl : h = cb.options := by
        rw [hcall] at hcall'
        injection hcall'
      -- the only holder of the options is the run that waits for this callback
      have hflag : ∀ (y : Held) (k : Nat), gs[k]? = some y → ∀ o, .runOptions o ∈ y.live →
          Function.update w.options cb.options ((w.options cb.options).map fun _ => true) o =
            some true → w.options o = some true ∨ ∃ c, y.call.ctx = some c ∧ (w.err c).isSome := by
        intro y k hy o ho hf
        by_cases hoh : o = cb.options
        · subst hoh
          obtain rfl := hi.option_owner hy hx ho hlive
          rw [hy, Option.some.injEq] at hx
          subst hx
          exact .inr ⟨cb.ctx, hctx, hdone⟩
        · rw [Function.update_of_ne hoh] at hf
          exact .inl hf
      have hk' := hk.keep (keeps_options (hflag g i hg))
      have hL : NativeOp.acquires (.runOptionsSetTerminate cb.options) (.ok ()) +
          (g.live - NativeOp.releases (.runOptionsSetTerminate cb.options)) = g.live := by
        unfold NativeOp.acquires NativeOp.releases
        simp
      show Inv _ (gs.set i { g with live := _ })
      rw [hL]
      refine hi.optioned hg hk' (fun y k _ hy => keeps_options (hflag y k hy)) fun o => ?_
      have := hi.options o
      rw [this]
      by_cases hoh : o = cb.options
      · subst hoh
        simp
      · rw [Function.update_of_ne hoh]
  | releaseRunOptions h =>
    obtain rfl := Option.some.inj ha
    have hw : g.watch = none := hp
    have hlive : .runOptions h ∈ g.live := Multiset.singleton_le.1 hle
    have hflag : ∀ x, Function.update w.options h none x = some true → w.options x = some true := by
      intro x hx
      by_cases hxh : x = h
      · subst hxh
        simp at hx
      · simpa [hxh] using hx
    have hk' := hk.keep (keeps_options (f := Function.update w.options h none)
      fun x _ hx => .inl (hflag x hx))
    have hL : NativeOp.acquires (.releaseRunOptions h) a + (g.live - NativeOp.releases (.releaseRunOptions h)) =
        g.live - {.runOptions h} := zero_add _
    show Inv _ (gs.set i { g with live := _ })
    rw [hL]
    refine hi.optioned hg { hk' with
      watch := fun id hw' => ?_
      flag := fun x hx hf => hk'.flag x (Multiset.mem_of_le (Multiset.sub_le_self _ _) hx) hf }
      (fun x j _ _ => keeps_options fun y _ hy => .inl (hflag y hy)) fun x => ?_
    · have hw' : g.watch = some id := hw'
      rw [hw] at hw'
      cases hw'
    · have h1 := hi.options x
      rw [Multiset.count_sub, Multiset.count_singleton]
      by_cases hxh : x = h
      · subst hxh
        have h2 := hi.option_exists hg hlive
        have h3 := Multiset.count_pos.2 hlive
        rw [if_pos h2] at h1
        simp
        omega
      · have hne : Resource.runOptions x ≠ .runOptions h := by simpa using hxh
        rw [if_neg hne, Function.update_of_ne hxh]
        omega
  | run session options inputNames inputs outputNames outputs =>
    obtain ⟨-, -, hopt⟩ := hp
    simp only [Option.ite_none_left_eq_some, Option.some.injEq] at ha
    obtain ⟨haborted, rfl⟩ := ha
    have hc := hcount (by simp) (by simp)
    simp only [NativeOp.upd]
    split
    · next hab =>
      refine hplain _ _ _ hc fun _ ctx hctx => ?_
      -- ORT aborts a run only when the flag of its own options is set
      have hbind : options.bind w.options = some true := by
        by_contra hne
        exact haborted ⟨hab, hne⟩
      obtain ⟨o, ho, hf⟩ := Option.bind_eq_some_iff.1 hbind
      obtain ⟨c, hc', herr⟩ := hk.flag o (hopt o ho) hf
      rw [hctx, Option.some.injEq] at hc'
      rwa [hc']
    · exact hplain _ _ _ hc hcan
  | _ =>
    obtain rfl := Option.some.inj ha
    exact hplain _ _ _ (hcount (by simp) (by simp)) hcan

end

end Onnxcraft
