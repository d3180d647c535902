import Onnxcraft.Protocol.Held
import Mathlib.Tactic.Abel

/-!
# Rules for the operations

The weakest precondition of every operation under `protocol`, and of the helpers of the model
(`deref`, `rd`, `wr`, `slice`, `cgo`). Native code changes only what the call must release, so its
rules are stated over `g.withLive L`.
-/

namespace Onnxcraft

open Effect

namespace Held

/-- `g` with the native resources `L` to release. -/
@[simps] def withLive (g : Held) (L : Multiset Resource) : Held := { g with live := L }

/-- `g` once it has called the C function `f`. -/
@[simps] def past (g : Held) (f : CFunc) : Held :=
  { g with shut := g.shuts f, freed := g.frees f }

/-- `g` inside the C function `f`. -/
@[simps] def within (g : Held) (f : CFunc) : Held :=
  { g with inC := some f, shut := g.shuts f, freed := g.frees f }

@[simp] theorem withLive_withLive (g : Held) (L L' : Multiset Resource) :
    (g.withLive L).withLive L' = g.withLive L' := rfl

@[simp] theorem withLive_self (g : Held) : g.withLive g.live = g := rfl

@[simp] theorem runtime_withLive (g : Held) (L : Multiset Resource) :
    (g.withLive L).runtime = g.runtime := rfl

@[simp] theorem runtime_within (g : Held) (f : CFunc) : (g.within f).runtime = g.runtime := rfl

/-- A session that the call has just loaded is freed without the write lock. -/
theorem past_sessionFree {g : Held} (h : g.excl = none) (s : Option OcSession) :
    g.past (.ocSessionFree s) = g := by
  have hfreed : (g.excl.isSome || g.freed) = g.freed := by simp [h]
  simp only [past, shuts, frees, hfreed]

end Held

/-- A native call with no obligation but to own what it releases. -/
def NativeOp.Plain : NativeOp → Prop
  | .releaseValue _ | .releaseRunOptions _ | .runOptionsSetTerminate _ | .run _ _ _ _ _ _ => False
  | _ => True

/-- A C function that does not change the phase of a run. -/
def CFunc.Still : CFunc → Prop
  | .ocRun _ | .ocRunInto _ | .ocOutputsFree _ => False
  | _ => True

/-- A C function that neither runs a model nor takes anything over. -/
def CFunc.Plain : CFunc → Prop
  | .ocClose _ | .ocSessionFree _ | .ocRun _ | .ocRunInto _ | .ocOutputsFree _ => False
  | _ => True

section
variable [Platform] {α β : Type} {g : Held} {L L' : Multiset Resource}

@[simp] theorem protocol_pre (e : Op) : protocol.pre e g = e.Pre g := rfl
@[simp] theorem protocol_env (e : Op) (a : e.Resp) : protocol.env e g a = e.Env g a := rfl
@[simp] theorem protocol_upd (e : Op) (a : e.Resp) : protocol.upd e a g = e.upd g a := rfl

theorem wp_sess {s : Nat} {o : SessOp} {Q : o.Resp → Held → Prop} :
    wp protocol (sess s o) Q g ↔
      (g.inC = none ∧ g.call.session.map (·.id) = some s ∧ o.Pre g s) ∧
        ∀ a, o.Env g a → Q a (o.upd g s a) := Iff.rfl

theorem wp_rt {r : Nat} {o : RtOp} {Q : o.Resp → Held → Prop} :
    wp protocol (rt r o) Q g ↔
      (g.inC = none ∧ o.Pre g r) ∧ ∀ a, o.Env g r a → Q a (o.upd g r a) := Iff.rfl

theorem wp_cb {o : CbOp} {Q : o.Resp → Held → Prop} :
    wp protocol (cb o) Q g ↔ (g.inC = none ∧ o.Pre g) ∧ ∀ a, Q a (o.upd g a) := by
  show _ ∧ (∀ a, True → _) ↔ _
  simp only [forall_const]
  rfl

theorem wp_ctxErr {c : Ctx} {Q : Option CtxError → Held → Prop} :
    wp protocol (ctxErr c) Q g ↔ g.call.ctx = some c ∧
      ∀ a, (∀ e, g.done = some e → a = some e) ∧ (g.canceled → a.isSome) →
        Q a { g with canceled := a.isSome, done := a } := Iff.rfl

/-! ## The helpers of the model -/

theorem wp_deref {o : Option α} {a : α} (h : o = some a) {Q : α → Held → Prop} (hQ : Q a g) :
    wp protocol (deref o) Q g := by
  rw [h]
  exact hQ

theorem wp_rd {l : List α} {i : Nat} {a : α} (h : l[i]? = some a) {Q : α → Held → Prop}
    (hQ : Q a g) : wp protocol (rd l i) Q g := by
  rw [rd, h]
  exact hQ

theorem wp_wr {l : List α} {i : Nat} {a : α} (h : i < l.length) {Q : List α → Held → Prop}
    (hQ : Q (l.set i a) g) : wp protocol (wr l i a) Q g := by
  rw [wr, if_pos h]
  exact hQ

theorem wp_slice {l : List α} {i n : Nat} (h : i + n ≤ l.length) {Q : List α → Held → Prop}
    (hQ : Q ((l.drop i).take n) g) : wp protocol (slice l i n) Q g := by
  rw [slice, if_pos h]
  exact hQ

theorem wp_goSlice {l : List α} {n : Nat} (h : n ≤ l.length) {Q : List α → Held → Prop}
    (hQ : Q (l.take n) g) : wp protocol (goSlice l n) Q g := by
  rw [goSlice, if_neg (by omega)]
  exact wp_slice (by simpa using h) (by simpa using hQ)

/-! ## Native calls -/

/-- A native call releases part of what is owned and acquires what its answer says. -/
theorem wp_nat {o : NativeOp} (ho : o.Plain) (hL : L = o.releases + L') {Q : o.Resp → Held → Prop}
    (hQ : ∀ a, o.Allows a → Q a (g.withLive (o.acquires a + L'))) :
    wp protocol (nat o) Q (g.withLive L) := by
  subst hL
  refine ⟨⟨Multiset.le_add_right _ _, ?_⟩, fun a ha => ?_⟩
  · cases o <;> first | exact ho.elim | trivial
  · have hupd : (Op.nat o).upd (g.withLive (o.releases + L')) a =
        g.withLive (o.acquires a + (o.releases + L' - o.releases)) := by
      cases o <;> first | exact ho.elim | rfl
    rw [protocol_upd, hupd, add_tsub_cancel_left]
    exact hQ a ha

/-- A native call that releases nothing. -/
theorem wp_acquire {o : NativeOp} (ho : o.Plain) (hr : o.releases = 0) {Q : o.Resp → Held → Prop}
    (hQ : ∀ a, o.Allows a → Q a (g.withLive (o.acquires a + L))) :
    wp protocol (nat o) Q (g.withLive L) :=
  wp_nat ho (by simp [hr]) hQ

/-- A native call that only releases. -/
theorem wp_release {o : NativeOp} (ho : o.Plain) (h0 : ∀ a, o.acquires a = 0)
    {Q : o.Resp → Held → Prop} (hQ : ∀ a, Q a (g.withLive L)) :
    wp protocol (nat o) Q (g.withLive (o.releases + L)) :=
  wp_nat ho rfl fun a _ => by simpa [h0] using hQ a

theorem wp_released {o : NativeOp} (ho : o.Plain) (h0 : ∀ a, o.acquires a = 0) :
    wp protocol (nat o) (fun _ g' => g' = g.withLive L) (g.withLive (o.releases + L)) :=
  wp_release ho h0 fun _ => rfl

theorem wp_free {p : Handle} {Q : Unit → Held → Prop} (hQ : Q () (g.withLive L)) :
    wp protocol (nat (.free p)) Q (g.withLive ({.mem p} + L)) :=
  wp_release (by trivial) (fun _ => rfl) fun _ => hQ

/-- A native call that neither acquires nor releases. -/
theorem wp_ask {o : NativeOp} (ho : o.Plain) (hr : o.releases = 0) (h0 : ∀ a, o.acquires a = 0)
    {Q : o.Resp → Held → Prop} (hQ : ∀ a, o.Allows a → Q a (g.withLive L)) :
    wp protocol (nat o) Q (g.withLive L) :=
  wp_acquire ho hr fun a ha => by simpa [h0] using hQ a ha

/-- `p` releases exactly `R`. -/
def Releases (R : Multiset Resource) (p : Act Unit) : Prop :=
  ∀ (g : Held) (L : Multiset Resource),
    wp protocol p (fun _ g' => g' = g.withLive L) (g.withLive (R + L))

theorem wp_releases {R : Multiset Resource} {p : Act Unit} (h : Releases R p)
    {Q : Unit → Held → Prop} (hQ : Q () (g.withLive L)) :
    wp protocol p Q (g.withLive (R + L)) :=
  wp_mono (by rintro ⟨⟩ g' rfl; exact hQ) (h g L)

/-- `if (p) f(p)` where `f` releases `p`. -/
theorem wp_whenSome {p : Option α} {f : α → Act Unit} {c : α → Resource}
    (hf : ∀ a, Releases {c a} (f a)) {Q : Unit → Held → Prop} (hQ : Q () (g.withLive L)) :
    wp protocol (whenSome p f) Q (g.withLive (owned c p + L)) := by
  cases p with
  | none => simpa [whenSome] using hQ
  | some a => exact wp_releases (hf a) hQ

theorem Releases.free (p : Handle) : Releases {.mem p} (nat (.free p)) := fun _ _ =>
  wp_released (by trivial) fun _ => rfl

theorem wp_freePtr {p : Option α} {f : α → Handle} {Q : Unit → Held → Prop}
    (hQ : Q () (g.withLive L)) :
    wp protocol (freePtr (p.map f)) Q (g.withLive (owned (fun a => .mem (f a)) p + L)) := by
  cases p with
  | none => simpa [freePtr, whenSome] using hQ
  | some a => exact wp_releases (Releases.free (f a)) hQ

/-! ## C functions -/

/-- A call of a C function that does not run a model: what it takes over is added. -/
theorem wp_cgo_still {f : CFunc} {body : Act α} {Q : α → Held → Prop} (hf : f.Still)
    (hin : g.inC = none) (hmay : g.MayEnter f)
    (h : wp protocol body
      (fun a g' => ∃ L', g' = (g.within f).withLive L' ∧ Q a ((g.past f).withLive L'))
      ((g.within f).withLive (g.takes f + L))) :
    wp protocol (cgo f body) Q (g.withLive L) := by
  have hphase : ∀ g' : Held, g'.enterPhase f = g'.phase := by
    intro g'
    cases f <;> first | exact hf.elim | rfl
  have hleave : ∀ g' : Held, g'.leavePhase f = g'.phase := by
    intro g'
    cases f <;> first | exact hf.elim | rfl
  have hm : (g.withLive L).MayEnter f := by cases f <;> exact hmay
  have htakes : (g.withLive L).takes f = g.takes f := by cases f <;> rfl
  simp only [cgo, wp_bind, wp_perform, wp_pure, protocol_pre, protocol_env, protocol_upd]
  refine ⟨⟨by simpa using hin, hm⟩, fun _ _ => ?_⟩
  have he : (Op.enter f).upd (g.withLive L) () = (g.within f).withLive (g.takes f + L) := by
    have hshuts : (g.withLive L).shuts f = g.shuts f := by cases f <;> rfl
    have hfrees : (g.withLive L).frees f = g.frees f := by cases f <;> rfl
    unfold Op.upd
    simp only [hphase, htakes, hshuts, hfrees]
    rfl
  rw [he]
  refine wp_mono (fun a g' => ?_) h
  rintro ⟨L', rfl, hQ⟩
  refine ⟨rfl, fun _ _ => ?_⟩
  have hl : (Op.leave f).upd ((g.within f).withLive L') () = (g.past f).withLive L' := by
    unfold Op.upd
    simp only [hleave, Held.withLive, Held.within, Held.past, ← hin]
  rw [hl]
  exact hQ

/-- A call of a C function that only acquires and releases. -/
theorem wp_cgo {f : CFunc} {body : Act α} {Q : α → Held → Prop} (hf : f.Plain) (hin : g.inC = none)
    (hmay : g.MayEnter f)
    (h : wp protocol body (fun a g' => ∃ L', g' = (g.within f).withLive L' ∧ Q a (g.withLive L'))
      ((g.within f).withLive L)) :
    wp protocol (cgo f body) Q (g.withLive L) := by
  have htakes : g.takes f = 0 := by
    cases f <;> first | exact hf.elim | rfl
  have hpast : g.past f = g := by
    cases f <;> first | exact hf.elim | rfl
  refine wp_cgo_still (by cases f <;> first | exact hf.elim | trivial) hin hmay ?_
  rwa [htakes, hpast, zero_add]

end

end Onnxcraft
