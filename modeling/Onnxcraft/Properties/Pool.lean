import Onnxcraft.Properties.Entry
import Onnxcraft.Properties.Ownership
import Onnxcraft.Protocol.Buffers
import Onnxcraft.Protocol.Outcome
import Onnxcraft.Protocol.Twin

/-!
# The descriptor pool

A pooled buffer is zero over its whole capacity, whatever the runs that have used it have left
behind, and nobody uses it (`pool_hygiene`). A run is not influenced by the buffer that it gets
(`run_independent`).
-/

namespace Onnxcraft

open Effect

/-- The goroutine has taken the buffer `i` from the pool and not put it back. -/
def Owns (t : Goroutine) (i : Nat) : Prop := bufferPuts i t.trace < bufferGets i t.trace

/-- What a trace has acquired, an event of it has. -/
theorem mem_acquired {x : Resource} {tr : Trace} (h : x ∈ acquired tr) :
    ∃ ev ∈ tr, x ∈ ev.1.acquires ev.2 := by
  induction tr with
  | nil => cases h
  | cons ev tr ih =>
    rw [acquired, total_cons, Multiset.mem_add] at h
    rcases h with h | h
    · exact ⟨ev, List.mem_cons_self, h⟩
    · obtain ⟨ev', hev', hx⟩ := ih h
      exact ⟨ev', List.mem_cons_of_mem _ hev', hx⟩

section
variable [Platform] {σ : Global} {t : Goroutine}

theorem owns_iff (hr : system.Reachable σ) (ht : t ∈ σ.threads) (i : Nat) :
    Owns t i ↔ (held t).buffer = some i := by
  have h := buffers_eq (Reachable.valid hr ht) i
  unfold Owns
  rw [h]
  show _ < _ + (if (held t).buffer = some i then 1 else 0) ↔ _
  split
  next hb => exact ⟨fun _ => hb, fun _ => Nat.lt_succ_self _⟩
  next hb => exact ⟨fun h => absurd h (lt_irrefl _), fun h => absurd h hb⟩

/-- A buffer comes out of the pool clean. -/
theorem taken_clean (hr : system.Reachable σ) (ht : t ∈ σ.threads) {b : Buffer}
    (hb : ⟨.pool .get, b⟩ ∈ t.trace) : b.Clean := by
  obtain ⟨tr, tr', htr⟩ := List.append_of_mem hb
  have hv := Reachable.valid hr ht
  rw [htr] at hv
  exact (Spec.valid_append.1 hv).2.1.2

/-- A value that a run releases it has got from ORT before. -/
theorem released_own (hr : system.Reachable σ) (ht : t ∈ σ.threads) (hrun : t.call.ctx.isSome)
    {tr tr' : Trace} {v : Handle} (htr : t.trace = tr ++ ⟨.nat (.releaseValue v), ()⟩ :: tr') :
    ∃ ev ∈ tr, .value v ∈ ev.1.acquires ev.2 := by
  have hsplit : t.trace = (tr ++ [⟨.nat (.releaseValue v), ()⟩]) ++ tr' := by simp [htr]
  have hacquired : acquired (tr ++ [⟨.nat (.releaseValue v), ()⟩]) = acquired tr := by
    rw [acquired, total_append, total_cons, total_nil, add_zero]
    exact add_zero _
  have hreleased : released (tr ++ [⟨.nat (.releaseValue v), ()⟩]) = released tr + {.value v} := by
    rw [released, total_append, total_cons, total_nil, add_zero]
    rfl
  have hle := (run_releases hr ht hrun).1 _ _ hsplit
  rw [hacquired, hreleased] at hle
  exact mem_acquired (Multiset.mem_of_le hle (Multiset.mem_add.2 (.inr (Multiset.mem_singleton_self _))))

/-- **The descriptor pool.** In every reachable state a pooled buffer is zero over its whole
capacity and owned by nobody, a buffer is owned by one goroutine at most, and whatever a run takes
from the pool is clean, so that it releases only values that it has got itself. -/
theorem pool_hygiene (hr : system.Reachable σ) :
    (∀ b ∈ σ.world.pool, b.Clean ∧ (σ.world.pool.map (·.id)).count b.id = 1 ∧
      ∀ t ∈ σ.threads, ¬Owns t b.id) ∧
    (∀ (i j : Nat) (t t' : Goroutine) (b : Nat), σ.threads[i]? = some t → σ.threads[j]? = some t' →
      Owns t b → Owns t' b → i = j) ∧
    ∀ t ∈ σ.threads, t.call.ctx.isSome →
      (∀ b, ⟨.pool .get, b⟩ ∈ t.trace → b.Clean) ∧
      (∀ b, ⟨.pool (.put b), ()⟩ ∈ t.trace → b.Clean) ∧
      (∀ res b, t.rest = .ret res → ¬Owns t b) ∧
      ∀ tr v tr', t.trace = tr ++ ⟨.nat (.releaseValue v), ()⟩ :: tr' →
        ∃ ev ∈ tr, .value v ∈ ev.1.acquires ev.2 := by
  have hpool := (Reachable.inv hr).pool
  refine ⟨fun b hb => ?_, fun i j t t' b hi hj ho ho' => ?_, fun t ht hrun => ?_⟩
  · have hone := hpool.one b.id
    have hin : 0 < (σ.world.pool.map (·.id)).count b.id :=
      List.count_pos_iff.2 (List.mem_map_of_mem hb)
    refine ⟨hpool.clean b hb, by omega, fun t ht ho => ?_⟩
    obtain ⟨i, hi⟩ := List.mem_iff_getElem?.1 ht
    have := holders_pos (Reachable.held_get hi) ((owns_iff hr ht b.id).1 ho)
    omega
  · have hle : holders Held.buffer (σ.threads.map held) b ≤ 1 := by
      have := hpool.one b
      omega
    exact holder_unique hle (Reachable.held_get hi) (Reachable.held_get hj)
      ((owns_iff hr (List.mem_of_getElem? hi) b).1 ho)
      ((owns_iff hr (List.mem_of_getElem? hj) b).1 ho')
  · refine ⟨fun b hb => taken_clean hr ht hb, fun b hb => ?_, fun res b hret ho => ?_,
      fun tr v tr' htr => released_own hr ht hrun htr⟩
    · obtain ⟨tr, tr', htr⟩ := List.append_of_mem hb
      have hv := Reachable.valid hr ht
      rw [htr] at hv
      exact hv.pre.2
    · have hidle := (Reachable.ends hr ht hret).idle.buffer
      rw [(owns_iff hr ht b).1 ho] at hidle
      cases hidle

/-! ## Independence -/

/-- Two goroutines that are answered alike. -/
theorem alike_answered {σ' : Global} {t' : Goroutine} (hr : system.Reachable σ)
    (hr' : system.Reachable σ') (ht : t ∈ σ.threads) (ht' : t' ∈ σ'.threads)
    (ha : Alike t.trace t'.trace) : Lockstep.Answered Corresponds t.trace t'.trace := by
  intro i ev ev' A hev hev' hm
  have hlike : Likewise ev ev' := ha (ev, ev')
    (List.mem_of_getElem? (List.getElem?_zip_eq_some.2 ⟨hev, hev'⟩))
  obtain ⟨e, a⟩ := ev
  obtain ⟨e', a'⟩ := ev'
  cases hm with
  | shared he => exact hlike.1 rfl he
  | get => exact ⟨taken_clean hr ht (List.mem_of_getElem? hev),
      taken_clean hr' ht' (List.mem_of_getElem? hev')⟩
  | put _ _ => trivial
  | afterFunc c r o => trivial
  | stop id id' => exact hlike.2 _ rfl _ rfl
  | recvDone id id' => trivial

/-- Runs of one request keep step. -/
theorem Reachable.twins {σ' : Global} {t' : Goroutine} {q : Request} {ret ret' : Ret}
    (hr : system.Reachable σ) (hr' : system.Reachable σ') (ht : t ∈ σ.threads)
    (ht' : t' ∈ σ'.threads) (hc : t.call.request = some q) (hc' : t'.call.request = some q)
    (hret : t.rest = .ret ret) (hret' : t'.rest = .ret ret') (ha : Alike t.trace t'.trace) :
    List.Forall₂ (Lockstep.Paired Corresponds) t.trace t'.trace ∧ ret = ret' := by
  obtain ⟨p, hruns, -, hend⟩ := Call.request_inv hc (hr.runs t ht)
  obtain ⟨p', hruns', -, hend'⟩ := Call.request_inv hc' (hr'.runs t' ht')
  obtain ⟨res, rfl, rfl⟩ := hend ret hret
  obtain ⟨res', rfl, rfl⟩ := hend' ret' hret'
  obtain ⟨htr, rfl⟩ := (run_twin q).finished hruns hruns' (alike_answered hr hr' ht ht' ha)
  exact ⟨htr, rfl⟩

/-- **Independence.** Two runs of one request, in any two executions, that are answered alike have
done the same, but for their buffers and callbacks, and return the same. -/
theorem run_independent {σ' : Global} {t' : Goroutine} {q : Request} {ret ret' : Ret}
    (hr : system.Reachable σ) (hr' : system.Reachable σ') (ht : t ∈ σ.threads)
    (ht' : t' ∈ σ'.threads) (hc : t.call.request = some q) (hc' : t'.call.request = some q)
    (hret : t.rest = .ret ret) (hret' : t'.rest = .ret ret') (ha : Alike t.trace t'.trace) :
    List.Forall₂ (Lockstep.Paired Corresponds) t.trace t'.trace ∧ ret = ret' :=
  Reachable.twins hr hr' ht ht' hc hc' hret hret' ha

end

open Sample in
theorem pool_hygiene_sample : (system.played (ran true)).world.pool ≠ [] ∧
    ∀ b ∈ (system.played (ran true)).world.pool, b.Clean :=
  ⟨by decide +kernel, fun b hb => ((pool_hygiene (System.played_reachable (ran true))).1 b hb).1⟩

namespace Sample

/-- The answers that goroutine `k - 1` is given. -/
def answers (k : Nat) (σ : Global) (i : Nat) (e : Op) : Option e.Resp :=
  σ.world.answer (k + 100 * ((σ.threads[i]?).map (·.trace.length)).getD 0) e

/-- The model is run again, answered as it was the first time. -/
def reran : List Cue :=
  ran false ++ [.start (.run (session false) ctx [scalar 8192]), .steps 3 36 (answers 3)]

/-- The first run, where nothing else has happened, and the second one, after it. -/
def once : Goroutine := (system.played (ran false)).threads.get ⟨2, by decide +kernel⟩

def again : Goroutine := (system.played reran).threads.get ⟨3, by decide +kernel⟩

theorem once_mem : once ∈ (system.played (ran false)).threads := List.get_mem _ _

theorem again_mem : again ∈ (system.played reran).threads := List.get_mem _ _

def onceDone : Returned once (.run (session false) ctx [scalar 8192]) := .of (by decide +kernel)

def againDone : Returned again (.run (session false) ctx [scalar 8192]) := .of (by decide +kernel)

end Sample

open Sample in
theorem run_independent_sample : ∃ ret, once.rest = .ret ret ∧ again.rest = .ret ret := by
  obtain ⟨hcall, ret, hret⟩ := onceDone
  obtain ⟨hcall', ret', hret'⟩ := againDone
  obtain ⟨-, rfl⟩ := run_independent (q := asked) (System.played_reachable (ran false))
    (System.played_reachable reran) once_mem again_mem (by rw [hcall]; rfl) (by rw [hcall']; rfl)
    hret hret' (by decide +kernel)
  exact ⟨ret, hret, hret'⟩

end Onnxcraft
