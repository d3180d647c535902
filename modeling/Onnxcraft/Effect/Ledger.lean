import Onnxcraft.Effect.Interleave
import Onnxcraft.Effect.Total
import Mathlib.Algebra.BigOperators.Group.Finset.Basic

/-!
# Ledgers

Over all interleavings, what the threads have acquired is what they have released, what they still
hold, and what the world keeps. `Ledger` is the rule: every step balances. What the world keeps is
usually a sum over its entries, of which a step changes one (`sum_except`).
-/

namespace Effect

variable {W C V E : Type} {R : E → Type} {α G M : Type} [AddCancelCommMonoid M]

/-! ## Sums over entries -/

/-- A sum of which one entry is exchanged. -/
theorem sum_except {n i : Nat} {f f' : Nat → M} (hi : i < n) (h : ∀ j, j ≠ i → f' j = f j) :
    ∑ j ∈ Finset.range n, f' j + f i = ∑ j ∈ Finset.range n, f j + f' i := by
  have hmem : i ∈ Finset.range n := Finset.mem_range.2 hi
  have hrest : ∑ j ∈ (Finset.range n).erase i, f' j = ∑ j ∈ (Finset.range n).erase i, f j :=
    Finset.sum_congr rfl fun j hj => h j (Finset.ne_of_mem_erase hj)
  rw [← Finset.sum_erase_add _ f' hmem, ← Finset.sum_erase_add _ f hmem, hrest]
  exact add_right_comm _ _ _

/-- The sum over the entries of a list. -/
theorem sum_entries {β : Type} (f : β → M) (l : List β) :
    ∑ i ∈ Finset.range l.length, (l[i]?).elim 0 f = total f l := by
  induction l using List.reverseRecOn with
  | nil => rfl
  | append_singleton l b ih =>
    rw [List.length_append, List.length_singleton, Finset.sum_range_succ, total_append]
    congr 1
    · rw [← ih]
      refine Finset.sum_congr rfl fun i hi => ?_
      rw [List.getElem?_append_left (Finset.mem_range.1 hi)]
    · simp

/-! ## Tables

`native x` is the entry of `x`, if it has one; `f` says which entry a holder has taken over. -/

section
variable {β : Type} {res : β → M} {native native' : Nat → Option β} {f : G → Option Nat}
  {gs : List G} {g g' : G} {i n x : Nat} {b : β}

/-- What the table keeps for `x`: its entry, unless a holder has taken it over. -/
def keeps (res : β → M) (native : Nat → Option β) (f : G → Option Nat) (gs : List G) (x : Nat) : M :=
  if holders f gs x = 0 then (native x).elim 0 res else 0

theorem keeps_same (hg : gs[i]? = some g) (hf : f g' = f g) (hn : native' x = native x) :
    keeps res native' f (gs.set i g') x = keeps res native f gs x := by
  unfold keeps
  rw [holders_set_iff hg (by rw [hf]), hn]

theorem keeps_snoc (hf : f g = none) (hn : native' x = native x) :
    keeps res native' f (gs ++ [g]) x = keeps res native f gs x := by
  unfold keeps
  rw [holders_snoc, hf, hn]
  rfl

/-- An entry that is taken out after it has been taken over. -/
theorem keeps_out (hg : gs[i]? = some g) (hf : f g = some x) (hf' : f g' = f g) :
    keeps res native' f (gs.set i g') x = keeps res native f gs x := by
  have hpos := holders_pos hg hf
  unfold keeps
  rw [holders_set_iff hg (by rw [hf']), if_neg (by omega), if_neg (by omega)]

/-- A holder takes the entry of `x` over. -/
theorem sum_take (res : β → M) (native : Nat → Option β) (f : G → Option Nat) (g' : G)
    (hg : gs[i]? = some g) (hx : x < n) (hfree : holders f gs x = 0)
    (hn : native x = some b) (hf : f g = none) (hf' : f g' = some x) :
    res b + ∑ y ∈ Finset.range n, keeps res native f (gs.set i g') y =
      ∑ y ∈ Finset.range n, keeps res native f gs y := by
  have hone : holders f (gs.set i g') x = holders f gs x + 1 :=
    holders_take hg (by rw [hf]; exact fun h => by cases h) hf'
  have hbefore : keeps res native f gs x = res b := by
    unfold keeps
    rw [if_pos hfree, hn]
    rfl
  have hafter : keeps res native f (gs.set i g') x = 0 := if_neg (by omega)
  have hother : ∀ y, y ≠ x → keeps res native f (gs.set i g') y = keeps res native f gs y := by
    intro y hy
    unfold keeps
    rw [holders_set_iff hg]
    rw [hf, hf', Option.some.injEq]
    exact iff_of_false (Ne.symm hy) fun h => by cases h
  have hsum := sum_except hx hother
  rw [hbefore, hafter, add_zero] at hsum
  rw [add_comm]
  exact hsum

/-- The table gets an entry. -/
theorem sum_new (res : β → M) (native native' : Nat → Option β) (f : G → Option Nat) (g' : G) (b : β)
    (hg : gs[i]? = some g) (hf : f g' = f g) (hfree : holders f gs n = 0)
    (hold : ∀ y < n, native' y = native y) (hn : native' n = some b) :
    ∑ y ∈ Finset.range (n + 1), keeps res native' f (gs.set i g') y =
      ∑ y ∈ Finset.range n, keeps res native f gs y + res b := by
  rw [Finset.sum_range_succ]
  congr 1
  · exact Finset.sum_congr rfl fun y hy => keeps_same hg hf (hold y (Finset.mem_range.1 hy))
  · unfold keeps
    rw [holders_set_iff hg (by rw [hf]), if_pos hfree, hn]
    rfl

end

/-! ## The rule -/

/-- The sum of `f` over what a thread has done. -/
def Thread.tally (f : (e : E) → R e → M) (t : Thread C E R α) : M :=
  total (fun ev => f ev.1 ev.2) t.trace

/-- The sum over what all threads have done. -/
def State.tally (f : (e : E) → R e → M) (σ : State W C E R α) : M :=
  total (Thread.tally f) σ.threads

section
variable {f : (e : E) → R e → M} {σ : State W C E R α} {w : W} {i : Nat} {t : Thread C E R α}

theorem State.tally_next {e : E} {k : R e → Prog E R α} {r : R e} (ht : σ.threads[i]? = some t) :
    State.tally f ⟨w, σ.threads.set i (t.next k r)⟩ = σ.tally f + f e r := by
  have hnext : (t.next k r).tally f = t.tally f + f e r := by simp [Thread.tally]
  refine add_right_cancel (b := t.tally f) ((total_set ht).trans ?_)
  rw [hnext, State.tally]
  abel

theorem State.tally_start {p : Prog E R α} {c : C} :
    State.tally f ⟨w, σ.threads ++ [⟨c, p, []⟩]⟩ = σ.tally f := by
  simp [State.tally, Thread.tally]

end

/-- What is acquired is released, held by a thread (`live`, by its ghost state), or kept by the
world (`kept`), whatever step is taken. -/
structure Ledger (S : System W C V E R α) (P : Spec E R G) (g0 : C → G)
    (acquires releases : (e : E) → R e → M) (live : G → M) (kept : W → List G → M) : Prop where
  init : kept S.init [] = 0
  act : ∀ {σ : State W C E R α} {i : Nat} {t : Thread C E R α} {e : E} {k : R e → Prog E R α}
    {r : R e} {w' : W} {g : G}, S.Reachable σ → σ.threads[i]? = some t → t.rest = .op e k →
    S.act e r σ.world = some w' → g = t.ghost P g0 →
    acquires e r + live g + kept σ.world (σ.ghosts P g0) =
      releases e r + live (P.upd e r g) + kept w' ((σ.ghosts P g0).set i (P.upd e r g))
  start : ∀ {w : W} {c : C} {w' : W} (gs : List G), S.start c w = some w' →
    live (g0 c) = 0 ∧ kept w' (gs ++ [g0 c]) = kept w gs
  move : ∀ {w : W} {v : V} {w' : W} (gs : List G), S.move v w = some w' → kept w' gs = kept w gs

section
variable {S : System W C V E R α} {P : Spec E R G} {g0 : C → G}
  {acquires releases : (e : E) → R e → M} {live : G → M} {kept : W → List G → M}
  {σ : State W C E R α}

/-- **The rule.** -/
theorem Ledger.balance (h : Ledger S P g0 acquires releases live kept) (hr : S.Reachable σ) :
    σ.tally acquires =
      σ.tally releases + total live (σ.ghosts P g0) + kept σ.world (σ.ghosts P g0) := by
  induction hr with
  | init =>
    show (0 : M) = 0 + 0 + kept S.init []
    rw [h.init, add_zero, add_zero]
  | @step σ σ' l hr hs ih =>
    cases hs with
    | @act i t e k r w' ht hk ha =>
      have hstep := h.act hr ht hk ha rfl
      have hget : (σ.ghosts P g0)[i]? = some (t.ghost P g0) := State.ghosts_get ht
      have hlive := total_set (f := live) (b := P.upd e r (t.ghost P g0)) hget
      rw [State.tally_next ht, State.tally_next ht, State.ghosts_set, Thread.ghost_next, ih]
      -- cancel what the thread held before the step
      refine add_right_cancel (b := live (t.ghost P g0)) ?_
      calc _ = σ.tally releases + total live (σ.ghosts P g0) +
            (acquires e r + live (t.ghost P g0) + kept σ.world (σ.ghosts P g0)) := by abel
        _ = σ.tally releases + releases e r + (total live (σ.ghosts P g0) +
            live (P.upd e r (t.ghost P g0))) +
            kept w' ((σ.ghosts P g0).set i (P.upd e r (t.ghost P g0))) := by rw [hstep]; abel
        _ = _ := by rw [← hlive]; abel
    | @start c w' hs =>
      obtain ⟨hlive, hkept⟩ := h.start (σ.ghosts P g0) hs
      have hg : (⟨c, S.prog c, []⟩ : Thread C E R α).ghost P g0 = g0 c := rfl
      rw [State.tally_start, State.tally_start, State.ghosts_append, hg, hkept, total_append,
        total_cons, hlive, ih]
      simp
    | move hm =>
      have hkept := h.move (σ.ghosts P g0) hm
      exact ih.trans (congrArg _ hkept.symm)

end

end Effect
