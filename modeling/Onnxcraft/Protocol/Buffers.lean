import Onnxcraft.Protocol.Trace

/-!
# The buffers of a call

The descriptor buffers that a call has taken from the pool and put back, read off its events.
-/

namespace Onnxcraft

open Effect

section
variable [Platform] {g : Held} {tr : Trace} {c : Call}

/-- The event takes the buffer `i` from the pool. -/
def takesBuffer (i : Nat) : Event Op Op.Resp → Bool
  | ⟨.pool .get, b⟩ => b.id = i
  | _ => false

/-- The event puts the buffer `i` into the pool. -/
def putsBuffer (i : Nat) (ev : Event Op Op.Resp) : Bool :=
  match ev.1 with
  | .pool (.put b) => b.id = i
  | _ => false

/-- How often a trace takes the buffer `i` from the pool, and puts it back. -/
def bufferGets (i : Nat) (tr : Trace) : Nat := tr.countP (takesBuffer i)

def bufferPuts (i : Nat) (tr : Trace) : Nat := tr.countP (putsBuffer i)

omit [Platform] in
theorem Op.upd_buffer (g : Held) (e : Op) (a : e.Resp) :
    (e.upd g a).buffer = match e, a with
      | .pool .get, b => some b.id
      | .pool (.put _), _ => none
      | _, _ => g.buffer := by
  cases e with
  | sess s o =>
    obtain ⟨_, _, _, _, _, _, _, _, _, h⟩ := o.upd_shape g s a
    have h : (Op.sess s o).upd g a = _ := h
    rw [h]
  | rt r o =>
    obtain ⟨_, _, _, _, _, _, h⟩ := o.upd_shape g r a
    have h : (Op.rt r o).upd g a = _ := h
    rw [h]
  | cb o =>
    obtain ⟨_, _, _, h⟩ := o.upd_shape g a
    have h : (Op.cb o).upd g a = _ := h
    rw [h]
  | nat o =>
    obtain ⟨_, _, h⟩ := Held.nat_upd g o a
    have h : (Op.nat o).upd g a = _ := h
    rw [h]
  | pool o => cases o <;> rfl
  | fault => exact a.elim
  | _ => rfl

/-- A buffer has been taken once more than it has been put back iff the call uses it. -/
theorem buffers_eq (h : protocol.Valid tr (Held.start c)) (i : Nat) :
    bufferGets i tr =
      bufferPuts i tr + if (protocol.after tr (Held.start c)).buffer = some i then 1 else 0 := by
  have := h.count (f := fun g => if g.buffer = some i then 1 else 0) (I := Along c)
    (p := takesBuffer i) (q := putsBuffer i) (.start c) ?_
  · exact this
  intro g e a hg hp _
  refine ⟨hg.step hp, ?_⟩
  rw [protocol_upd, e.upd_buffer g a]
  cases e with
  | pool o =>
    cases o with
    | get =>
      have hp : g.buffer = none := hp
      simp [takesBuffer, putsBuffer, hp]
    | put b =>
      have hp : g.buffer = some b.id := hp.1
      by_cases hi : b.id = i <;> simp [takesBuffer, putsBuffer, hp, hi]
  | _ => simp [takesBuffer, putsBuffer]

/-- Every buffer that is put back is clean. -/
theorem put_clean (h : protocol.Valid tr (Held.start c)) {b : Buffer} {a : Unit}
    (hev : ⟨.pool (.put b), a⟩ ∈ tr) : b.Clean := by
  obtain ⟨pre, post, rfl⟩ := List.append_of_mem hev
  exact (Spec.Valid.pre h).2

end

end Onnxcraft
