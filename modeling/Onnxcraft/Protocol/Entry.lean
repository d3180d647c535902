import Onnxcraft.Effect.Leads
import Onnxcraft.Protocol.Outcome

/-!
# Entering native execution

`Reachable.entering`: when a call is about to enter native execution, the bridge is handed the
descriptors of its tensors in order, the inputs and then the outputs.
-/

namespace Onnxcraft

open Effect

/-- The operations that enter native execution. -/
def Op.Entry (e : Op) : Prop := e.note = some .entry

section
variable [Platform]

namespace Request

/-- What is left of a run that is about to enter native execution. -/
def Entering (q : Request) : Point Op Op.Resp Trace := fun _ p l => noted .entry l = [] →
  ∃ (n : OcSession) (options : Option Handle),
    (q.into = false ∧ Begins (cgo (.ocRun n)
      (Bridge.ocRun n options q.descriptors (q.descriptors.drop q.s.inputs.length))) p) ∨
    (q.into = true ∧ Begins (cgo (.ocRunInto n)
      (Bridge.ocRunInto n options q.descriptors (q.descriptors.drop q.s.inputs.length))) p)

theorem entering_local (q : Request) : q.Entering.Local := by
  intro γ δ p f l h hl
  obtain ⟨n, options, h⟩ := h hl
  refine ⟨n, options, ?_⟩
  rcases h with ⟨hinto, h⟩ | ⟨hinto, h⟩
  · exact .inl ⟨hinto, h.bind f⟩
  · exact .inr ⟨hinto, h.bind f⟩

end Request

variable {q : Request} {l : Trace} {α β : Type}

omit [Platform] in
theorem Op.Entry.noted {e : Op} (h : e.Entry) : e.Noted := by
  rw [Op.Noted, show e.note = some .entry from h]
  rfl

omit [Platform] in
theorem Op.Pins.outside {e : Op} (h : e.Pins) : ¬e.Entry := by
  intro he
  cases e with
  | mem o => cases o <;> first | exact h | cases he
  | fault f => cases he
  | _ => exact h

/-- Code before native execution. -/
theorem entering_step {p : Act α} {f : α → Act β} {Q : α → Trace → Prop}
    (hp : Uses (fun e => ¬e.Entry) p) (h : wp q.logged p Q l)
    (hf : ∀ a l', Q a l' → leads q.logged Op.Entry q.Entering (f a) (fun _ _ => True) l') :
    leads q.logged Op.Entry q.Entering (p >>= f) (fun _ _ => True) l :=
  leads_bind q.entering_local (leads_mono hf (leads_of_wp hp h))

/-- An operation before native execution. -/
theorem entering_perform {e : Op} {f : e.Resp → Act β} (he : ¬e.Entry)
    (hf : ∀ a, q.Knows e l a →
      leads q.logged Op.Entry q.Entering (f a) (fun _ _ => True) (if e.Noted then l ++ [⟨e, a⟩] else l)) :
    leads q.logged Op.Entry q.Entering (Prog.perform e >>= f) (fun _ _ => True) l :=
  ⟨fun h => absurd h he, hf⟩

/-- Once native execution has been entered. -/
theorem entering_past {p : Act α} (hl : noted .entry l ≠ []) :
    leads q.logged Op.Entry q.Entering p (fun _ _ => True) l := by
  apply leads_after (I := fun l => noted .entry l ≠ [])
  · intro γ p l hl h
    exact absurd h hl
  · intro l e a hl
    show noted .entry (if e.Noted then l ++ [⟨e, a⟩] else l) ≠ []
    split
    · simp [hl]
    · exact hl
  · exact hl

theorem entering_fault {f : Fault} :
    leads q.logged Op.Entry q.Entering (fault f : Act β) (fun _ _ => True) l := by
  apply leads_of_uses
  exact fault_uses f (fun h => by cases h)

theorem entering_deref {o : Option α} {f : α → Act β}
    (hf : ∀ a, o = some a → leads q.logged Op.Entry q.Entering (f a) (fun _ _ => True) l) :
    leads q.logged Op.Entry q.Entering (deref o >>= f) (fun _ _ => True) l := by
  cases o with
  | none => exact ⟨fun h => (by cases h), fun a => a.elim⟩
  | some a => exact hf a rfl

namespace Session

theorem runNative_entering {r : Option OcRuntime} {options : Option Handle} :
    leads q.logged Op.Entry q.Entering (q.s.runNative q.ctx r options q.into q.descriptors)
      (fun _ _ => True) l := by
  have hpast : ∀ f, (Op.enter f).note = some .entry → ∀ (l : Trace) (a : Unit),
      noted .entry (q.logged.upd (.enter f) a l) ≠ [] := by
    intro f hf l a
    show noted .entry (if (Op.enter f).Noted then l ++ [⟨.enter f, a⟩] else l) ≠ []
    rw [if_pos (by simp [Op.Noted, hf])]
    simp [hf]
  unfold runNative
  split
  · exact entering_fault
  refine entering_perform (fun h => by cases h) fun a _ => entering_deref fun n _ => ?_
  by_cases hinto : q.into = true
  · rw [if_pos hinto]
    exact ⟨fun _ _ => ⟨n, options, .inr ⟨hinto, _, rfl⟩⟩, fun _ _ => entering_past (hpast (.ocRunInto n) rfl _ _)⟩
  · rw [if_neg hinto]
    exact ⟨fun _ _ => ⟨n, options, .inl ⟨by simpa using hinto, _, rfl⟩⟩,
      fun _ _ => entering_past (hpast (.ocRun n) rfl _ _)⟩

omit [Platform] in
theorem watchContext_outside {c : Ctx} {r : Option OcRuntime} :
    Uses (fun e => ¬e.Entry) (watchContext c r) := by
  have hno : ∀ e : Op, e.note ≠ some .entry → ¬e.Entry := fun _ h => h
  unfold watchContext
  refine (deref_uses _ fun f => hno _ (by simp [Op.note])).bind fun n => ?_
  refine (cgo_uses (hno _ (by simp [Op.note])) (hno _ (by simp [Op.note]))
    (.perform (hno _ (by simp [Op.note])))).bind fun x => ?_
  refine ((nativeError_uses _ x).mono fun e h (he : e.Entry) => h.silent he.noted).bind fun x => ?_
  cases x with
  | error err => exact .pure _
  | ok options =>
    have hcb := hno (.cb (.afterFunc c n options)) (by simp [Op.note])
    exact ⟨hcb, fun _ => trivial⟩

theorem runPinned_entering (hl : ∀ ev ∈ l, ev.1.note = some .context) :
    leads q.logged Op.Entry q.Entering (q.s.runPinned q.ctx q.inputs q.outputs q.into
      (List.replicate q.ports OcTensor.zero)) (fun _ _ => True) l := by
  unfold runPinned
  refine entering_step ((UsesCode.forEach fillDescriptor_uses _ _).mono fun _ h => h.outside)
    fillDescriptors_log ?_
  rintro ⟨⟨ds, index⟩, err | _⟩ l' ⟨rfl, h⟩
  · trivial
  obtain ⟨hds, htyped⟩ := h
  have hds : ds = q.descriptors := by
    rw [show ds = _ from hds, List.drop_replicate]
    rfl
  subst hds
  refine entering_perform (fun h => by cases h) fun r _ => ?_
  split
  next hc =>
    refine entering_step watchContext_outside (watchContext_log hc hl) ?_
    rintro (err | ⟨o, fin⟩) l' ⟨-, hfin⟩
    · trivial
    · exact leads_deferring q.entering_local ((hfin o fin rfl).mono fun e h (he : e.Entry) => h.silent he.noted)
        runNative_entering
  next => exact runNative_entering

theorem runGated_entering (hl : ∀ ev ∈ l, ev.1.note = some .context) :
    leads q.logged Op.Entry q.Entering (q.s.runGated q.ctx q.inputs q.outputs q.into)
      (fun _ _ => True) l := by
  unfold runGated
  split
  · trivial
  split
  · trivial
  split
  · trivial
  next =>
    refine entering_perform (fun h => by cases h) fun b hb => ?_
    simp only [hb.slots]
    exact leads_deferring q.entering_local (.perform fun h => by cases h)
      (leads_deferring q.entering_local (.perform fun h => by cases h)
        (runPinned_entering hl))

theorem runLocked_entering (hl : ∀ ev ∈ l, ev.1.note = some .context) :
    leads q.logged Op.Entry q.Entering (q.s.runLocked q.ctx q.inputs q.outputs q.into)
      (fun _ _ => True) l := by
  unfold runLocked
  refine entering_perform (fun h => by cases h) fun a _ => ?_
  cases a with
  | none => trivial
  | some n =>
  dsimp only
  split
  · refine entering_perform (fun h => by cases h) fun sent _ => ?_
    cases sent with
    | true =>
      refine leads_deferring q.entering_local (.perform fun h => by cases h)
        (entering_perform (fun h => by cases h) fun e _ => ?_)
      cases e with
      | some e => trivial
      | none => exact runGated_entering (contexts_snoc rfl (contexts_snoc rfl hl))
    | false =>
      refine entering_perform (fun h => by cases h) fun e _ => ?_
      cases e <;> trivial
  · exact runGated_entering hl

end Session

/-- **Entering native execution.** -/
theorem run_entering (q : Request) :
    leads q.logged Op.Entry q.Entering q.prog (fun _ _ => True) [] := by
  unfold Request.prog Session.run
  refine entering_perform (fun h => by cases h) fun e _ => ?_
  cases e with
  | some e => trivial
  | none =>
    refine entering_perform (fun h => by cases h) fun _ _ => ?_
    exact leads_deferring q.entering_local (.perform fun h => by cases h)
      (Session.runLocked_entering (by simp [Op.Noted, Op.note]))

/-- The code of a call of `Run` or `RunInto` is that of its request. -/
theorem Call.entering {c : Call} (hc : c.request = some q) :
    leads q.logged Op.Entry q.Entering c.prog (fun _ _ => True) [] := by
  have hrun := run_entering q
  cases c with
  | run s ctx inputs =>
    obtain rfl := Option.some.inj hc
    exact leads_bind (Request.entering_local _) (leads_mono (fun _ _ _ => trivial) hrun)
  | runInto s ctx outputs inputs =>
    obtain rfl := Option.some.inj hc
    refine leads_bind (Request.entering_local _) ?_
    refine leads_bind (Request.entering_local _) (leads_mono ?_ hrun)
    intro res l _
    trivial
  | _ => cases hc

/-- A call that is about to enter native execution. -/
theorem Reachable.entering {σ : Global} {t : Goroutine} (hr : system.Reachable σ)
    (ht : t ∈ σ.threads) (hc : t.call.request = some q) {e : Op} (he : t.rest.next = some e)
    (hentry : e.Entry) : q.Entering Ret t.rest (marked Op.Noted t.trace) := by
  have h := leads_runs (hr.runs t ht) (Call.entering hc)
    (logged_allows (Reachable.valid hr ht) hc) he hentry
  unfold Request.logged at h
  rwa [logs_after, List.nil_append] at h

end

end Onnxcraft
