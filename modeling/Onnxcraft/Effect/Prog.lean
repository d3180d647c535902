import Mathlib.Logic.Relation

/-!
# Effectful programs

`Prog E R α` is a program that performs operations of `E`, is answered an `R e` for each
operation `e`, and ends with an `α`: the free monad over the signature `(E, R)`. Nothing is said
here about what an operation does: a semantics is a step function of some world
(`Effect.System`), a specification is a `Effect.Spec`.

`Runs p tr q`: after the events `tr` (operations with their answers, in order) `q` is left of
`p`. Loops are folds over a list; a deferred clean-up is `deferring`. `Code` is a program with
local variables and a failure label: the variables survive the jump to it.
-/

namespace Effect

/-- A program over the operations `E`; operation `e` is answered by an `R e`. -/
inductive Prog (E : Type) (R : E → Type) (α : Type) : Type where
  | ret (a : α) : Prog E R α
  | op (e : E) (k : R e → Prog E R α) : Prog E R α

/-- An operation with its answer. -/
abbrev Event (E : Type) (R : E → Type) : Type := (e : E) × R e

variable {E : Type} {R : E → Type} {α β σ ε : Type}

namespace Prog

def bind : Prog E R α → (α → Prog E R β) → Prog E R β
  | .ret a, f => f a
  | .op e k, f => .op e fun r => (k r).bind f

instance : Monad (Prog E R) where
  pure := .ret
  bind := .bind

@[simp] theorem pure_eq_ret (a : α) : (pure a : Prog E R α) = .ret a := rfl
@[simp] theorem ret_bind (a : α) (f : α → Prog E R β) : (Prog.ret a >>= f) = f a := rfl
@[simp] theorem op_bind (e : E) (k : R e → Prog E R α) (f : α → Prog E R β) :
    (Prog.op e k >>= f) = .op e fun r => k r >>= f := rfl

theorem bind_assoc {γ : Type} (p : Prog E R α) (f : α → Prog E R β) (g : β → Prog E R γ) :
    (p >>= f) >>= g = p >>= fun a => f a >>= g := by
  induction p with
  | ret a => rfl
  | op e k ih => exact congrArg (Prog.op e) (funext ih)

/-- The program that performs one operation and returns its answer. -/
def perform (e : E) : Prog E R (R e) := .op e .ret

/-- What a finished program has returned. -/
def value : Prog E R α → Option α
  | .ret a => some a
  | .op _ _ => none

theorem value_eq {p : Prog E R α} {a : α} : p.value = some a ↔ p = .ret a := by
  cases p <;> simp [value]

/-- The operation that a program performs next. -/
def next : Prog E R α → Option E
  | .ret _ => none
  | .op e _ => some e

theorem next_eq {p : Prog E R α} {e : E} : p.next = some e ↔ ∃ k, p = .op e k := by
  cases p with
  | ret a => simp [next]
  | op e' k =>
    simp only [next, Option.some.injEq]
    constructor
    · rintro rfl
      exact ⟨k, rfl⟩
    · rintro ⟨k', h⟩
      exact (Prog.op.inj h).1

@[simp] theorem next_map (f : α → β) (p : Prog E R α) : (f <$> p).next = p.next := by
  cases p <;> rfl

/-- `body`, then `cleanup` whatever `body` returned. -/
def deferring (cleanup : Prog E R Unit) (body : Prog E R α) : Prog E R α := do
  let a ← body
  cleanup
  return a

/-- `body x st` for every `x` of the list in turn, over the state `st`. -/
def fold (body : α → σ → Prog E R σ) : List α → σ → Prog E R σ
  | [], st => return st
  | x :: xs, st => do fold body xs (← body x st)

end Prog

/-- Code over the local variables `σ` that may jump to its failure label with an `ε`; the
variables keep their values at the jump. -/
def Code (E : Type) (R : E → Type) (σ ε α : Type) : Type := σ → Prog E R (σ × Except ε α)

namespace Code

instance : Monad (Code E R σ ε) where
  pure a := fun st => return (st, .ok a)
  bind x f := fun st => do
    match ← x st with
    | (st', .ok a) => f a st'
    | (st', .error e) => return (st', .error e)

def get : Code E R σ ε σ := fun st => return (st, .ok st)
def modify (f : σ → σ) : Code E R σ ε Unit := fun st => return (f st, .ok ())
def fail (e : ε) : Code E R σ ε α := fun st => return (st, .error e)
def lift (p : Prog E R α) : Code E R σ ε α := fun st => do return (st, .ok (← p))

/-- Performs a fallible call and jumps to the failure label with its error. -/
def check (p : Prog E R (Except ε α)) : Code E R σ ε α := fun st => do return (st, ← p)

/-- `body` for every element in turn. -/
def forEach (body : β → Code E R σ ε Unit) : List β → Code E R σ ε Unit
  | [] => pure ()
  | x :: xs => do body x; forEach body xs

/-- The outcome of code whose variables are dropped at its end. -/
def run (c : Code E R σ ε α) (st : σ) : Prog E R (Except ε α) := do return (← c st).2

end Code

/-- After the events `tr`, `q` is left of `p`. -/
inductive Runs : Prog E R α → List (Event E R) → Prog E R α → Prop
  | nil (p : Prog E R α) : Runs p [] p
  | cons {e : E} {k : R e → Prog E R α} {r : R e} {tr : List (Event E R)} {q : Prog E R α} :
      Runs (k r) tr q → Runs (.op e k) (⟨e, r⟩ :: tr) q

theorem Runs.snoc {p : Prog E R α} {tr : List (Event E R)} {e : E} {k : R e → Prog E R α}
    (h : Runs p tr (.op e k)) (r : R e) : Runs p (tr ++ [⟨e, r⟩]) (k r) := by
  generalize hq : Prog.op e k = q at h
  induction h with
  | nil p => subst hq; exact .cons (.nil _)
  | cons _ ih => exact .cons (ih hq)

theorem Runs.op_inv {e : E} {k : R e → Prog E R α} {ev : Event E R} {tr : List (Event E R)}
    {q : Prog E R α} (h : Runs (.op e k) (ev :: tr) q) : ∃ r, ev = ⟨e, r⟩ ∧ Runs (k r) tr q := by
  cases h with
  | cons h => exact ⟨_, rfl, h⟩

theorem Runs.ret_inv {a : α} {tr : List (Event E R)} {q : Prog E R α}
    (h : Runs (.ret a) tr q) : tr = [] ∧ q = .ret a := by
  cases h
  exact ⟨rfl, rfl⟩

end Effect
