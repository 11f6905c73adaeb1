import AssignmentSearch.Fault

/-!
# Attempts

Computations that change a state and may fail. A failing attempt keeps the state it had reached.
-/

namespace AssignmentSearch

/-- A computation over a state that may fail; the state reached before a failure is kept. -/
abbrev Attempt (σ β : Type) := ExceptT Fault (StateM σ) β

namespace Attempt

variable {σ τ β γ : Type}

/-- The answer or fault of an attempt, and the state after it. -/
def start (x : Attempt σ β) (s : σ) : Except Fault β × σ := x s

def of (f : σ → Except Fault β × σ) : Attempt σ β := f

/-- An answer or a fault that leaves the state alone. -/
def lift (x : Except Fault β) : Attempt σ β := fun s => (x, s)

/-- Runs an attempt on a part of the state. -/
def zoom (get : σ → τ) (set : τ → σ → σ) (x : Attempt τ β) : Attempt σ β := fun s =>
  let (r, t) := x (get s)
  (r, set t s)

/-- The outcome of an attempt as a value; the whole never fails. -/
def outcome (x : Attempt σ β) : Attempt σ (Except Fault β) := fun s =>
  let (r, t) := x s
  (.ok r, t)

@[simp] theorem start_pure (a : β) (s : σ) : (pure a : Attempt σ β).start s = (.ok a, s) := rfl

@[simp] theorem start_lift (x : Except Fault β) (s : σ) : (lift x : Attempt σ β).start s = (x, s) :=
  rfl

@[simp] theorem start_of (f : σ → Except Fault β × σ) (s : σ) : (of f).start s = f s := rfl

/-- After an answer the next attempt goes on from the state reached; a fault ends the whole. -/
theorem start_bind (x : Attempt σ β) (f : β → Attempt σ γ) (s : σ) :
    (x >>= f).start s = match x.start s with
      | (.ok a, t) => (f a).start t
      | (.error e, t) => (.error e, t) := by
  simp only [start, bind, ExceptT.bind, ExceptT.mk, StateT.bind]
  rcases x s with ⟨r, t⟩
  cases r <;> rfl

end Attempt

end AssignmentSearch
