import AssignmentSearch.Datum.Scalar
import AssignmentSearch.Journal
import AssignmentSearch.Solution.Basic

/-!
# Strategies

A strategy says when the search ends and how its own state changes with every step. To solutions of
one kind or of all it says how likely one that is not better is accepted: it is handed the candidate
and the current solution and may look at their mappings as well as at their costs.
-/

namespace AssignmentSearch

/-- The rules of a search, over a state `σ`. -/
class Strategy (α : outParam Type) (σ : Type) where
  name : σ → String
  /-- Whether the search is to end; a fault if the state has lost its order. -/
  stops : σ → Except Fault Bool
  /-- The state of the next step; a fault leaves the present one. -/
  age : σ → Except Fault σ
  /-- What is reported of a state just reached by ageing. -/
  note : σ → Option Entry
  /-- The scalars of the state. -/
  state : σ → List (String × Datum)

/-- How a strategy takes to candidates of a type `β`. -/
class Acceptance (α : outParam Type) (σ β : Type) where
  /-- The probability of taking a candidate that is not better than the current one. -/
  acceptance : σ → (candidate current : β) → Except Fault (Scalar α)

/-- What has a cost, unless that cannot be computed. -/
class Costed (α : outParam Type) (β : Type) where
  costOf : β → Except Fault α

instance {α τ ρ : Type} [Quantity α] : Costed α (Solution α τ ρ) := ⟨Solution.costValue⟩

/-- A bare cost stands for whatever costs as much. -/
instance {α : Type} : Costed α (Except Fault α) := ⟨id⟩

namespace Strategy

export Acceptance (acceptance)

/-- Ages a state several times; a fault ends it at the state reached. -/
def ageBy {α σ : Type} [Strategy α σ] : Nat → Attempt σ Unit
  | 0 => return
  | n + 1 => do
    set (← Attempt.lift (age (← get)))
    ageBy n

end Strategy

end AssignmentSearch
