import AssignmentSearch.Datum.Convert
import AssignmentSearch.Attempt
import AssignmentSearch.Mapping.Key

/-!
# Cost models

What a mapping costs. The usual model charges each resource in use its capacity less the demands of
its tasks; resources without tasks cost nothing.
-/

namespace AssignmentSearch

/-- The cost of one resource with its tasks, the cost of a whole mapping, and the name of the
solutions that are judged by them. -/
structure CostModel (α τ ρ : Type) where
  name : String
  resourceCost : ρ → List τ → Except Fault α
  total : Mapping τ ρ → Except Fault α

namespace CostModel

variable {α τ ρ : Type} [Quantity α]

/-- Adds amounts from the left, beginning at zero; the first fault ends the sum. -/
def sum {β : Type} (amount : β → Except Fault α) : α → List β → Except Fault α
  | acc, [] => .ok acc
  | acc, x :: rest => do sum amount (acc + (← amount x)) rest

def overGroups [BEq ρ] [Key ρ] (cost : ρ → List τ → Except Fault α) (m : Mapping τ ρ) :
    Except Fault α := do
  sum (fun g => cost g.1 g.2) Quantity.zero (← m.groupsByKey)

def spareOf (demand : τ → Except Fault α) (capacity : ρ → Except Fault α) (r : ρ) (ts : List τ) :
    Except Fault α := do
  let c ← capacity r
  return c - (← sum demand Quantity.zero ts)

/-- Charges each resource in use what is spare of it. -/
def spare [BEq ρ] [Key ρ] (name : String) (demand : τ → Except Fault α)
    (capacity : ρ → Except Fault α) : CostModel α τ ρ :=
  ⟨name, spareOf demand capacity, overGroups (spareOf demand capacity)⟩

def squareOf (demand : τ → Except Fault α) (capacity : ρ → Except Fault α) (r : ρ) (ts : List τ) :
    Except Fault α := do
  match Quantity.square? (← spareOf demand capacity r ts) with
  | some cost => .ok cost
  | none => .error .squareTooLarge

/-- Charges each resource in use the square of what is spare of it. -/
def squared [BEq ρ] [Key ρ] (name : String) (demand : τ → Except Fault α)
    (capacity : ρ → Except Fault α) : CostModel α τ ρ :=
  ⟨name, squareOf demand capacity, overGroups (squareOf demand capacity)⟩

def fixed (name : String) (cost : Except Fault α) : CostModel α τ ρ :=
  ⟨name, fun _ _ => cost, fun _ => cost⟩

end CostModel

/-- A computed cost and whether it still holds. -/
structure CostCache (β : Type) where
  value : β
  valid : Bool
  deriving Repr

namespace CostCache

variable {β : Type}

/-- The value stays but no longer holds. -/
def invalidate (c : CostCache β) : CostCache β := { c with valid := false }

def store (value : β) : CostCache β := ⟨value, true⟩

end CostCache

/-- A cache as it was entered: its number and its flag may be any values until they are set. -/
structure EnteredCache where
  value : Datum
  valid : Datum

namespace EnteredCache

def invalidate (c : EnteredCache) : EnteredCache := { c with valid := .bool false }

/-- Stores the double made of a value; a value that makes none leaves the cache as it is. -/
def store (given : Datum) : Attempt EnteredCache Float := do
  let x ← Attempt.lift given.toFloat
  set (⟨.float x, .bool true⟩ : EnteredCache)
  return x

def text (c : EnteredCache) : String :=
  "CachedCost(value=" ++ c.value.text ++ ", valid=" ++ c.valid.text ++ ")"

end EnteredCache

end AssignmentSearch
