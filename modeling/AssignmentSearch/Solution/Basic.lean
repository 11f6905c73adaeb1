import AssignmentSearch.Mapping.Selection
import AssignmentSearch.Solution.Cost

/-!
# Solutions

A mapping with its cost model and its cached cost. A change of the mapping makes the cache stale; a
copy takes the cache along.
-/

namespace AssignmentSearch

/-- A mapping, how it is judged, and its cost if that is known. -/
structure Solution (α τ ρ : Type) where
  model : CostModel α τ ρ
  mapping : Mapping τ ρ
  cache : CostCache α

namespace Solution

variable {α τ ρ σ : Type} [Quantity α]

/-- A solution whose cost is not known yet. -/
def of (model : CostModel α τ ρ) (mapping : Mapping τ ρ) : Solution α τ ρ :=
  ⟨model, mapping, ⟨Quantity.zero, false⟩⟩

def isStale (s : Solution α τ ρ) : Bool := !s.cache.valid

def bind [BEq τ] (s : Solution α τ ρ) (t : τ) (r : ρ) : Solution α τ ρ :=
  ⟨s.model, s.mapping.bind t r, s.cache.invalidate⟩

/-- Exchanges the resources of two drawn entries; tells whether it did. -/
def swap {ι : Type} [Draw ι] (index : Int → Attempt σ ι) (s : Solution α τ ρ) :
    Attempt σ (Bool × Solution α τ ρ) := do
  match ← s.mapping.swapDrawn index with
  | some m => return (true, ⟨s.model, m, s.cache.invalidate⟩)
  | none => return (false, s)

/-- The cost, computed if the cache is stale. -/
def cost : Attempt (Solution α τ ρ) α := Attempt.of fun s =>
  if s.cache.valid then (.ok s.cache.value, s)
  else match s.model.total s.mapping with
    | .ok c => (.ok c, { s with cache := .store c })
    | .error e => (.error e, s)

def freshCost : Attempt (Solution α τ ρ) α := do
  modify fun s => { s with cache := s.cache.invalidate }
  cost

/-- The answer of `cost` alone. -/
def costValue (s : Solution α τ ρ) : Except Fault α := (cost.start s).1

def evaluated (s : Solution α τ ρ) : Solution α τ ρ := (cost.start s).2

/-- A difference within the tolerance is none; else the lower cost is better: `1` when `a` is below
`b`, and also when the difference is no number. -/
def compareCosts (a b : α) : Int :=
  let diff := a - b
  if -Quantity.tolerance ≤ diff ∧ diff ≤ Quantity.tolerance then 0
  else if Quantity.zero < diff then -1 else 1

/-- Compares two solutions by cost, the first one's cost computed first. -/
def compare (a b : Solution α τ ρ) : Except Fault Int := do
  let x ← a.costValue
  let y ← b.costValue
  return compareCosts x y

def isBetterThan (a b : Solution α τ ρ) : Except Fault Bool := do
  return 0 < (← compare a b)

/-- The written form: the number of entries and the cost, if it is known. -/
def text [Printed α] (s : Solution α τ ρ) : String :=
  s.model.name ++ "(entries=" ++ toString s.mapping.size ++ ", cost=" ++
    (if s.isStale then "stale" else Printed.general 6 s.cache.value) ++ ")"

end Solution

end AssignmentSearch
