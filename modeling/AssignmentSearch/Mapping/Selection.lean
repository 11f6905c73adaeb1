import AssignmentSearch.Mapping.Basic
import AssignmentSearch.Attempt

/-!
# Selection of two entries

Two positions are drawn without replacement: the second draw is among one position fewer and steps
over the first. Draws outside the mapping select nothing.
-/

namespace AssignmentSearch

namespace Mapping

variable {τ ρ σ : Type}

/-- The second position, stepped over the first. -/
def stepOver (first second : Int) : Int := if first ≤ second then second + 1 else second

theorem stepOver_ne (first second : Int) : stepOver first second ≠ first := by
  simp only [stepOver]
  split <;> omega

/-- The positions below `size` among two, in increasing order. -/
def within (size : Nat) (first second : Int) : List Nat :=
  (if first < second then [first, second] else [second, first]).filterMap fun i : Int =>
    if 0 ≤ i ∧ i < size then some i.toNat else none

def positions (size : Nat) (first second : Int) : List Nat :=
  within size first (stepOver first second)

end Mapping

/-- What draws are made of. -/
class Draw (ι : Type) where
  /-- The positions below a size that two draws select, in increasing order. -/
  select : Nat → ι → ι → Except Fault (List Nat)

instance instDrawInt : Draw Int where
  select := fun size first second => .ok (Mapping.positions size first second)

namespace Mapping

variable {ι : Type} [Draw ι]

/-- Draws two positions, first among all entries, then among all but one. -/
def drawTwo (index : Int → Attempt σ ι) (m : Mapping τ ρ) : Attempt σ (List Nat) := do
  if m.size < 2 then return []
  let first ← index m.size
  let second ← index (m.size - 1 : Int)
  Attempt.lift (Draw.select m.size first second)

/-- Exchanges the resources of the two drawn entries, if both draws select one. -/
def swapDrawn (index : Int → Attempt σ ι) (m : Mapping τ ρ) :
    Attempt σ (Option (Mapping τ ρ)) := do
  match ← drawTwo index m with
  | [i, j] => return some (m.swapAt i j)
  | _ => return none

def pickTasks (index : Int → Attempt σ ι) (m : Mapping τ ρ) : Attempt σ (List τ) := do
  let selected ← drawTwo index m
  return selected.filterMap fun i => (m.entries[i]?).map (·.1)

end Mapping

end AssignmentSearch
