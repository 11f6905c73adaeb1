import AssignmentSearch.Random.Source
import AssignmentSearch.Solution.Basic

/-!
# Landscapes

Where a search begins, which candidates it meets and which of its mappings can be told.
-/

namespace AssignmentSearch

/-- The first solution, given the one handed out before, and the candidates near a solution, by the
number of the trial. -/
structure Landscape (α τ ρ : Type) where
  initial : Option (Solution α τ ρ) → Attempt (Source α) (Solution α τ ρ)
  neighbor : Nat → Solution α τ ρ → Attempt (Source α) (Solution α τ ρ)
  /-- Whether the labels of a mapping can be written. -/
  writes : Mapping τ ρ → Bool

namespace Landscape

variable {α τ ρ : Type} [Quantity α]

/-- The usual candidate: a copy in which two drawn entries have exchanged their resources. -/
def swapped (s : Solution α τ ρ) : Attempt (Source α) (Solution α τ ρ) :=
  (·.2) <$> s.swap Source.index

def keeping (first : Solution α τ ρ) (kept : Option (Solution α τ ρ)) :
    Attempt (Source α) (Solution α τ ρ) := pure (kept.getD first)

def exchanging (first : Solution α τ ρ) : Landscape α τ ρ :=
  ⟨keeping first, fun _ => swapped, fun _ => true⟩

def dealt [BEq τ] (tasks : List τ) (resources : List ρ) : Mapping τ ρ :=
  .ofPairs ((tasks.mapIdx fun i t => (resources[i % resources.length]?).map (t, ·)).filterMap id)

/-- Candidates with given costs and no entries, one for each trial; the last one repeats. -/
def listed (name : String) (costs : List (Except Fault α)) : Landscape α τ ρ :=
  let candidate (i : Nat) : Solution α τ ρ :=
    .of (.fixed name ((costs[min i (costs.length - 1)]?).getD (.ok Quantity.zero))) .empty
  ⟨keeping (candidate 0), fun trial _ => pure (candidate trial), fun _ => true⟩

end Landscape

end AssignmentSearch
