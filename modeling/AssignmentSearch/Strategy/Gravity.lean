import AssignmentSearch.Strategy.Basic

/-!
# Gravity

Only better candidates are taken. The search ends after a given number of steps.
-/

namespace AssignmentSearch

/-- Steps done and steps allowed. -/
structure Gravity where
  iteration : Nat
  limit : Int
  deriving DecidableEq, Repr

namespace Gravity

def count (s : Gravity) : Gravity := { s with iteration := s.iteration + 1 }

def isDone (s : Gravity) : Bool := s.limit ≤ s.iteration

end Gravity

structure GravityOver (α : Type) where
  gravity : Gravity

instance {α β : Type} [Quantity α] : Acceptance α (GravityOver α) β where
  acceptance := fun _ _ _ => .ok (.real Quantity.zero)

instance {α : Type} : Strategy α (GravityOver α) where
  name := fun _ => "gravity"
  stops := fun s => .ok s.gravity.isDone
  age := fun s => .ok ⟨s.gravity.count⟩
  note := fun s => some ⟨.debug, "vm_placement.heuristics.gravity",
    "迭代计数：" ++ toString s.gravity.iteration ++ "/" ++ toString s.gravity.limit⟩
  state := fun s =>
    [("current_iteration", .int s.gravity.iteration), ("max_iterations", .int s.gravity.limit)]

namespace Gravity

/-- The limit that a value stands for: an integral number from one on, but no truth value. -/
def limitOf (given : Datum) : Except Fault Int :=
  match given with
  | .int n => do
    let _ : Float ← quantityOfInt n
    if n < 1 then throw (.iterations given)
    return n
  | .float x =>
    match Binary64.decode x with
    | .finite d =>
      if d.isIntegral && 1 ≤ d.truncate then .ok d.truncate else .error (.iterations given)
    | _ => .error (.iterations given)
  | _ => .error (.iterations given)

def ofDatum (given : Datum) : Except Fault Gravity := return ⟨0, ← limitOf given⟩

end Gravity

end AssignmentSearch
