import AssignmentSearch.Datum.Scalar
import AssignmentSearch.Mapping.Selection

/-!
# Draws of any kind

Draws that were entered as data. One that equals no position selects nothing; draws without an order
are a fault.
-/

namespace AssignmentSearch

namespace Scalar

variable {α : Type} [Quantity α]

def equals (a : Scalar α) (n : Int) : Bool :=
  match a.numeral? with
  | some m => m.le (.whole n) && Numeral.le (.whole n) m
  | none => false

def succ (a : Scalar α) : Scalar α :=
  match a.numeral? with
  | some (.whole n) => whole (n + 1)
  | some (.real x) => real (x + Quantity.one)
  | none => a

/-- The second draw, stepped over the first. -/
def stepOver (first second : Scalar α) : Except Fault (Scalar α) :=
  match first.numeral?, second.numeral? with
  | some m, some n => .ok (if m.le n then second.succ else second)
  | _, _ => .error (.notOrdered ">=" second.kind first.kind)

instance instDrawScalar : Draw (Scalar α) where
  select := fun size first second => do
    let other ← stepOver first second
    return (List.range size).filter fun i : Nat => first.equals i || other.equals i

end Scalar

end AssignmentSearch
