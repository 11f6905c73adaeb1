import AssignmentSearch.Number.Binary64

/-!
# Quantities

What the search asks of the numbers it adds and compares. Doubles are one such type; exact types
can stand in for them.
-/

namespace AssignmentSearch

inductive Unbounded where
  | undefined
  | infinite
  deriving DecidableEq, Repr

/-- Numbers for costs, temperatures, probabilities and samples. -/
class Quantity (α : Type) extends Add α, Sub α, Mul α, Div α, Neg α, LE α, LT α where
  decLe : DecidableLE α
  decLt : DecidableLT α
  zero : α
  one : α
  exp : α → α
  /-- None for finite numbers whose square is out of range. -/
  square? : α → Option α
  /-- Costs that differ by no more than this are equal. -/
  tolerance : α
  /-- None for integers out of range. -/
  ofInt? : Int → Option α
  /-- Whether an integer of any size is no more than a quantity. -/
  intLe : Int → α → Bool
  floor : α → Except Unbounded Int
  /-- The fraction `k / 2 ^ 53`. -/
  fraction : Nat → α

instance instDecidableLE {α : Type} [q : Quantity α] : DecidableLE α := q.decLe

instance instDecidableLT {α : Type} [q : Quantity α] : DecidableLT α := q.decLt

def floorFloat (x : Float) : Except Unbounded Int :=
  match Binary64.decode x with
  | .nan => .error .undefined
  | .infinite _ => .error .infinite
  | .finite d => .ok d.floor

/-- Whether an integer is no more than a double; there is no rounding. -/
def intLeFloat (n : Int) (x : Float) : Bool :=
  match Binary64.decode x with
  | .nan => false
  | .infinite negative => !negative
  | .finite d => n ≤ d.floor

/-- The square of a double; none where that of a finite double is infinite. -/
def squareFloat? (x : Float) : Option Float :=
  let square := Float.pow x 2
  if x.isFinite && square.isInf then none else some square

instance : Quantity Float where
  decLe := fun a b => inferInstanceAs (Decidable (a ≤ b))
  decLt := fun a b => inferInstanceAs (Decidable (a < b))
  zero := 0
  one := 1
  exp := Float.exp
  square? := squareFloat?
  tolerance := 1e-4
  ofInt? := Binary64.ofInt?
  intLe := intLeFloat
  floor := floorFloat
  fraction := fun k => Binary64.nearest k (2 * Binary64.hiddenBit)

/-- An integer of any size, or a quantity. -/
inductive Numeral (α : Type) where
  | whole (n : Int)
  | real (x : α)

namespace Numeral

variable {α : Type} [Quantity α]

/-- The quantity a numeral stands for; none for integers out of range. -/
def value? : Numeral α → Option α
  | whole n => Quantity.ofInt? n
  | real x => some x

def isAtMostZero : Numeral α → Bool
  | whole n => n ≤ 0
  | real x => decide (x ≤ Quantity.zero)

/-- Whether a numeral is no more than another; integers are compared as they are. -/
def le : Numeral α → Numeral α → Bool
  | whole m, whole n => m ≤ n
  | whole m, real y => Quantity.intLe m y
  | real x, whole n => Quantity.intLe (-n) (-x)
  | real x, real y => decide (x ≤ y)

def floor : Numeral α → Except Unbounded Int
  | whole n => .ok n
  | real x => Quantity.floor x

end Numeral

end AssignmentSearch
