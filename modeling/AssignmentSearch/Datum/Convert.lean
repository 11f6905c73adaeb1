import AssignmentSearch.Fault
import AssignmentSearch.Number.Reading
import AssignmentSearch.Number.Quantity

/-!
# Numbers out of data

Conversions of any value to a double or an integer.
-/

namespace AssignmentSearch

def Unbounded.fault : Unbounded → Fault
  | .undefined => .undefinedInt
  | .infinite => .infiniteInt

def quantityOfInt {α : Type} [Quantity α] (n : Int) : Except Fault α :=
  match Quantity.ofInt? n with
  | some x => .ok x
  | none => .error .intTooLarge

namespace Datum

def toFloat : Datum → Except Fault Float
  | bool b => .ok (if b then 1 else 0)
  | int n => quantityOfInt n
  | float x => .ok x
  | str s => match Reading.float s with
    | some x => .ok x
    | none => .error (.malformedFloat s)
  | d => .error (.notFloat d.kind)

def intOfText (s : String) : Except Fault Int :=
  match Reading.int s with
  | .ok n => .ok n
  | .error .malformed => .error (.malformedInt 10 s)
  | .error (.tooLong digits) => .error (.longInt digits)

def intOfFloat (x : Float) : Except Fault Int :=
  match Binary64.decode x with
  | .nan => .error .undefinedInt
  | .infinite _ => .error .infiniteInt
  | .finite d => .ok d.truncate

/-- An integer made of any value; fractions are dropped. -/
def toInt : Datum → Except Fault Int
  | bool b => .ok (ofBool b)
  | int n => .ok n
  | float x => intOfFloat x
  | str s => intOfText s
  | d => .error (.notInt d.kind)

/-- A value may be a key unless it is a collection that can change. -/
def permit : Datum → Except Fault Unit
  | list _ => .error (.notKey "list")
  | dict _ => .error (.notKey "dict")
  | set _ => .error (.notKey "set")
  | _ => .ok ()

/-- Whether a value counts as true: zeros, empty collections and texts do not. -/
def isTrue : Datum → Bool
  | null => false
  | bool b => b
  | int n => n ≠ 0
  | float x => x != 0
  | str s => s ≠ ""
  | bytes content => content ≠ []
  | list items | set items => !items.isEmpty
  | dict entries => !entries.isEmpty
  | other _ _ => true

/-- The least number with more digits than may be written. -/
def leastLong : Nat := Nat.pow 10 Reading.maxIntDigits

def isLong : Datum → Bool
  | int n => leastLong ≤ n.natAbs
  | _ => false

theorem isLong_int_eq_false (n : Int) : (int n).isLong = false ↔ n.natAbs < leastLong := by
  rw [isLong, decide_eq_false_iff_not, Nat.not_le]

/-- A text as it is, other data as they are written. -/
def plain : Datum → String
  | str s => s
  | d => d.text

end Datum

class Printed (α : Type) where
  /-- A number as a value of a data file. -/
  datum : α → Datum
  /-- At most so many significant digits. -/
  general : Nat → α → String

instance : Printed Float := ⟨.float, generalText⟩

namespace Numeral

variable {α : Type}

def quantity [Quantity α] : Numeral α → Except Fault α
  | whole n => quantityOfInt n
  | real x => .ok x

/-- The product of numerals; that of integers is exact. -/
def times [Quantity α] : Numeral α → Numeral α → Except Fault (Numeral α)
  | whole m, whole n => .ok (.whole (m * n))
  | a, b => do return .real ((← a.quantity) * (← b.quantity))

end Numeral

end AssignmentSearch
