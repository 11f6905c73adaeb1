import AssignmentSearch.Datum.Convert

/-!
# Scalars

Values as they were entered where numbers belong. Whole numbers and truth values stay what they are
until arithmetic touches them, and what is no number is a fault only when a number is needed.
-/

namespace AssignmentSearch

/-- A value as it was entered where a number belongs. -/
inductive Scalar (α : Type) where
  | whole (n : Int)
  | truth (b : Bool)
  | real (x : α)
  /-- A value that is no number. -/
  | alien (d : Datum)

namespace Scalar

variable {α : Type}

def ofDatum : Datum → Scalar Float
  | .int n => whole n
  | .bool b => truth b
  | .float x => real x
  | d => alien d

def datum [Printed α] : Scalar α → Datum
  | whole n => .int n
  | truth b => .bool b
  | real x => Printed.datum x
  | alien d => d

def kind : Scalar α → String
  | whole _ => "int"
  | truth _ => "bool"
  | real _ => "float"
  | alien d => d.kind

/-- The number of a scalar; truth values count as one and zero. -/
def numeral? : Scalar α → Option (Numeral α)
  | whole n => some (.whole n)
  | truth b => some (.whole (Datum.ofBool b))
  | real x => some (.real x)
  | alien _ => none

def ofNumeral : Numeral α → Scalar α
  | .whole n => whole n
  | .real x => real x

variable [Quantity α]

def quantity (a : Scalar α) : Except Fault α :=
  match a.numeral? with
  | some m => m.quantity
  | none => .error (.notFloat a.kind)

def le (a b : Scalar α) : Except Fault Bool :=
  match a.numeral?, b.numeral? with
  | some m, some n => .ok (m.le n)
  | _, _ => .error (.notOrdered "<=" a.kind b.kind)

def isAtMostZero (a : Scalar α) : Except Fault Bool :=
  match a.numeral? with
  | some m => .ok m.isAtMostZero
  | none => .error (.notOrdered "<=" a.kind "int")

/-- Whether a value is a sequence, which a whole number repeats. -/
def isSequence : Scalar α → Bool
  | alien (.str _) | alien (.list _) | alien (.bytes _) => true
  | _ => false

/-- The fault of a product with a value that is no number; `operator` is how the product is
written. -/
def productFault (operator : String) (a b : Scalar α) : Fault :=
  if a.isSequence then .notRepeated b.kind else .notJoined operator a.kind b.kind

/-- The product of a scalar with another. A whole number repeats a sequence, which stays one. -/
def times (operator : String) (a b : Scalar α) : Except Fault (Scalar α) :=
  match a.numeral?, b.numeral? with
  | some m, some n => ofNumeral <$> m.times n
  | none, some (.whole _) => if a.isSequence then .ok a else .error (productFault operator a b)
  | _, _ => .error (productFault operator a b)

def floor (a : Scalar α) : Except Fault Int :=
  match a.numeral? with
  | none => .error (.notReal a.kind)
  | some m =>
    match m.floor with
    | .ok n => .ok n
    | .error e => .error e.fault

def pred (a : Scalar α) : Scalar α :=
  match a.numeral? with
  | some (.whole n) => whole (n - 1)
  | some (.real x) => real (x - Quantity.one)
  | none => a

@[simp] theorem le_real (x y : α) : (real x).le (real y) = .ok (decide (x ≤ y)) := rfl

@[simp] theorem isAtMostZero_real (x : α) :
    (real x).isAtMostZero = .ok (decide (x ≤ Quantity.zero)) := rfl

@[simp] theorem quantity_real (x : α) : (real x).quantity = .ok x := rfl

theorem floor_real {x : α} {n : Int} (h : Quantity.floor x = .ok n) : (real x).floor = .ok n := by
  simp only [floor, numeral?, Numeral.floor, h]

end Scalar

end AssignmentSearch
