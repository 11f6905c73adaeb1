import AssignmentSearch.Datum
import AssignmentSearch.Number.Reading

/-!
# Reading JSON text

A number with a point or an exponent is a double, any other an integer. Of equal keys the last value
counts. The reader spends one unit of fuel on each value and each member.
-/

namespace AssignmentSearch

namespace Json

def skip (cs : List Char) : List Char :=
  cs.dropWhile fun c => c = ' ' || c = '\n' || c = '\r' || c = '\t'

/-- The character of a code point. Texts are made of characters and so hold no half of one: for a
half that stands alone the replacement character stands in. -/
def charOf (n : Nat) : Char := if n.isValidChar then Char.ofNat n else '\uFFFD'

/-- The rest of a string after its opening quote: its characters and what follows the closing
one. -/
def stringBody : List Char → List Char → Option (List Char × List Char)
  | acc, '\x22' :: rest => some (acc.reverse, rest)
  | acc, '\x5c' :: 'u' :: a :: b :: c :: d :: '\x5c' :: 'u' :: e :: f :: g :: h :: rest =>
    match hexNumber? [a, b, c, d], hexNumber? [e, f, g, h] with
    | some high, some low =>
      if 0xD800 ≤ high ∧ high < 0xDC00 ∧ 0xDC00 ≤ low ∧ low < 0xE000 then
        stringBody (charOf (0x10000 + (high - 0xD800) * 0x400 + (low - 0xDC00)) :: acc) rest
      else stringBody (charOf high :: acc) ('\x5c' :: 'u' :: e :: f :: g :: h :: rest)
    | _, _ => none
  | acc, '\x5c' :: 'u' :: a :: b :: c :: d :: rest =>
    match hexNumber? [a, b, c, d] with
    | some n => stringBody (charOf n :: acc) rest
    | none => none
  | acc, '\x5c' :: c :: rest =>
    match c with
    | 'n' => stringBody ('\n' :: acc) rest
    | 'r' => stringBody ('\r' :: acc) rest
    | 't' => stringBody ('\t' :: acc) rest
    | 'b' => stringBody ('\x08' :: acc) rest
    | 'f' => stringBody ('\x0c' :: acc) rest
    | _ => if c = '\x22' ∨ c = '\x5c' ∨ c = '/' then stringBody (c :: acc) rest else none
  | acc, c :: rest => stringBody (c :: acc) rest
  | _, [] => none
  termination_by _ cs => cs.length

def isNumberChar (c : Char) : Bool :=
  c.isDigit || c = '-' || c = '+' || c = '.' || c = 'e' || c = 'E'

/-- An integer, or a double if there is a point or an exponent. -/
def number? (cs : List Char) : Option Datum :=
  let (negative, digits) := Reading.sign cs
  if digits.all Char.isDigit && !digits.isEmpty then
    let n : Nat := digits.foldl (fun acc c => 10 * acc + (c.toNat - 48)) 0
    some (.int (if negative then -n else n))
  else (Reading.floatChars cs).map .float

def word (cs : List Char) : Option (Datum × List Char) :=
  match cs with
  | 't' :: 'r' :: 'u' :: 'e' :: rest => some (.bool true, rest)
  | 'f' :: 'a' :: 'l' :: 's' :: 'e' :: rest => some (.bool false, rest)
  | 'n' :: 'u' :: 'l' :: 'l' :: rest => some (.null, rest)
  | _ => (number? (cs.takeWhile isNumberChar)).map (·, cs.dropWhile isNumberChar)

mutual

def value : Nat → List Char → Option (Datum × List Char)
  | 0, _ => none
  | fuel + 1, cs =>
    match skip cs with
    | '\x22' :: rest => (stringBody [] rest).map fun (s, tail) => (.str (String.ofList s), tail)
    | '[' :: rest =>
      match skip rest with
      | ']' :: tail => some (.list [], tail)
      | _ => (items fuel [] rest).map fun (xs, tail) => (.list xs, tail)
    | '\x7b' :: rest =>
      match skip rest with
      | '\x7d' :: tail => some (.dict [], tail)
      | _ => (members fuel [] rest).map fun (es, tail) => (.dict es, tail)
    | tail => word tail

def items : Nat → List Datum → List Char → Option (List Datum × List Char)
  | 0, _, _ => none
  | fuel + 1, acc, cs =>
    match value fuel cs with
    | none => none
    | some (item, rest) =>
      match skip rest with
      | ',' :: tail => items fuel (item :: acc) tail
      | ']' :: tail => some ((item :: acc).reverse, tail)
      | _ => none

def members :
    Nat → List (Datum × Datum) → List Char → Option (List (Datum × Datum) × List Char)
  | 0, _, _ => none
  | fuel + 1, acc, cs =>
    match value fuel cs with
    | some (.str name, rest) =>
      match skip rest with
      | ':' :: tail =>
        match value fuel tail with
        | none => none
        | some (item, after) =>
          let entries := Datum.put acc (.str name) item
          match skip after with
          | ',' :: more => members fuel entries more
          | '\x7d' :: more => some (entries, more)
          | _ => none
      | _ => none
    | _ => none

end

def read? (s : String) : Option Datum :=
  let cs := s.toList
  match value (cs.length + 1) cs with
  | some (d, rest) => if (skip rest).isEmpty then some d else none
  | none => none

end Json

end AssignmentSearch
