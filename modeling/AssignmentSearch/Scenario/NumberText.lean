import AssignmentSearch.Number.Reading
import AssignmentSearch.Text.Blank

/-!
# Numbers in the texts of fields

Which integers and doubles the texts of fields stand for. Blanks around a number, zeros in front of
it, underscores inside it and a fraction of zeros are allowed.
-/

namespace AssignmentSearch

namespace NumberText

inductive IntTrouble where
  | malformed
  | tooLong
  deriving DecidableEq, Repr

/-- Whether a number may begin with a character that is not zero. -/
def isLead (c : Char) : Bool := c = '-' || ('1' ≤ c && c ≤ '9')

/-- Moves over zeros and underscores, of which `last` came last. A point keeps the character before
it, and so does the end. -/
def afterZeros (last : Char) : List Char → Option (List Char)
  | [] => some [last]
  | c :: rest =>
    if c = '0' || c = '_' then afterZeros c rest
    else if isLead c then some (c :: rest)
    else if c = '.' then some (last :: c :: rest)
    else none

def withoutZeros : List Char → Option (List Char)
  | [] => none
  | c :: rest => if c = '0' then afterZeros c rest else if isLead c then some (c :: rest) else none

def withoutPlus : List Char → Option (List Char)
  | '+' :: '-' :: _ => none
  | '+' :: rest => some rest
  | cs => some cs

/-- A number without a fraction of zeros, of which there has to be one. -/
def withoutFraction (cs : List Char) : List Char :=
  let whole := cs.takeWhile (· ≠ '.')
  let zeros := cs.drop (whole.length + 1)
  if !zeros.isEmpty && zeros.all (· = '0') then whole else cs

/-- Characters without the underscores between them; none if one stands elsewhere. -/
def joined? (cs : List Char) : Option (List Char) :=
  if Reading.isJoined cs then some (cs.filter (· ≠ '_')) else none

/-- An optional minus sign and digits without a zero in front. The length is judged before what
follows the digits. -/
def plainInt (cs : List Char) : Except IntTrouble Int :=
  let (negative, digits) := match cs with
    | '-' :: rest => (true, rest)
    | _ => (false, cs)
  let run := digits.takeWhile Char.isDigit
  if digits = ['0'] then .ok 0
  else if run.isEmpty || run.head? = some '0' then .error .malformed
  else if Reading.maxIntDigits < run.length + (if negative then 1 else 0) then .error .tooLong
  else if run.length < digits.length then .error .malformed
  else .ok (if negative then -Reading.numberOf run else Reading.numberOf run)

/-- The integer of a text. -/
def int (s : String) : Except IntTrouble Int :=
  match withoutPlus (trimBoth isBlank s.toList) >>= withoutZeros with
  | none => .error .malformed
  | some cs =>
    let cs := withoutFraction cs
    plainInt ((joined? cs).getD cs)

/-- A double in ASCII characters, without underscores. -/
def plainFloat (cs : List Char) : Option Float :=
  if cs.all fun c => c.toNat < 128 && c ≠ '_' then Reading.floatChars cs else none

/-- The double of a text. Blanks around it and underscores inside it exclude each other. -/
def float (s : String) : Option Float :=
  match plainFloat (trimBoth isBlank s.toList) with
  | some x => some x
  | none => joined? s.toList >>= plainFloat

end NumberText

end AssignmentSearch
