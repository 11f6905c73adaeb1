import AssignmentSearch.Number.Binary64
import AssignmentSearch.Text.Blank
import AssignmentSearch.Text.DigitValue

/-!
# Reading numbers

Integers and doubles in decimal text. Single underscores may stand between digits.
-/

namespace AssignmentSearch

namespace Reading

/-- Reads a run of digits with single underscores between them; returns value, length and rest.
`seen` tells whether a digit stands right before. -/
def digitRun : Bool → Nat → Nat → List Char → Nat × Nat × List Char
  | seen, value, count, c :: rest =>
    match digitValue? c with
    | some d => digitRun true (10 * value + d) (count + 1) rest
    | none =>
      match c, rest with
      | '_', d :: tail =>
        match seen, digitValue? d with
        | true, some v => digitRun true (10 * value + v) (count + 1) tail
        | _, _ => (value, count, c :: rest)
      | _, _ => (value, count, c :: rest)
  | _, value, count, [] => (value, count, [])

def sign : List Char → Bool × List Char
  | '-' :: rest => (true, rest)
  | '+' :: rest => (false, rest)
  | cs => (false, cs)

/-- Blanks above ASCII count as spaces, digits of all scripts as ASCII digits. -/
def plainChar (c : Char) : Char :=
  if c.toNat < 128 then c
  else if isBlank c then ' '
  else match digitValue? c with
    | some d => asciiDigit d
    | none => c

/-- What a reader sees of a text: plain characters without blanks at the ends. -/
def core (s : String) : List Char := trimBoth isAsciiBlank (s.toList.map plainChar)

inductive IntFlaw where
  | malformed
  | tooLong (digits : Nat)
  deriving DecidableEq, Repr

/-- The most digits an integer may have in text. -/
def maxIntDigits : Nat := 4300

def isJoined : List Char → Bool
  | [] => true
  | '_' :: _ => false
  | [_] => true
  | _ :: '_' :: c :: rest => c ≠ '_' && isJoined (c :: rest)
  | _ :: c :: rest => isJoined (c :: rest)

/-- The number that decimal digits write; other characters do not count. -/
def numberOf (cs : List Char) : Nat :=
  (cs.filterMap digitValue?).foldl (fun n d => 10 * n + d) 0

/-- Reads an integer. The number of its digits is judged before what follows them. -/
def int (s : String) : Except IntFlaw Int :=
  let (negative, rest) := sign (core s)
  let run := rest.takeWhile fun c => c = '_' || (digitValue? c).isSome
  let count := (run.filter (· ≠ '_')).length
  if !isJoined run then .error .malformed
  else if maxIntDigits < count then .error (.tooLong count)
  else if count = 0 || run.length < rest.length then .error .malformed
  else .ok (if negative then -numberOf run else numberOf run)

/-- An exponent part: none when absent, a flaw when it has no digits. -/
def exponent : List Char → Option Int
  | [] => some 0
  | c :: rest =>
    if c = 'e' ∨ c = 'E' then
      let (negative, digits) := sign rest
      match digitRun false 0 0 digits with
      | (value, count, []) =>
        if count = 0 then none else some (if negative then -value else value)
      | _ => none
    else none

/-- The digits after a point, if there is one, as a continuation of `value`. -/
def fraction (value : Nat) : List Char → Nat × Nat × List Char
  | '.' :: rest => digitRun false value 0 rest
  | cs => (value, 0, cs)

def special (cs : List Char) : Option Float :=
  let name := String.ofList (cs.map Char.toLower)
  if name = "inf" ∨ name = "infinity" then some (Float.ofBits Binary64.infinityBits.toUInt64)
  else if name = "nan" then
    some (Float.ofBits (Binary64.infinityBits + Binary64.hiddenBit / 2).toUInt64)
  else none

def magnitude (cs : List Char) : Option Float :=
  match special cs with
  | some x => some x
  | none =>
    let (whole, wholeCount, rest) := digitRun false 0 0 cs
    let (digits, places, tail) := fraction whole rest
    if wholeCount + places = 0 then none
    else (exponent tail).map fun e => Binary64.ofDecimal digits (e - places)

def floatChars (cs : List Char) : Option Float :=
  let (negative, rest) := sign cs
  (magnitude rest).map fun x => if negative then -x else x

def float (s : String) : Option Float := floatChars (core s)

end Reading

end AssignmentSearch
