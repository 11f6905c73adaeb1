/-!
# Text in bytes

Decoding of UTF-8. A flaw covers the bytes that could still have begun a character.
-/

namespace AssignmentSearch

namespace Utf8

inductive Reason where
  | invalidStart
  | invalidContinuation
  | unexpectedEnd
  deriving DecidableEq, Repr

def Reason.text : Reason → String
  | invalidStart => "invalid start byte"
  | invalidContinuation => "invalid continuation byte"
  | unexpectedEnd => "unexpected end of data"

/-- Bytes that are no text: the first one, its position, their number and what is wrong. -/
structure Flaw where
  first : UInt8
  position : Nat
  length : Nat
  reason : Reason
  deriving DecidableEq, Repr

def lengthOf? (b : UInt8) : Option Nat :=
  if b < 0x80 then some 1 else if b < 0xC2 then none else if b < 0xE0 then some 2
  else if b < 0xF0 then some 3 else if b < 0xF5 then some 4 else none

def continues (b : UInt8) : Bool := 0x80 ≤ b && b < 0xC0

/-- Whether a byte may stand second: some would make a character that has a shorter form, a half of
a pair, or one beyond the last. -/
def second (first b : UInt8) : Bool :=
  continues b && !(first = 0xE0 && b < 0xA0) && !(first = 0xED && 0xA0 ≤ b) &&
    !(first = 0xF0 && b < 0x90) && !(first = 0xF4 && 0x90 ≤ b)

/-- The number of bytes after the first that go on with the character. -/
def goodBytes (first : UInt8) : List UInt8 → Nat
  | [] => 0
  | b :: rest => if second first b then 1 + (rest.takeWhile continues).length else 0

def headBits (length : Nat) (b : UInt8) : Nat :=
  if length = 1 then b.toNat else b.toNat % Nat.pow 2 (7 - length)

def charOf (length : Nat) (first : UInt8) (rest : List UInt8) : Char :=
  Char.ofNat (rest.foldl (fun n b => 64 * n + b.toNat % 64) (headBits length first))

/-- The characters of bytes; `position` counts those before, and `pending` those of a character that
has been read already. -/
def chars : (position pending : Nat) → List Char → List UInt8 → Except Flaw (List Char)
  | _, _, acc, [] => .ok acc.reverse
  | position, pending + 1, acc, _ :: rest => chars (position + 1) pending acc rest
  | position, 0, acc, b :: rest =>
    match lengthOf? b with
    | none => .error ⟨b, position, 1, .invalidStart⟩
    | some length =>
      let good := goodBytes b (rest.take (length - 1))
      if good = length - 1 then
        chars (position + 1) good (charOf length b (rest.take good) :: acc) rest
      else if rest.length = good then .error ⟨b, position, good + 1, .unexpectedEnd⟩
      else .error ⟨b, position, good + 1, .invalidContinuation⟩

def decode (bytes : List UInt8) : Except Flaw String := String.ofList <$> chars 0 0 [] bytes

end Utf8

end AssignmentSearch
