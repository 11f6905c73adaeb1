/-!
# Bytes in base 64

Four characters write three bytes; signs fill up the last group. Characters outside the alphabet do
not count.
-/

namespace AssignmentSearch

namespace Base64

def value? (c : Char) : Option Nat :=
  if 'A' ≤ c ∧ c ≤ 'Z' then some (c.toNat - 65)
  else if 'a' ≤ c ∧ c ≤ 'z' then some (c.toNat - 71)
  else if '0' ≤ c ∧ c ≤ '9' then some (c.toNat + 4)
  else if c = '+' then some 62
  else if c = '/' then some 63
  else none

/-- How far a group has come: its characters, the bits of them that are in no byte yet, and the
signs after them. -/
structure Group where
  place : Nat
  bits : Nat
  signs : Nat
  deriving DecidableEq, Repr

def Group.add (g : Group) (v : Nat) : Group × List UInt8 :=
  match g.place with
  | 0 => (⟨1, v, 0⟩, [])
  | 1 => (⟨2, v % 16, 0⟩, [(4 * g.bits + v / 16).toUInt8])
  | 2 => (⟨3, v % 4, 0⟩, [(16 * g.bits + v / 4).toUInt8])
  | _ => (⟨0, 0, 0⟩, [(64 * g.bits + v).toUInt8])

/-- Reads on after the bytes of `acc`, the latest first. Signs that fill up the group end the text;
a group that is not filled up has no bytes. -/
def readFrom (acc : List UInt8) (g : Group) : List Char → Option (List UInt8)
  | [] => if g.place = 0 then some acc.reverse else none
  | c :: rest =>
    if c = '=' then
      if g.place < 2 then readFrom acc g rest
      else if 4 ≤ g.place + g.signs + 1 then some acc.reverse
      else readFrom acc { g with signs := g.signs + 1 } rest
    else match value? c with
      | none => readFrom acc g rest
      | some v =>
        let (g, bytes) := g.add v
        readFrom (bytes ++ acc) g rest

def read (cs : List Char) : Option (List UInt8) := readFrom [] ⟨0, 0, 0⟩ cs

example : read ['a', 'G', 'k', '='] = some [104, 105] := by decide +kernel

end Base64

end AssignmentSearch
