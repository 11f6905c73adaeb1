import AssignmentSearch.Fault
import AssignmentSearch.Random.Digest

/-!
# Seeds

A generator is seeded by a natural number. Numbers give their magnitude, texts their bytes with a
digest behind them, doubles a remainder.
-/

namespace AssignmentSearch

namespace Seed

def modulus : Nat := Nat.pow 2 61 - 1

/-- The remainder of a finite double. Halving and doubling turn the 61 bits of a remainder, so the
exponent counts modulo 61; a remainder of minus one is taken as minus two. -/
def remainder (d : Dyad) : Int :=
  let m : Nat := d.mantissa * Nat.pow 2 (d.exponent.emod 61).toNat % modulus
  if d.negative then (if m = 1 then -2 else -m) else m

def word (n : Int) : Nat := (n.emod (Nat.pow 2 64 : Nat)).toNat

/-- The number of a double; one that is no number has none. -/
def ofFloat (x : Float) : Option Nat :=
  match Binary64.decode x with
  | .nan => none
  | .infinite negative => some (word (if negative then -314159 else 314159))
  | .finite d => some (word (remainder d))

def ofBytes (bytes : List UInt8) : Nat := Digest.number (bytes ++ Digest.ofBytes bytes)

/-- The number that seeds the generator; a seed that gives none is `entropy`. -/
def number (entropy : Nat) : Datum → Except Fault Nat
  | .null => .ok entropy
  | .bool b => .ok (if b then 1 else 0)
  | .int n => .ok n.natAbs
  | .float x => .ok ((ofFloat x).getD entropy)
  | .str s => .ok (ofBytes s.toUTF8.toList)
  | .bytes content => .ok (ofBytes content)
  | _ => .error .notSeed

end Seed

end AssignmentSearch
