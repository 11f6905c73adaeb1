/-!
# Hexadecimal digits

Writing numbers in base sixteen, and reading them.
-/

namespace AssignmentSearch

/-- The hexadecimal digits of a number, with zeros in front if they are fewer than `count`. -/
def hexDigits (count n : Nat) : List Char :=
  let digits := Nat.toDigits 16 n
  List.replicate (count - digits.length) '0' ++ digits

def hexValue? (c : Char) : Option Nat :=
  if '0' ≤ c ∧ c ≤ '9' then some (c.toNat - 48)
  else if 'a' ≤ c ∧ c ≤ 'f' then some (c.toNat - 87)
  else if 'A' ≤ c ∧ c ≤ 'F' then some (c.toNat - 55)
  else none

def hexNumber? (cs : List Char) : Option Nat :=
  cs.foldl (fun acc c => match acc, hexValue? c with
    | some n, some d => some (16 * n + d)
    | _, _ => none) (some 0)

end AssignmentSearch
