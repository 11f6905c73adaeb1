import AssignmentSearch.Number.Binary64

/-!
# Decimal digits of a binary value

`Decimal` is a natural times a power of ten. Three ways lead to it from a dyadic magnitude: the
fewest digits that read back, a given number of significant digits, a given number of places.
-/

namespace AssignmentSearch

/-- The value `digits · 10 ^ exponent`. -/
structure Decimal where
  digits : Nat
  exponent : Int
  deriving DecidableEq, Repr

namespace Decimal

/-- The open or closed interval of reals that round to one mantissa, in units of a quarter
quantum. -/
structure Basin where
  low : Nat
  value : Nat
  high : Nat
  closed : Bool

/-- Below a power of two the neighbours lie twice as close as above it. -/
def basin (d : Dyad) : Basin where
  low :=
    if d.mantissa = Binary64.hiddenBit ∧ -1074 < d.exponent then 4 * d.mantissa - 1
    else 4 * d.mantissa - 2
  value := 4 * d.mantissa
  high := 4 * d.mantissa + 2
  closed := d.mantissa % 2 = 0

/-- Whether `n · 10 ^ e` lies in the basin, whose quarter quantum is `2 ^ (q - 2)`. -/
def Basin.holds (b : Basin) (q : Int) (n : Nat) (e : Int) : Bool :=
  let (num, den) := scale 10 n 1 e
  let (left, right) := scale 2 num den (2 - q)
  if b.closed then b.low * right ≤ left && left ≤ b.high * right
  else b.low * right < left && left < b.high * right

/-- Walks from a coarse grid to finer ones and stops at the first with a neighbour in the basin; of
two the nearer one is taken. -/
def shortestFrom (b : Basin) (q : Int) (num den : Nat) : Nat → Int → Decimal
  | 0, e => ⟨let (n, d) := scale 10 num den (-e); roundDiv n d, e⟩
  | steps + 1, e =>
    let (n, d) := scale 10 num den (-e)
    let below := n / d
    match b.holds q below e, b.holds q (below + 1) e with
    | true, true => ⟨roundDiv n d, e⟩
    | true, false => ⟨below, e⟩
    | false, true => ⟨below + 1, e⟩
    | false, false => shortestFrom b q num den steps (e - 1)

/-- The fewest digits that read back as the magnitude of `d`; of those the nearest. -/
def shortest (d : Dyad) : Decimal :=
  if d.mantissa = 0 then ⟨0, 0⟩
  else
    let (num, den) := d.ratio
    shortestFrom (basin d) d.exponent num den 20 (decimalOrder num den + 1)

def significant (d : Dyad) (count : Nat) : Decimal :=
  if d.mantissa = 0 then ⟨0, 0⟩
  else
    let (num, den) := d.ratio
    let e := decimalOrder num den + 1 - count
    let (n, m) := scale 10 num den (-e)
    ⟨roundDiv n m, e⟩

/-- The magnitude of `d` in units of `10 ^ -places`. -/
def places (d : Dyad) (count : Nat) : Nat :=
  let (num, den) := d.ratio
  let (n, m) := scale 10 num den count
  roundDiv n m

/-- Drops trailing zeros, one per unit of fuel. -/
def trimFrom : Nat → Decimal → Decimal
  | 0, x => x
  | steps + 1, x =>
    if x.digits % 10 = 0 ∧ x.digits ≠ 0 then trimFrom steps ⟨x.digits / 10, x.exponent + 1⟩ else x

def trim (x : Decimal) : Decimal := trimFrom (decimalLength x.digits) x

end Decimal

end AssignmentSearch
