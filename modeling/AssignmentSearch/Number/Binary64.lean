import AssignmentSearch.Number.Rounding

/-!
# Binary64 values as dyadic numbers

A finite double is a sign, a mantissa below `2 ^ 53` and a power of two. Decoding reads that triple
off the bits; `nearest` goes the other way for any nonnegative quotient.
-/

namespace AssignmentSearch

/-- The finite value `± mantissa · 2 ^ exponent`. -/
structure Dyad where
  negative : Bool
  mantissa : Nat
  exponent : Int
  deriving DecidableEq, Repr

/-- What the bits of a double stand for. -/
inductive Binary64 where
  | nan
  | infinite (negative : Bool)
  | finite (value : Dyad)
  deriving DecidableEq, Repr

namespace Binary64

/-- The leading bit of a normal mantissa, which the encoding leaves out. -/
def hiddenBit : Nat := Nat.pow 2 52

def infinityBits : Nat := 2047 * hiddenBit

/-- Reads sign, exponent field and fraction field. -/
def ofBits (bits : Nat) : Binary64 :=
  let negative := decide (2048 * hiddenBit ≤ bits)
  let field : Nat := bits / hiddenBit % 2048
  let fraction : Nat := bits % hiddenBit
  if field = 2047 then
    if fraction = 0 then .infinite negative else .nan
  else if field = 0 then .finite ⟨negative, fraction, -1074⟩
  else .finite ⟨negative, hiddenBit + fraction, (field : Int) - 1075⟩

def decode (x : Float) : Binary64 := ofBits x.toBits.toNat

theorem mantissa_lt (bits : Nat) {d : Dyad} (h : ofBits bits = .finite d) :
    d.mantissa < 2 * hiddenBit := by
  simp only [ofBits] at h
  have hf : bits % hiddenBit < hiddenBit := Nat.mod_lt _ (by decide)
  split at h
  · split at h <;> cases h
  · split at h
    · cases h; simp only; omega
    · cases h; simp only; omega

/-- The bits of the double nearest to `num / den` in magnitude: the quantum is `2 ^ q` with 53 bits
kept, but never finer than `2 ^ -1074`, and the fraction is rounded half to even. -/
def nearestBits (num den : Nat) : Nat :=
  if num = 0 then 0
  else
    let q : Int := max (binaryOrder num den - 52) (-1074)
    let (n, d) := scale 2 num den (-q)
    min ((q + 1074).toNat * hiddenBit + roundDiv n d) infinityBits

/-- The double nearest to `num / den`, infinite from `2 ^ 1024 - 2 ^ 970` on. -/
def nearest (num den : Nat) : Float := Float.ofBits (nearestBits num den).toUInt64

/-- The double nearest to an integer; none when the integer is too large for one. -/
def ofInt? (n : Int) : Option Float :=
  let bits := nearestBits n.natAbs 1
  if bits = infinityBits then none
  else
    let x := Float.ofBits bits.toUInt64
    some (if n < 0 then -x else x)

/-- The double nearest to `digits · 10 ^ exponent`; far exponents are settled by size alone. -/
def ofDecimal (digits : Nat) (exponent : Int) : Float :=
  let order := (decimalLength digits : Int) + exponent
  if digits = 0 ∨ order < -330 then 0
  else if 320 < order then Float.ofBits infinityBits.toUInt64
  else
    let (num, den) := scale 10 digits 1 exponent
    nearest num den

end Binary64

namespace Dyad

def ratio (d : Dyad) : Nat × Nat := scale 2 d.mantissa 1 d.exponent

def floor (d : Dyad) : Int :=
  let (num, den) := d.ratio
  if d.negative then -((num + den - 1) / den : Nat) else (num / den : Nat)

def truncate (d : Dyad) : Int :=
  let (num, den) := d.ratio
  if d.negative then -(num / den : Nat) else (num / den : Nat)

def isIntegral (d : Dyad) : Bool :=
  let (num, den) := d.ratio
  num % den = 0

/-- Below zero the floor is the negated ceiling of the magnitude, else the quotient. -/
theorem floor_eq (d : Dyad) :
    d.floor = if d.negative then -(((d.ratio.1 + d.ratio.2 - 1) / d.ratio.2 : Nat) : Int)
      else ((d.ratio.1 / d.ratio.2 : Nat) : Int) := rfl

end Dyad

end AssignmentSearch
