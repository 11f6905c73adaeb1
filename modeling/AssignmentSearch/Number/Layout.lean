import AssignmentSearch.Number.Decimal

/-!
# Layout of decimal numbers

A `Layout` says when a number is written positionally, what marks a whole number and how the values
that are no numbers are named. Digits come from `Decimal`.
-/

namespace AssignmentSearch

structure Layout where
  /-- Exponents of the leading digit that are written positionally lie from `low` … -/
  low : Int
  /-- … up to, and not including, `high`. -/
  high : Int
  /-- What follows a positional number without a fraction. -/
  whole : String
  nan : String
  infinity : String

namespace Layout

/-- The plain form: positional from `1e-4` up to `1e16`, a whole number ends in `.0`. -/
def plain : Layout := ⟨-4, 16, ".0", "nan", "inf"⟩

/-- The general form with `count` significant digits: whole numbers carry no point. -/
def general (count : Nat) : Layout := ⟨-4, count, "", "nan", "inf"⟩

/-- The plain form with the names that data files use for the values that are no numbers. -/
def dataFile : Layout := { plain with nan := "NaN", infinity := "Infinity" }

/-- An exponent has a sign and at least two digits. -/
def exponentText (e : Int) : String :=
  let digits := toString e.natAbs
  "e" ++ (if e < 0 then "-" else "+") ++ (if digits.length < 2 then "0" ++ digits else digits)

def pointAfter (digits : List Char) (point : Nat) (whole : String) : String :=
  let left := digits.take point
  let right := digits.drop point
  String.ofList left ++ (if right.isEmpty then whole else "." ++ String.ofList right)

/-- Writes trimmed digits; the leading digit has exponent `length - 1 + exponent`. -/
def digitsText (layout : Layout) (x : Decimal) : String :=
  if x.digits = 0 then "0" ++ layout.whole
  else
    let digits := Nat.toDigits 10 x.digits
    let lead : Int := (digits.length : Int) - 1 + x.exponent
    if layout.low ≤ lead ∧ lead < layout.high then
      if lead < 0 then
        "0." ++ String.ofList (List.replicate (-lead - 1).toNat '0') ++ String.ofList digits
      else
        let padded := digits ++ List.replicate x.exponent.toNat '0'
        pointAfter padded (lead.toNat + 1) layout.whole
    else pointAfter digits 1 "" ++ exponentText lead

def write (layout : Layout) (digits : Dyad → Decimal) (x : Float) : String :=
  match Binary64.decode x with
  | .nan => layout.nan
  | .infinite negative => (if negative then "-" else "") ++ layout.infinity
  | .finite d => (if d.negative then "-" else "") ++ layout.digitsText (digits d).trim

end Layout

def plainText (x : Float) : String := Layout.plain.write Decimal.shortest x

def dataText (x : Float) : String := Layout.dataFile.write Decimal.shortest x

/-- At most `count` significant digits, trailing zeros dropped. -/
def generalText (count : Nat) (x : Float) : String :=
  (Layout.general count).write (Decimal.significant · count) x

def fixedText (count : Nat) (x : Float) : String :=
  match Binary64.decode x with
  | .nan => "nan"
  | .infinite negative => if negative then "-inf" else "inf"
  | .finite d =>
    let digits := Nat.toDigits 10 (Decimal.places d count)
    let padded := List.replicate (count + 1 - digits.length) '0' ++ digits
    (if d.negative then "-" else "") ++ Layout.pointAfter padded (padded.length - count) ""

end AssignmentSearch
