/-!
# Rounding a quotient

Quotients of naturals: scaled by powers of a base, measured by the power that leads them, and
rounded to the nearest natural, a half going to the even neighbour.
-/

namespace AssignmentSearch

/-- The natural nearest to `num / den`; a half goes to the even neighbour. -/
def roundDiv (num den : Nat) : Nat :=
  let q := num / den
  let twice := 2 * (num % den)
  if twice < den then q
  else if den < twice then q + 1
  else if q % 2 = 0 then q else q + 1

theorem roundDiv_exact (n : Nat) {den : Nat} (h : 0 < den) : roundDiv (n * den) den = n := by
  simp [roundDiv, Nat.mul_div_cancel n h, h]

/-- The rounded quotient is off by half a unit at most, upward and downward. -/
theorem roundDiv_within_half (num : Nat) {den : Nat} (h : 0 < den) :
    2 * (roundDiv num den * den) ≤ 2 * num + den ∧
      2 * num ≤ 2 * (roundDiv num den * den) + den := by
  have hlt := Nat.mod_lt num h
  have hsplit : num / den * den + num % den = num := by rw [Nat.mul_comm]; exact Nat.div_add_mod ..
  have hnext : (num / den + 1) * den = num / den * den + den := Nat.succ_mul ..
  simp only [roundDiv]
  split
  · omega
  · split
    · rw [hnext]; omega
    · split
      · omega
      · rw [hnext]; omega

/-- Halfway between two naturals the even one is taken. -/
theorem roundDiv_tie_even {num den : Nat} (h : 2 * (num % den) = den) :
    roundDiv num den % 2 = 0 := by
  simp only [roundDiv, h, Nat.lt_irrefl, if_false]
  split <;> omega

def scale (base num den : Nat) (e : Int) : Nat × Nat :=
  if 0 ≤ e then (num * Nat.pow base e.toNat, den) else (num, den * Nat.pow base (-e).toNat)

theorem scale_den_pos {base den : Nat} (hb : 0 < base) (hd : 0 < den) (num : Nat) (e : Int) :
    0 < (scale base num den e).2 := by
  simp only [scale]
  split
  · exact hd
  · exact Nat.mul_pos hd (Nat.pow_pos hb)

/-- The power of the base that leads `num / den`, out of a guess that is right or one too high. -/
def settle (base num den : Nat) (guess : Int) : Int :=
  let (n, d) := scale base num den (-guess)
  if d ≤ n then guess else guess - 1

/-- The number of decimal digits of a natural; zero has one. -/
def decimalLength (n : Nat) : Nat := (Nat.toDigits 10 n).length

/-- The greatest `e` with `10 ^ e ≤ num / den`, for positive `num` and `den`. -/
def decimalOrder (num den : Nat) : Int :=
  settle 10 num den ((decimalLength num : Int) - (decimalLength den : Int))

/-- The greatest `e` with `2 ^ e ≤ num / den`, for positive `num` and `den`. -/
def binaryOrder (num den : Nat) : Int :=
  settle 2 num den ((Nat.log2 num : Int) - (Nat.log2 den : Int))

end AssignmentSearch
