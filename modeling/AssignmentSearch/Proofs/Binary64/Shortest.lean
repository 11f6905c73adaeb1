import AssignmentSearch.Proofs.Binary64.Basins

/-!
# The shortest decimal

The walk to the shortest decimal of a double ends in its basin, since a grid of 18 digits has a point
in every basin. A decimal from the basin is read as the double.
-/

namespace AssignmentSearch

open Binary64

namespace Decimal

def magnitude (d : Dyad) : ℚ := d.mantissa * 2 ^ d.exponent

theorem ratio_eq (d : Dyad) : (d.ratio.1 / d.ratio.2 : ℚ) = magnitude d := by
  have h := scale_ratio (show 0 < 2 by decide) d.mantissa 1 d.exponent
  rw [Nat.cast_one, div_one] at h
  exact h

theorem ratio_den_pos (d : Dyad) : 0 < d.ratio.2 := scale_den_pos (by decide) (by decide) _ _

def below (num den : Nat) (e : Int) : Nat := (scale 10 num den (-e)).1 / (scale 10 num den (-e)).2

theorem below_le (num : Nat) {den : Nat} (hden : 0 < den) (e : Int) :
    amount ⟨below num den e, e⟩ ≤ num / den ∧
      (num / den : ℚ) < amount ⟨below num den e, e⟩ + 10 ^ e := by
  have hpow : (0 : ℚ) < 10 ^ e := zpow_pos (by norm_num) e
  have hratio := scale_ratio (show 0 < 10 by decide) num den (-e)
  rw [Nat.cast_ofNat] at hratio
  have hpos := scale_den_pos (show 0 < 10 by decide) hden num (-e)
  have hfloor := Nat.floor_div_eq_div (K := ℚ) (scale 10 num den (-e)).1 (scale 10 num den (-e)).2
  rw [hratio] at hfloor
  have hv : (num / den : ℚ) = num / den * 10 ^ (-e) * 10 ^ e := by
    rw [mul_assoc, ← zpow_add₀ (by norm_num), neg_add_cancel, zpow_zero, mul_one]
  have hnonneg : (0 : ℚ) ≤ num / den * 10 ^ (-e) := by positivity
  rw [amount, below, ← hfloor]
  constructor
  · conv_rhs => rw [hv]
    exact mul_le_mul_of_nonneg_right (Nat.floor_le hnonneg) hpow.le
  · conv_lhs => rw [hv]
    rw [← add_one_mul]
    exact mul_lt_mul_of_pos_right (Nat.lt_floor_add_one _) hpow

/-- On a grid of a quarter of the unit, the point below a magnitude lies in its basin. -/
theorem has_below {d : Dyad} (hm : 0 < d.mantissa) {e : Int} (he : 4 * (10 : ℚ) ^ e ≤ 2 ^ d.exponent) :
    (basin d).Has d.exponent (amount ⟨below d.ratio.1 d.ratio.2 e, e⟩) := by
  obtain ⟨hle, hlt⟩ := below_le d.ratio.1 (ratio_den_pos d) e
  rw [ratio_eq, magnitude] at hle hlt
  generalize amount ⟨below d.ratio.1 d.ratio.2 e, e⟩ = v at hle hlt
  have hpow : (0 : ℚ) < 2 ^ (2 - d.exponent) := zpow_pos (by norm_num) _
  have hunit : (2 : ℚ) ^ d.exponent * 2 ^ (2 - d.exponent) = 4 := by
    rw [← zpow_add₀ (by norm_num), add_sub_cancel]
    norm_num
  have hvalue : (d.mantissa : ℚ) * 2 ^ d.exponent * 2 ^ (2 - d.exponent) = 4 * d.mantissa := by
    rw [mul_assoc, hunit, mul_comm]
  have hhigh : v * 2 ^ (2 - d.exponent) ≤ 4 * d.mantissa := by
    rw [← hvalue]
    exact mul_le_mul_of_nonneg_right hle hpow.le
  have hstep : (10 : ℚ) ^ e * 2 ^ (2 - d.exponent) ≤ 1 := by
    have := mul_le_mul_of_nonneg_right he hpow.le
    rw [hunit] at this
    linarith
  have hlow : 4 * (d.mantissa : ℚ) - 1 < v * 2 ^ (2 - d.exponent) := by
    have := mul_lt_mul_of_pos_right hlt hpow
    rw [hvalue, add_mul] at this
    linarith
  have hlowCast : ((basin d).low : ℚ) ≤ 4 * d.mantissa - 1 := by
    have hnat : (basin d).low + 1 ≤ 4 * d.mantissa := by
      simp only [basin]
      split <;> omega
    have : ((basin d).low : ℚ) + 1 ≤ 4 * d.mantissa := by exact_mod_cast hnat
    linarith
  have hhighCast : ((basin d).high : ℚ) = 4 * d.mantissa + 2 := by simp [basin]
  refine ⟨by linarith, by linarith, fun _ => ⟨by linarith, by linarith⟩⟩

/-- The walk over ever finer grids ends in the basin if one of the grids has its lower point there. -/
theorem has_shortestFrom {b : Basin} {q : Int} {num den : Nat} :
    ∀ {steps : Nat} {e : Int}, (∃ k < steps, b.Has q (amount ⟨below num den (e - k), e - k⟩)) →
      b.Has q (amount (shortestFrom b q num den steps e)) := by
  intro steps
  induction steps with
  | zero =>
    rintro e ⟨k, hk, -⟩
    omega
  | succ steps ih =>
    rintro e ⟨k, hk, hhas⟩
    have hbelow : b.holds q (below num den e) e = true ↔ b.Has q (amount ⟨below num den e, e⟩) :=
      Basin.holds_iff
    have habove : b.holds q (below num den e + 1) e = true ↔
        b.Has q (amount ⟨below num den e + 1, e⟩) := Basin.holds_iff
    rw [shortestFrom]
    simp only
    rw [← below]
    split
    · rename_i h h'
      rcases Nat.of_le_succ (roundDiv_bounds _ _).2 with hle | heq
      · rw [le_antisymm hle (roundDiv_bounds _ _).1]
        exact hbelow.mp h
      · rw [heq]
        exact habove.mp h'
    · rename_i h _
      exact hbelow.mp h
    · rename_i _ h
      exact habove.mp h
    · rename_i h _
      apply ih
      cases k with
      | zero =>
        rw [Nat.cast_zero, sub_zero] at hhas
        rw [hbelow.mpr hhas] at h
        cases h
      | succ k =>
        refine ⟨k, by omega, ?_⟩
        rwa [show e - 1 - (k : Int) = e - (k + 1 : Nat) by omega]

/-- The shortest decimal of a magnitude lies in its basin: 18 digits are always enough. -/
theorem has_shortest {d : Dyad} (hm : 0 < d.mantissa) (hlt : d.mantissa < 2 ^ 53) :
    (basin d).Has d.exponent (amount (shortest d)) := by
  have hpow : (0 : ℚ) < 2 ^ d.exponent := zpow_pos (by norm_num) _
  have hnum : 0 < d.ratio.1 := by
    rw [← Nat.cast_pos (α := ℚ), ← div_pos_iff_of_pos_right (Nat.cast_pos.mpr (ratio_den_pos d)),
      ratio_eq, magnitude]
    exact mul_pos (by exact_mod_cast hm) hpow
  have hgrid : 4 * (10 : ℚ) ^ (decimalOrder d.ratio.1 d.ratio.2 + 1 - (19 : Nat)) ≤ 2 ^ d.exponent := by
    have horder := (decimalOrder_bounds hnum (ratio_den_pos d)).1
    rw [ratio_eq, magnitude] at horder
    have hcast : (d.mantissa : ℚ) ≤ 2 ^ 53 := by exact_mod_cast hlt.le
    generalize decimalOrder d.ratio.1 d.ratio.2 = o at horder ⊢
    calc (4 * (10 : ℚ) ^ (o + 1 - (19 : Nat))) = 4 * 10 ^ (-18 : Int) * 10 ^ o := by
          rw [mul_assoc, ← zpow_add₀ (by norm_num)]
          congr 2
          omega
      _ ≤ 4 * 10 ^ (-18 : Int) * (2 ^ 53 * 2 ^ d.exponent) := by
          gcongr
          exact horder.trans (mul_le_mul_of_nonneg_right hcast hpow.le)
      _ = (4 * 10 ^ (-18 : Int) * 2 ^ 53) * 2 ^ d.exponent := by ring
      _ ≤ 1 * 2 ^ d.exponent := by
          refine mul_le_mul_of_nonneg_right ?_ hpow.le
          norm_num
      _ = 2 ^ d.exponent := one_mul _
  rw [shortest, if_neg hm.ne']
  exact has_shortestFrom ⟨19, by decide, has_below hm hgrid⟩

theorem amount_trimFrom (steps : Nat) (x : Decimal) : amount (trimFrom steps x) = amount x := by
  induction steps generalizing x with
  | zero => rfl
  | succ steps ih =>
    rw [trimFrom]
    split
    · rename_i h
      obtain ⟨k, hk⟩ : ∃ k, x.digits = 10 * k := Nat.dvd_of_mod_eq_zero h.1
      rw [ih, amount, amount, hk, Nat.mul_div_cancel_left k (by decide), zpow_add_one₀ (by norm_num)]
      push_cast
      ring
    · rfl

theorem amount_trim (x : Decimal) : amount x.trim = amount x := amount_trimFrom _ x

theorem Basin.Has.amount_bounds {d : Dyad} (hd : Canonical d.mantissa d.exponent) (hq : d.exponent ≤ 971)
    {v : ℚ} (h : (basin d).Has d.exponent v) : (2 : ℚ) ^ (-1075 : Int) ≤ v ∧ v < 2 ^ (1025 : Int) := by
  have hpow : (0 : ℚ) < 2 ^ (d.exponent - 2) := zpow_pos (by norm_num) _
  have hback : v = v * 2 ^ (2 - d.exponent) * 2 ^ (d.exponent - 2) := by
    rw [mul_assoc, ← zpow_add₀ (by norm_num), show 2 - d.exponent + (d.exponent - 2) = 0 by ring,
      zpow_zero, mul_one]
  have hlowNat : 2 ≤ (basin d).low := by
    have := hd.pos
    simp only [basin]
    split <;> omega
  have hlow : (2 : ℚ) ≤ v * 2 ^ (2 - d.exponent) := le_trans (by exact_mod_cast hlowNat) h.low
  have hhigh : v * 2 ^ (2 - d.exponent) < 2 ^ (56 : Int) := by
    refine lt_of_le_of_lt h.high ?_
    have := hd.lt
    have hnat : (basin d).high < 2 ^ 56 := by
      simp only [basin]
      omega
    exact_mod_cast hnat
  constructor
  · calc (2 : ℚ) ^ (-1075 : Int) ≤ 2 ^ (1 + (d.exponent - 2)) := by
          apply zpow_le_zpow_right₀ (by norm_num)
          have := hd.least
          omega
      _ = 2 * 2 ^ (d.exponent - 2) := by rw [zpow_add₀ (by norm_num), zpow_one]
      _ ≤ v := by
          rw [hback]
          exact mul_le_mul_of_nonneg_right hlow hpow.le
  · calc v < 2 ^ (56 : Int) * 2 ^ (d.exponent - 2) := by
          rw [hback]
          exact mul_lt_mul_of_pos_right hhigh hpow
      _ = 2 ^ (56 + (d.exponent - 2)) := by rw [zpow_add₀ (by norm_num)]
      _ ≤ 2 ^ (1025 : Int) := by
          apply zpow_le_zpow_right₀ (by norm_num)
          omega

end Decimal

theorem Binary64.decode_ofDecimal {d : Dyad} (hd : Canonical d.mantissa d.exponent)
    (hq : d.exponent ≤ 971) {n : Nat} {e : Int}
    (h : (Decimal.basin d).Has d.exponent (Decimal.amount ⟨n, e⟩)) :
    decode (ofDecimal n e) = .finite ⟨false, d.mantissa, d.exponent⟩ := by
  obtain ⟨hlow, hhigh⟩ := h.amount_bounds hd hq
  have hpos : (0 : ℚ) < Decimal.amount ⟨n, e⟩ := lt_of_lt_of_le (zpow_pos (by norm_num) _) hlow
  have hn : 0 < n := by
    rcases Nat.eq_zero_or_pos n with rfl | hn
    · simp [Decimal.amount] at hpos
    · exact hn
  obtain ⟨hlength, hlength'⟩ := decimalLength_bounds hn
  have hpow : (0 : ℚ) < 10 ^ e := zpow_pos (by norm_num) _
  -- the decimal lies between the powers of ten that its length tells
  have hleading : (10 : ℚ) ^ ((decimalLength n : Int) + e - 1) ≤ Decimal.amount ⟨n, e⟩ := by
    have hcast : (10 : ℚ) ^ ((decimalLength n : Int) - 1) ≤ n := by
      have hlong : 0 < decimalLength n := Nat.length_toDigits_pos
      rw [show (decimalLength n : Int) - 1 = (decimalLength n - 1 : Nat) by omega]
      exact_mod_cast hlength
    rw [add_sub_right_comm, zpow_add₀ (by norm_num)]
    exact mul_le_mul_of_nonneg_right hcast hpow.le
  have hfollowing : Decimal.amount ⟨n, e⟩ < (10 : ℚ) ^ ((decimalLength n : Int) + e) := by
    have hcast : (n : ℚ) < 10 ^ (decimalLength n : Int) := by
      have hlong : 0 < decimalLength n := Nat.length_toDigits_pos
      rw [Nat.sub_add_cancel hlong] at hlength'
      exact_mod_cast hlength'
    rw [zpow_add₀ (by norm_num)]
    exact mul_lt_mul_of_pos_right hcast hpow
  have hsmall : ¬ (decimalLength n : Int) + e < -330 := by
    intro hlt
    have hle : (10 : ℚ) ^ ((decimalLength n : Int) + e) ≤ 10 ^ (-331 : Int) :=
      zpow_le_zpow_right₀ (by norm_num) (by omega)
    have hfar : (10 : ℚ) ^ (-331 : Int) < 2 ^ (-1075 : Int) := by
      have hnat : 2 ^ 1075 < 10 ^ 331 := by decide +kernel
      rw [zpow_neg, zpow_neg]
      exact inv_strictAnti₀ (zpow_pos (by norm_num) _) (by exact_mod_cast hnat)
    exact absurd (hlow.trans_lt (hfollowing.trans_le hle)) hfar.asymm
  have hlarge : ¬ 320 < (decimalLength n : Int) + e := by
    intro hlt
    have hle : (10 : ℚ) ^ (320 : Int) ≤ 10 ^ ((decimalLength n : Int) + e - 1) :=
      zpow_le_zpow_right₀ (by norm_num) (by omega)
    have hfar : (2 : ℚ) ^ (1025 : Int) < 10 ^ (320 : Int) := by
      have hnat : 2 ^ 1025 < 10 ^ 320 := by decide +kernel
      exact_mod_cast hnat
    exact absurd ((hle.trans hleading).trans_lt hhigh) hfar.asymm
  rw [ofDecimal]
  simp only
  rw [if_neg (not_or.mpr ⟨hn.ne', hsmall⟩), if_neg hlarge, nearest, decode_ofBits_nearestBits,
    nearestBits_of_has hd hq (scale_den_pos (by decide) (by decide) n e)
      (h.congr (Decimal.amount_eq n e).symm)]
  exact (ofBits_canonicalBits hd hq).2

end AssignmentSearch
