import AssignmentSearch.Proofs.Binary64.Whole
import AssignmentSearch.Proofs.Quantity.Lawful

/-!
# Doubles as quantities

The value of a finite double is its rank in units of one. Differences are rounded to the nearest
double, or to an infinity, and this rounding is monotone.
-/

namespace AssignmentSearch

namespace Binary64

noncomputable def valueOf (x : Float) : ℝ := rank (decode x) / unit

noncomputable def roundValue (r : ℝ) : ℝ := roundRank ⌊r * unit⌋ / unit

theorem unit_real_pos : (0 : ℝ) < unit := Nat.cast_pos.mpr unit_pos

theorem roundValue_mono : Monotone roundValue := by
  intro a b h
  have hscaled : a * unit ≤ b * unit := mul_le_mul_of_nonneg_right h unit_real_pos.le
  have hrank : roundRank ⌊a * unit⌋ ≤ roundRank ⌊b * unit⌋ := roundRank_mono (Int.floor_mono hscaled)
  exact div_le_div_of_nonneg_right (Int.cast_le.mpr hrank) unit_real_pos.le

theorem roundValue_rank (n : Int) : roundValue (n / unit) = roundRank n / unit := by
  rw [roundValue, div_mul_cancel₀ _ unit_real_pos.ne', Int.floor_intCast]

theorem roundValue_valueOf {x : Float} (h : IsFinite x) : roundValue (valueOf x) = valueOf x := by
  rw [valueOf, roundValue_rank, roundRank_rank h]

theorem valueOf_le_iff {x y : Float} : valueOf x ≤ valueOf y ↔ rank (decode x) ≤ rank (decode y) := by
  rw [valueOf, valueOf, div_le_div_iff_of_pos_right unit_real_pos, Int.cast_le]

theorem valueOf_lt_iff {x y : Float} : valueOf x < valueOf y ↔ rank (decode x) < rank (decode y) := by
  rw [valueOf, valueOf, div_lt_div_iff_of_pos_right unit_real_pos, Int.cast_lt]

theorem valueOf_sub {x y : Float} (hx : IsFinite x) (hy : IsFinite y) :
    valueOf (x - y) = roundValue (valueOf x - valueOf y) := by
  rw [valueOf, rank_sub hx hy, valueOf, valueOf, ← sub_div, ← Int.cast_sub, roundValue_rank]

theorem valueOf_neg {x : Float} (h : IsFinite x) : valueOf (-x) = -valueOf x := by
  rw [valueOf, rank_neg h, Int.cast_neg, neg_div, valueOf]

theorem valueOf_of_isWhole {x : Float} {n : Int} (h : IsWhole x n) : valueOf x = n := by
  rw [valueOf, h.rank_eq, Int.cast_mul, Int.cast_natCast, mul_div_cancel_right₀ _ unit_real_pos.ne']

theorem isWhole_one : IsWhole 1 1 := by
  obtain ⟨x, hx, hw⟩ := ofInt?_isWhole (n := 1) (by decide)
  have h1 : ofInt? 1 = some 1 := by decide +kernel
  rw [h1] at hx
  cases hx
  exact hw

theorem decode_tolerance : decode 1e-4 = .finite ⟨false, 7378697629483821, -66⟩ := by
  decide +kernel

theorem valueOf_tolerance_pos : 0 < valueOf 1e-4 := by
  rw [valueOf, decode_tolerance]
  refine div_pos (Int.cast_pos.mpr ?_) unit_real_pos
  exact Int.natCast_pos.mpr (magnitude_pos (by decide))

theorem le_of_float_lt {x y : Float} (h : x < y) : x ≤ y := by
  change decide ((x.toModel.unpack.compare y.toModel.unpack == some .lt) = true) = true at h
  change decide ((x.toModel.unpack.compare y.toModel.unpack).any (·.isLE) = true) = true
  rw [decide_eq_true_iff, beq_iff_eq] at h
  rw [h]
  rfl

theorem ne_nan_of_le {x y : Float} (h : x ≤ y) : decode x ≠ .nan ∧ decode y ≠ .nan := by
  have hcompared : ∀ u v : Float.Model.UnpackedFloat, (u.compare v).any (·.isLE) = true →
      ofUnpacked u ≠ .nan ∧ ofUnpacked v ≠ .nan := by
    intro u v
    cases u <;> cases v <;> simp [ofUnpacked, Float.Model.UnpackedFloat.compare]
  change decide ((x.toModel.unpack.compare y.toModel.unpack).any (·.isLE) = true) = true at h
  rw [← ofUnpacked_toModel x, ← ofUnpacked_toModel y]
  exact hcompared _ _ (of_decide_eq_true h)

theorem exists_rank_of_unit {x : Float} (hzero : 0 ≤ x) (hone : x < 1) :
    IsFinite x ∧ ∃ b : Nat, rank (decode x) = b ∧ b < unit := by
  have hnan := (ne_nan_of_le hzero).2
  rw [le_iff_rank isWhole_zero.finite.ne_nan hnan, isWhole_zero.rank_eq, Int.zero_mul] at hzero
  rw [lt_iff_rank hnan isWhole_one.finite.ne_nan, isWhole_one.rank_eq, Int.one_mul] at hone
  refine ⟨isFinite_of_rank hnan ?_, (rank (decode x)).toNat, by omega, by omega⟩
  have hunit := abs_mul_unit_lt (n := 1) (by decide)
  rw [Int.one_mul, Nat.abs_cast] at hunit
  rw [abs_of_nonneg hzero]
  exact hone.trans hunit

theorem zero_le_nearest {k : Nat} (h : k < 2 ^ 53) : 0 ≤ nearest k (2 * hiddenBit) := by
  obtain ⟨hfinite, hrank⟩ := nearest_two_pow (b := 53) h (by decide)
  have hden : 2 * hiddenBit = 2 ^ 53 := rfl
  rw [hden, le_iff_rank isWhole_zero.finite.ne_nan hfinite.ne_nan, hrank, isWhole_zero.rank_eq,
    Int.zero_mul]
  exact Int.natCast_nonneg _

theorem nearest_lt_one {k : Nat} (h : k < 2 ^ 53) : nearest k (2 * hiddenBit) < 1 := by
  obtain ⟨hfinite, hrank⟩ := nearest_two_pow (b := 53) h (by decide)
  have hone := isWhole_one
  have hden : 2 * hiddenBit = 2 ^ 53 := rfl
  rw [hden, lt_iff_rank hfinite.ne_nan hone.finite.ne_nan, hrank, hone.rank_eq, Int.one_mul, unit]
  refine Int.ofNat_lt.mpr ?_
  calc k * 2 ^ (-(53 : Nat) + 1074 : Int).toNat < 2 ^ 53 * 2 ^ (-(53 : Nat) + 1074 : Int).toNat :=
        Nat.mul_lt_mul_of_pos_right h (Nat.two_pow_pos _)
    _ = magnitude 1 0 := by
        rw [magnitude, Nat.one_mul, ← Nat.pow_add]
        congr 1

end Binary64

open Binary64

theorem Dyad.floor_nonneg_iff {d : Dyad} : 0 ≤ d.floor ↔ 0 ≤ rank (.finite d) := by
  have hden : 0 < d.ratio.2 := scale_den_pos (by decide) (by decide) _ _
  rw [Dyad.floor_eq, rank]
  cases hd : d.negative with
  | false =>
    rw [if_neg Bool.false_ne_true, if_neg Bool.false_ne_true]
    exact iff_of_true (Int.natCast_nonneg _) (Int.natCast_nonneg _)
  | true =>
    rw [if_pos rfl, if_pos rfl]
    rcases Nat.eq_zero_or_pos d.mantissa with hzero | hpos
    · have hnum : d.ratio.1 = 0 := by
        simp only [Dyad.ratio, scale, hzero, Nat.zero_mul]
        split <;> rfl
      rw [hnum, Nat.zero_add, Nat.div_eq_of_lt (by omega), hzero, magnitude, Nat.zero_mul]
    · have hnum : 0 < d.ratio.1 := by
        simp only [Dyad.ratio, scale]
        split
        · exact Nat.mul_pos hpos (Nat.pow_pos (by decide))
        · exact hpos
      have hfloor : 0 < (d.ratio.1 + d.ratio.2 - 1) / d.ratio.2 := Nat.div_pos (by omega) hden
      have hmagnitude := magnitude_pos (e := d.exponent) hpos
      omega

noncomputable instance : LawfulQuantity Float where
  IsFinite := IsFinite
  value := valueOf
  round := roundValue
  round_mono := roundValue_mono
  round_value := roundValue_valueOf
  le_iff hx hy := (le_iff_rank hx.ne_nan hy.ne_nan).trans valueOf_le_iff.symm
  le_of_lt := le_of_float_lt
  le_sub_iff ht hx hy := by
    rw [← valueOf_sub hx hy, valueOf_le_iff]
    exact le_iff_rank ht.ne_nan (decode_sub_ne_nan hx hy)
  sub_le_iff ht hx hy := by
    rw [← valueOf_sub hx hy, valueOf_le_iff]
    exact le_iff_rank (decode_sub_ne_nan hx hy) ht.ne_nan
  lt_sub_iff ht hx hy := by
    rw [← valueOf_sub hx hy, valueOf_lt_iff]
    exact lt_iff_rank ht.ne_nan (decode_sub_ne_nan hx hy)
  isFinite_zero := isWhole_zero.finite
  value_zero := (valueOf_of_isWhole isWhole_zero).trans Int.cast_zero
  isFinite_one := isWhole_one.finite
  value_one := (valueOf_of_isWhole isWhole_one).trans Int.cast_one
  isFinite_tolerance := ⟨_, decode_tolerance⟩
  tolerance_pos := valueOf_tolerance_pos
  isFinite_neg := IsFinite.neg
  value_neg := valueOf_neg
  intLe_zero_one := by decide +kernel
  isSome_ofInt?_zero := by decide +kernel
  zero_le_fraction := zero_le_nearest
  fraction_lt_one := nearest_lt_one

end AssignmentSearch
