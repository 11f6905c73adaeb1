import AssignmentSearch.Proofs.Binary64.Product

/-!
# Quotients of doubles

The rank of a quotient is that of the exact one, rounded to 53 bits and to the least positive
double, and what is infinite stays so. A quotient of a greater double by a smaller positive one lies
no nearer to zero.
-/

namespace AssignmentSearch
open Float.Model Float.Model.UnpackedFloat

namespace Binary64

def quotientRank (a b : Nat) : Nat :=
  if ceiling ≤ a then ceiling else min (nearestRatio (a * unit) b) ceiling

theorem quotientRank_mono {a a' b b' : Nat} (hb : 0 < b) (ha : a ≤ a') (hbb : b ≤ b') :
    quotientRank a b' ≤ quotientRank a' b := by
  by_cases hinfinite : ceiling ≤ a'
  · rw [quotientRank, quotientRank, if_pos hinfinite]
    split
    · exact le_rfl
    · exact Nat.min_le_right _ _
  · have hratio : nearestRatio (a * unit) b' ≤ nearestRatio (a' * unit) b :=
      nearestRatio_le (hb.trans_le hbb) hb (Nat.mul_le_mul (Nat.mul_le_mul_right _ ha) hbb)
    rw [quotientRank, quotientRank, if_neg hinfinite,
      if_neg fun h => hinfinite (h.trans ha)]
    exact min_le_min_right _ hratio

theorem div_positive (s : Sign) : s / .positive = s := by
  cases s <;> rfl

/-- The quotient of two mantissas gets enough bits, or its exponent is low enough. -/
theorem divCore_enough {m n : Nat} {e f t : Int} {i : Nat} (hm : 0 < m) (hn : 0 < n)
    (ht : min (e - f) (Format.binary64.targetExponent (totalExponent m e - totalExponent n f)) = t)
    (hi : (e - f - t).toNat = i) :
    t ≤ max (((m <<< i / n).log2 : Int) + t - 52) (-1074) := by
  have htarget : Format.binary64.targetExponent (totalExponent m e - totalExponent n f) =
      max ((m.log2 : Int) + e - (n.log2 + f) - 53) (-1074) := by
    change max (((m.log2 : Int) + 1 + e) - (n.log2 + 1 + f) - (53 : Nat)) (-1074) = _
    congr 1
    omega
  rw [htarget] at ht
  by_cases hlow : t ≤ -1074
  · exact le_max_of_le_right hlow
  · have hbits : n.log2 + 53 ≤ m.log2 + i := by omega
    have hlarge : 2 ^ 52 * n ≤ m <<< i := by
      calc 2 ^ 52 * n ≤ 2 ^ 52 * 2 ^ (n.log2 + 1) := Nat.mul_le_mul_left _ Nat.lt_log2_self.le
        _ = 2 ^ (n.log2 + 53) := by
            rw [← Nat.pow_add]
            congr 1
            omega
        _ ≤ 2 ^ (m.log2 + i) := Nat.pow_le_pow_right (by decide) hbits
        _ = 2 ^ m.log2 * 2 ^ i := Nat.pow_add _ _ _
        _ ≤ m * 2 ^ i := Nat.mul_le_mul_right _ (Nat.log2_self_le hm.ne')
        _ = m <<< i := (Nat.shiftLeft_eq _ _).symm
    have hquotient : 2 ^ 52 ≤ m <<< i / n := (Nat.le_div_iff_mul_le hn).mpr hlarge
    have hlog : 52 ≤ (m <<< i / n).log2 :=
      (Nat.le_log2 (Nat.lt_of_lt_of_le (Nat.two_pow_pos 52) hquotient).ne').mpr hquotient
    exact le_max_of_le_left (by omega)

theorem packsTo_div_finite (s : Sign) {m n : Nat} {e f : Int} (hm : Canonical m e)
    (hn : Canonical n f) :
    PacksTo ((UnpackedFloat.finite s m e hm.pos).div Format.binary64 (.finite .positive n f hn.pos))
      (s.apply (min (nearestRatio (magnitude m e * unit) (magnitude n f)) ceiling : Nat)) := by
  obtain ⟨t, ht⟩ : ∃ t, min (e - f) (Format.binary64.targetExponent
    (totalExponent m e - totalExponent n f)) = t := ⟨_, rfl⟩
  obtain ⟨i, hi⟩ : ∃ i : Nat, (e - f - t).toNat = i := ⟨_, rfl⟩
  -- The exponent of the quotient may lie below the least one, by `k`.
  obtain ⟨k, hk⟩ : ∃ k : Nat, (-1074 - t).toNat = k := ⟨_, rfl⟩
  have hleast : t ≤ e - f := by
    rw [← ht]
    exact min_le_left _ _
  have hsame : nearestRatio (m <<< i * 2 ^ (t + 1074 + k).toNat) (n * 2 ^ k) =
      nearestRatio (magnitude m e * unit) (magnitude n f) := by
    refine nearestRatio_eq (Nat.mul_pos hn.pos (Nat.two_pow_pos k)) (magnitude_pos hn.pos) ?_
    have he := hm.least
    have hf := hn.least
    have hbits : unitBits = 1074 := rfl
    have hexp : i + (t + 1074 + k).toNat + (f + 1074).toNat = (e + 1074).toNat + unitBits + k := by
      omega
    calc m <<< i * 2 ^ (t + 1074 + k).toNat * magnitude n f
        = m * n * 2 ^ (i + (t + 1074 + k).toNat + (f + 1074).toNat) := by
          rw [magnitude, Nat.shiftLeft_eq, Nat.pow_add, Nat.pow_add]
          ring
      _ = magnitude m e * unit * (n * 2 ^ k) := by
          rw [hexp, magnitude, unit_eq, Nat.pow_add, Nat.pow_add]
          ring
  have hdiv : (UnpackedFloat.finite s m e hm.pos).div Format.binary64 (.finite .positive n f hn.pos) =
      roundWithAccuracy Format.binary64 s (m <<< i / n) t (accuracyOfFraction (m <<< i % n) n) := by
    simp only [UnpackedFloat.div, divCore, ht, hi, div_positive]
  rw [hdiv, ← hsame]
  rcases roundWithAccuracy_ratio (s := s) (k := k) hn.pos (by omega)
    (divCore_enough hm.pos hn.pos ht hi) with ⟨hzero, hround⟩ | ⟨r, g, hr, hround, hcan, hmag⟩
  · rw [hround, hzero, Nat.zero_min]
    have hpacks := packsTo_zero s
    rw [roundRank_zero] at hpacks
    cases s <;> exact hpacks
  · rw [hround, ← hmag]
    exact packsTo_magnitude s hr hcan

theorem packsTo_infinity (s : Sign) : PacksTo (.infinity s) (s.apply ceiling) := by
  rw [PacksTo, decode_pack_infinity]
  refine ⟨by simp, ?_⟩
  cases s <;> rfl

theorem packsTo_div {s : Sign} {u : UnpackedFloat} {n a : Nat} {f : Int} (hu : Proper u)
    (hn : Canonical n f) (hrank : rank (ofUnpacked u) = s.apply a) (ha : 0 < a) :
    PacksTo (u.div Format.binary64 (.finite .positive n f hn.pos))
      (s.apply (quotientRank a (magnitude n f))) := by
  cases u with
  | notANumber =>
    cases s <;> simp only [Sign.apply, ofUnpacked, rank] at hrank <;> omega
  | zero t =>
    rw [rank_ofUnpacked_zero] at hrank
    cases s <;> simp only [Sign.apply] at hrank <;> omega
  | infinity t =>
    rw [rank_ofUnpacked_infinity] at hrank
    obtain ⟨rfl, rfl⟩ := apply_inj ceiling_pos ha hrank
    rw [quotientRank, if_pos le_rfl, UnpackedFloat.div, div_positive]
    exact packsTo_infinity t
  | finite t m e hm =>
    rw [rank_ofUnpacked_finite] at hrank
    obtain ⟨rfl, rfl⟩ := apply_inj (magnitude_pos hm) ha hrank
    have hlt := magnitude_lt_ceiling hu.1.lt hu.2
    rw [quotientRank, if_neg (Nat.not_le.mpr hlt)]
    exact packsTo_div_finite t hu.1 hn

/-- What is known of a quotient by a positive double, by the sign and the rank of the dividend. -/
theorem rank_div {x h : Float} {s : Sign} {a b : Nat} (ha : 0 < a) (hb : 0 < b)
    (hx : rank (decode x) = s.apply a) (hh : IsFinite h) (hrank : rank (decode h) = b) :
    decode (x / h) ≠ .nan ∧ rank (decode (x / h)) = s.apply (quotientRank a b) := by
  obtain ⟨t, n, f, hn, hu, hcan⟩ := unpack_of_rank_ne_zero hh (by omega)
  rw [← ofUnpacked_toModel, hu, rank_ofUnpacked_finite] at hrank
  obtain ⟨rfl, rfl⟩ := positive_of_apply (magnitude_pos hn) hrank
  rw [← ofUnpacked_toModel] at hx
  have hpacks := packsTo_div (proper_toModel x) hcan hx ha
  rw [← hu] at hpacks
  exact hpacks

theorem decode_neg_infinite {x : Float} {negative : Bool} (h : decode x = .infinite negative) :
    decode (-x) = .infinite !negative := by
  change decode (.ofModel (Float.Model.pack x.toModel.unpack.neg)) = _
  rw [← ofUnpacked_toModel] at h
  cases hu : x.toModel.unpack with
  | notANumber => simp [hu, ofUnpacked] at h
  | zero s => simp [hu, ofUnpacked] at h
  | finite s m e hm => simp [hu, ofUnpacked] at h
  | infinity s =>
    rw [hu, ofUnpacked, infinite.injEq] at h
    rw [UnpackedFloat.neg, decode_pack_infinity, ← h]
    cases s <;> rfl

theorem rank_neg_of_ne_nan {x : Float} (h : decode x ≠ .nan) :
    rank (decode (-x)) = -rank (decode x) := by
  cases hx : decode x with
  | nan => exact absurd hx h
  | infinite negative =>
    rw [decode_neg_infinite hx]
    cases negative
    · rfl
    · exact (Int.neg_neg _).symm
  | finite d =>
    rw [rank_neg ⟨d, hx⟩, hx]

theorem rank_neg_div {x h : Float} {a b : Nat} (ha : 0 < a) (hb : 0 < b) (hx : decode x ≠ .nan)
    (hrankx : rank (decode x) = a) (hh : IsFinite h) (hrank : rank (decode h) = b) :
    decode (-x / h) ≠ .nan ∧ rank (decode (-x / h)) = -(quotientRank a b : Int) := by
  have hneg : rank (decode (-x)) = Sign.negative.apply a := by
    rw [rank_neg_of_ne_nan hx, hrankx, Sign.apply]
  have hdiv := rank_div ha hb hneg hh hrank
  rwa [Sign.apply] at hdiv

end Binary64
end AssignmentSearch
