import AssignmentSearch.Proofs.Binary64.Encoding
import AssignmentSearch.Proofs.Binary64.Nearest

/-!
# Sums and differences of doubles

The rank of a sum or a difference is that of the exact result, rounded to 53 bits and kept within
the infinities. So arithmetic on doubles respects their order.
-/

namespace AssignmentSearch
open Float.Model Float.Model.UnpackedFloat

namespace Binary64

/-- The quotient of two naturals as a mantissa, with what is left over in its two residual bits. -/
def residual (num den : Nat) : ExtendedMantissa where
  mantissa := num / den
  roundBit := decide (den ≤ 2 * (num % den))
  stickyBit := decide (num % den ≠ 0 ∧ 2 * (num % den) ≠ den)

theorem shiftRightOne_residual (num : Nat) {den : Nat} (hden : 0 < den) :
    (residual num den).shiftRightOne = residual num (2 * den) := by
  have hlt : num % den < den := Nat.mod_lt _ hden
  have hmod : num % (2 * den) = num % den + den * (num / den % 2) := by
    rw [Nat.mul_comm, Nat.mod_mul]
  have hdiv : num / den / 2 = num / (2 * den) := by rw [Nat.div_div_eq_div_mul, Nat.mul_comm]
  simp only [residual, ExtendedMantissa.shiftRightOne, ExtendedMantissa.mk.injEq, hdiv, true_and]
  rw [hmod]
  generalize num % den = r at *
  rcases Nat.mod_two_eq_zero_or_one (num / den) with h | h
  · have h1 : ¬ 2 * den ≤ 2 * r := by omega
    have h2 : 2 * r ≠ 2 * den := by omega
    by_cases h3 : r = 0
    · simp [h, h3]; omega
    · by_cases h4 : 2 * r = den
      · simp [h, h3, h4]; omega
      · simp [h, h1, h2, h3, h4]
  · have h1 : 2 * den ≤ 2 * (r + den) := by omega
    by_cases h3 : r = 0
    · simp [h, h3]; omega
    · by_cases h4 : 2 * r = den <;> simp [h, h3, h4]

theorem residual_shiftRight (num : Nat) {den : Nat} (hden : 0 < den) (n : Nat) :
    residual num den >>> n = residual num (den * 2 ^ n) := by
  induction n with
  | zero => rw [Nat.pow_zero, Nat.mul_one]; rfl
  | succ n ih =>
    have hpos : 0 < den * 2 ^ n := Nat.mul_pos hden (Nat.two_pow_pos n)
    have hpow : den * 2 ^ (n + 1) = 2 * (den * 2 ^ n) := by rw [Nat.pow_succ]; ring
    rw [hpow, ← shiftRightOne_residual num hpos, ← ih]
    rfl

theorem ofMantissa_accuracyOfFraction (num : Nat) {den : Nat} (hden : 0 < den) :
    ExtendedMantissa.ofMantissaAndAccuracy (num / den) (accuracyOfFraction (num % den) den) =
      residual num den := by
  rw [accuracyOfFraction, residual]
  generalize num % den = r
  by_cases h0 : r = 0
  · have hround : ¬ den ≤ 2 * r := by omega
    simp [ExtendedMantissa.ofMantissaAndAccuracy, h0, hden.ne']
  · rcases lt_trichotomy (2 * r) den with h | h | h
    · simp [ExtendedMantissa.ofMantissaAndAccuracy, h0, compare_lt_iff_lt.mpr h, h.ne, h]
    · simp [ExtendedMantissa.ofMantissaAndAccuracy, h0, h]
    · simp [ExtendedMantissa.ofMantissaAndAccuracy, h0, compare_gt_iff_gt.mpr h, h.ne', h.le]

theorem roundedMantissa_residual (num : Nat) {den : Nat} (hden : 0 < den) :
    (residual num den).roundedMantissa = roundDiv num den := by
  have hlt : num % den < den := Nat.mod_lt _ hden
  simp only [ExtendedMantissa.roundedMantissa, residual, roundDiv]
  generalize num % den = r at *
  generalize num / den = q at *
  rcases lt_trichotomy (2 * r) den with h | h | h
  · have h1 : ¬ den ≤ 2 * r := by omega
    have h2 : 2 * r ≠ den := by omega
    by_cases h3 : r = 0
    · subst h3
      simp [hden, hden.ne', ExtendedMantissa.accuracy, Accuracy.roundToNearestEven]
    · simp [h, h1, h2, h3, ExtendedMantissa.accuracy, Accuracy.roundToNearestEven]
  · have h3 : r ≠ 0 := by omega
    have h4 : ¬ 2 * r < den := by omega
    simp [h, h3, ExtendedMantissa.accuracy, Accuracy.roundToNearestEven]
    split <;> omega
  · have h1 : den ≤ 2 * r := by omega
    have h2 : 2 * r ≠ den := by omega
    have h3 : r ≠ 0 := by omega
    have h4 : ¬ 2 * r < den := by omega
    simp [h, h1, h2, h3, h4, ExtendedMantissa.accuracy, Accuracy.roundToNearestEven]

theorem targetExponent_eq (m : Nat) (e : Int) :
    Format.binary64.targetExponent (totalExponent m e) = max ((m.log2 : Int) + e - 52) (-1074) := by
  change max ((m.log2 : Int) + 1 + e - (53 : Nat)) (-1074) = _
  congr 1
  omega

theorem shiftToTargetExponent_ratio (num : Nat) {den : Nat} (hden : 0 < den) (e : Int) {n : Nat}
    {t : Int} (ht : max (((num / den).log2 : Int) + e - 52) (-1074) = t) (hn : (t - e).toNat = n) :
    shiftToTargetExponent Format.binary64 (num / den) e (accuracyOfFraction (num % den) den) =
      (residual num (den * 2 ^ n), e + n) := by
  simp only [shiftToTargetExponent, shiftToExponent, targetExponent_eq, ht, hn,
    ofMantissa_accuracyOfFraction num hden, residual_shiftRight num hden]

theorem accuracy_of_whole (m : Nat) : accuracyOfFraction (m % 1) 1 = .exact := by
  rw [Nat.mod_one, accuracyOfFraction, if_pos rfl]

theorem shiftToTargetExponent_eq (m : Nat) (e : Int) {n : Nat} {t : Int}
    (ht : max ((m.log2 : Int) + e - 52) (-1074) = t) (hn : (t - e).toNat = n) :
    shiftToTargetExponent Format.binary64 m e .exact = (residual m (2 ^ n), e + n) := by
  have hratio := shiftToTargetExponent_ratio m Nat.one_pos e (n := n) (t := t)
  rw [Nat.div_one, accuracy_of_whole, Nat.one_mul] at hratio
  exact hratio ht hn

private theorem shift_carry {r : Nat} {t : Int} (hpos : 0 < r) (hr : r ≤ 2 ^ 53) (ht : -1074 ≤ t)
    (hfull : 2 ^ 52 ≤ r ∨ t = -1074) :
    ∃ (n : Nat) (f : Int),
      (shiftToTargetExponent Format.binary64 r t .exact).1.mantissa = n ∧
        (shiftToTargetExponent Format.binary64 r t .exact).2 = f ∧ Canonical n f ∧
          magnitude n f = magnitude r t := by
  rcases Nat.lt_or_eq_of_le hr with hlt | rfl
  · have hlog : r.log2 < 53 := (Nat.log2_lt (by omega)).mpr hlt
    obtain ⟨t', ht'⟩ : ∃ t', max ((r.log2 : Int) + t - 52) (-1074) = t' := ⟨_, rfl⟩
    rw [shiftToTargetExponent_eq r t ht' (n := 0) (by omega)]
    refine ⟨r, t, by simp [residual], by simp, ⟨hpos, hlt, ht, hfull⟩, rfl⟩
  · have hlog : (2 ^ 53).log2 = 53 := Nat.log2_two_pow
    rw [shiftToTargetExponent_eq (2 ^ 53) t (t := t + 1) (n := 1) (by rw [hlog]; omega) (by omega)]
    refine ⟨2 ^ 52, t + 1, by simp [residual], by simp, ⟨by decide, by decide, by omega, by simp⟩, ?_⟩
    rw [magnitude, magnitude, ← Nat.pow_add, ← Nat.pow_add]
    congr 1
    omega

/-- The binade of a quotient at an exponent, in units of the least positive double: `k` is how far
the exponent may lie below the least one. -/
theorem quantum_ratio {num den k : Nat} {e t : Int} (hden : 0 < den) (hl : -1074 - (k : Int) ≤ e)
    (he : e ≤ t) (ht : max (((num / den).log2 : Int) + e - 52) (-1074) = t) :
    quantum (num * 2 ^ (e + 1074 + k).toNat / (den * 2 ^ k)) = 2 ^ (t + 1074).toNat := by
  obtain ⟨i, hi⟩ : ∃ i : Nat, (e + 1074 + k).toNat = i := ⟨_, rfl⟩
  rw [quantum, hi]
  congr 1
  rcases Nat.eq_zero_or_pos (num / den) with hzero | hpos
  · -- A quotient below one is kept only at the least exponent or below.
    rw [hzero, Nat.log2_zero] at ht
    have hik : 2 ^ i ≤ 2 ^ k := Nat.pow_le_pow_right (by decide) (by omega)
    have hlt : num * 2 ^ i < den * 2 ^ k :=
      Nat.mul_lt_mul_of_lt_of_le ((Nat.div_eq_zero_iff_lt hden).mp hzero) hik (Nat.two_pow_pos k)
    rw [Nat.div_eq_of_lt hlt, Nat.log2_zero]
    omega
  · rw [← Nat.div_div_eq_div_mul, log2_div_two_pow, log2_mul_two_pow_div hpos]
    omega

/-- A truncated quotient with enough bits is rounded to the nearest number that a double holds. Its
exponent may lie `k` below the least one, and the result may then be zero. -/
theorem roundWithAccuracy_ratio {s : Sign} {num den k : Nat} {e : Int} (hden : 0 < den)
    (hl : -1074 - (k : Int) ≤ e) (he : e ≤ max (((num / den).log2 : Int) + e - 52) (-1074)) :
    (nearestRatio (num * 2 ^ (e + 1074 + k).toNat) (den * 2 ^ k) = 0 ∧
        roundWithAccuracy Format.binary64 s (num / den) e (accuracyOfFraction (num % den) den) =
          .zero s) ∨
      ∃ (n : Nat) (f : Int) (hn : 0 < n),
        roundWithAccuracy Format.binary64 s (num / den) e (accuracyOfFraction (num % den) den) =
            .finite s n f hn ∧ Canonical n f ∧
          magnitude n f = nearestRatio (num * 2 ^ (e + 1074 + k).toNat) (den * 2 ^ k) := by
  generalize ht : max (((num / den).log2 : Int) + e - 52) (-1074) = t at he
  obtain ⟨a, ha⟩ : ∃ a : Nat, (t - e).toNat = a := ⟨_, rfl⟩
  have hea : e + (a : Int) = t := by omega
  have hquantum := quantum_ratio hden hl he ht
  have hbounds := roundDiv_quantum_le (num * 2 ^ (e + 1074 + k).toNat) (den * 2 ^ k)
  have hfull := @le_roundDiv_quantum (num * 2 ^ (e + 1074 + k).toNat) (den * 2 ^ k)
  generalize hr : roundDiv num (den * 2 ^ a) = r
  have hround : roundDiv (num * 2 ^ (e + 1074 + k).toNat) (den * 2 ^ k * 2 ^ (t + 1074).toNat) = r := by
    have hden' : den * 2 ^ k * 2 ^ (t + 1074).toNat = den * 2 ^ a * 2 ^ (e + 1074 + k).toNat := by
      rw [Nat.mul_assoc, Nat.mul_assoc, ← Nat.pow_add, ← Nat.pow_add]
      congr 2
      omega
    rw [hden', roundDiv_mul_mul _ _ (Nat.two_pow_pos _), hr]
  rw [nearestRatio, hquantum, hround, ← magnitude]
  rw [hquantum, hround] at hbounds hfull
  have hfull : 2 ^ 52 ≤ r ∨ t = -1074 := by
    by_cases h : t = -1074
    · exact Or.inr h
    · refine Or.inl (hfull ?_)
      have hlog : (t + 1074).toNat = (num * 2 ^ (e + 1074 + k).toNat / (den * 2 ^ k)).log2 - 52 :=
        Nat.pow_right_injective le_rfl hquantum.symm
      omega
  rcases Nat.eq_zero_or_pos r with rfl | hpos
  · have hleast : t = -1074 := hfull.resolve_left (by decide)
    have hzero : shiftToTargetExponent Format.binary64 0 t .exact =
        (residual 0 (2 ^ 0), t + (0 : Nat)) :=
      shiftToTargetExponent_eq 0 t (t := t) (by simp; omega) (by omega)
    refine Or.inl ⟨by rw [magnitude, Nat.zero_mul], ?_⟩
    simp only [roundWithAccuracy, shiftToTargetExponent_ratio num hden e ht ha,
      roundedMantissa_residual num (Nat.mul_pos hden (Nat.two_pow_pos a)), hr, hea, hzero]
    rfl
  · obtain ⟨n, f, h1, h2, hcan, hmag⟩ := shift_carry hpos hbounds (by omega) hfull
    refine Or.inr ⟨n, f, hcan.pos, ?_, hcan, hmag⟩
    simp only [roundWithAccuracy, shiftToTargetExponent_ratio num hden e ht ha,
      roundedMantissa_residual num (Nat.mul_pos hden (Nat.two_pow_pos a)), hr, hea, h1, h2]
    rw [dif_neg hcan.pos.ne']

theorem roundWithAccuracy_part {s : Sign} {m k : Nat} {e : Int}
    (hl : -1074 - (k : Int) ≤ e) (he : e ≤ max ((m.log2 : Int) + e - 52) (-1074)) :
    (nearestPart k (m * 2 ^ (e + 1074 + k).toNat) = 0 ∧
        roundWithAccuracy Format.binary64 s m e .exact = .zero s) ∨
      ∃ (n : Nat) (f : Int) (hn : 0 < n),
        roundWithAccuracy Format.binary64 s m e .exact = .finite s n f hn ∧ Canonical n f ∧
          magnitude n f = nearestPart k (m * 2 ^ (e + 1074 + k).toNat) := by
  have hratio := @roundWithAccuracy_ratio s m 1 k e Nat.one_pos hl
  rw [Nat.div_one, accuracy_of_whole, Nat.one_mul, ← nearestPart_eq_nearestRatio] at hratio
  exact hratio he

theorem roundWithAccuracy_exact {s : Sign} {m : Nat} {e : Int} (hm : 0 < m) (hl : -1074 ≤ e)
    (he : e ≤ max ((m.log2 : Int) + e - 52) (-1074)) :
    ∃ (n : Nat) (f : Int) (hn : 0 < n),
      roundWithAccuracy Format.binary64 s m e .exact = .finite s n f hn ∧ Canonical n f ∧
        magnitude n f = nearestNat (magnitude m e) := by
  have hparts : m * 2 ^ (e + 1074 + (0 : Nat)).toNat = magnitude m e := by
    rw [Int.natCast_zero, Int.add_zero, magnitude]
  rcases roundWithAccuracy_part (s := s) (k := 0) (by omega) he with ⟨hzero, -⟩ | hfinite
  · -- The least positive double is kept, so nothing positive is rounded to zero.
    have hone : nearestNat (1 * 2 ^ 0) ≤ nearestNat (magnitude m e) :=
      nearestNat_mono (magnitude_pos hm)
    rw [hparts, ← nearestNat_eq_nearestPart] at hzero
    rw [nearestNat_eq_self (by decide), hzero] at hone
    exact absurd hone (by decide)
  · rwa [hparts, ← nearestNat_eq_nearestPart] at hfinite

/-- The rank that the exact result `n` is rounded to, no further out than the infinities. -/
def roundRank (n : Int) : Int := max (-ceiling) (min (nearestInt n) ceiling)

theorem roundRank_mono : Monotone roundRank := by
  intro a b h
  have hn := nearestInt_mono h
  simp only [roundRank]
  omega

theorem roundRank_zero : roundRank 0 = 0 := by
  have hn : nearestInt 0 = 0 := nearestInt_natCast 0
  have hc := ceiling_pos
  simp only [roundRank, hn]
  omega

theorem nearestNat_magnitude {m : Nat} (h : m < 2 ^ 53) (e : Int) :
    nearestNat (magnitude m e) = magnitude m e :=
  nearestNat_eq_self h _

theorem nearestInt_apply (s : Sign) (n : Nat) : nearestInt (s.apply n) = s.apply (nearestNat n) := by
  cases s with
  | negative => exact nearestInt_neg_natCast n
  | positive => exact nearestInt_natCast n

def PacksTo (u : UnpackedFloat) (n : Int) : Prop :=
  decode (.ofModel (Float.Model.pack u)) ≠ .nan ∧ rank (decode (.ofModel (Float.Model.pack u))) = n

theorem packsTo_zero (s : Sign) : PacksTo (.zero s) (roundRank 0) := by
  rw [PacksTo, decode_pack_zero, roundRank_zero]
  exact ⟨by simp, rank_ofUnpacked_zero s⟩

theorem packsTo_finite (s : Sign) {m : Nat} {e : Int} (hm : 0 < m) (h : Canonical m e) :
    PacksTo (.finite s m e hm) (roundRank (s.apply (magnitude m e))) := by
  rw [PacksTo, roundRank, nearestInt_apply, nearestNat_magnitude h.lt]
  rcases lt_or_ge (971 : Int) e with hr | hr
  · -- The least mantissa there reaches the ceiling.
    have hge : ceiling ≤ magnitude m e := by
      have hfull : 2 ^ 52 ≤ m := h.full.resolve_right (by omega)
      calc ceiling = 2 ^ 52 * 2 ^ (972 + 1074 : Int).toNat := by
            rw [ceiling, magnitude, ← Nat.pow_add, ← Nat.pow_add]
            congr 1
        _ ≤ m * 2 ^ (e + 1074).toNat :=
            Nat.mul_le_mul hfull (Nat.pow_le_pow_right (by decide) (by omega))
    rw [decode_pack_overflow hr]
    refine ⟨by simp, ?_⟩
    cases s <;> simp only [rank, isNegative, Sign.apply, if_true, if_false, Bool.false_eq_true] <;>
      omega
  · have hlt := magnitude_lt_ceiling h.lt hr
    rw [decode_pack_finite h hr]
    refine ⟨by simp, ?_⟩
    cases s <;> simp only [rank, isNegative, Sign.apply, if_true, if_false, Bool.false_eq_true] <;>
      omega

theorem magnitude_shiftLeft {m k : Nat} {e : Int} (h : -1074 ≤ e - k) :
    magnitude (m <<< k) (e - k) = magnitude m e := by
  rw [magnitude, magnitude, Nat.shiftLeft_eq, Nat.mul_assoc, ← Nat.pow_add]
  congr 2
  omega

theorem log2_shiftLeft {m : Nat} (hm : 0 < m) (k : Nat) : (m <<< k).log2 = m.log2 + k := by
  rw [Nat.shiftLeft_eq, log2_mul_two_pow hm]

/-- Rounding gives the nearest double there is, or an infinity. -/
theorem packsTo_round (s : Sign) {m : Nat} {e : Int} (hm : 0 < m) (he : -1074 ≤ e) :
    PacksTo (UnpackedFloat.round Format.binary64 s m e) (roundRank (s.apply (magnitude m e))) := by
  obtain ⟨t, ht⟩ : ∃ t, max ((m.log2 : Int) + e - 52) (-1074) = t := ⟨_, rfl⟩
  obtain ⟨k, hk⟩ : ∃ k : Nat, (e - t).toNat = k := ⟨_, rfl⟩
  have hlog := log2_shiftLeft hm k
  have hpos : 0 < m <<< k := by
    rw [Nat.shiftLeft_eq]
    exact Nat.mul_pos hm (Nat.two_pow_pos k)
  obtain ⟨n, f, hn, hround, hcan, hmag⟩ :=
    roundWithAccuracy_exact (s := s) (e := e - k) hpos (by omega) (by rw [hlog]; omega)
  have hfinite := packsTo_finite s hn hcan
  rw [roundRank, nearestInt_apply, nearestNat_magnitude hcan.lt, hmag,
    magnitude_shiftLeft (by omega), ← nearestInt_apply, ← roundRank] at hfinite
  simp only [UnpackedFloat.round, decreaseExponent, targetExponent_eq, ht, hk, hround]
  exact hfinite

theorem packsTo_normalize (z : Int) {e : Int} (he : -1074 ≤ e) (s : Sign) :
    PacksTo (UnpackedFloat.normalize Format.binary64 z e s) (roundRank (z * (2 ^ (e + 1074).toNat : Nat))) := by
  rcases lt_trichotomy z 0 with h | h | h
  · obtain ⟨m, rfl⟩ : ∃ m : Nat, z = -m := ⟨z.natAbs, by omega⟩
    have := packsTo_round .negative (m := m) (by omega) he
    rw [UnpackedFloat.normalize, compare_lt_iff_lt.mpr h]
    simpa [Sign.apply, magnitude] using this
  · subst h
    rw [UnpackedFloat.normalize, compare_eq_iff_eq.mpr rfl, Int.zero_mul]
    exact packsTo_zero s
  · obtain ⟨m, rfl⟩ : ∃ m : Nat, z = m := ⟨z.toNat, by omega⟩
    have := packsTo_round .positive (m := m) (by omega) he
    rw [UnpackedFloat.normalize, compare_gt_iff_gt.mpr h]
    simpa [Sign.apply, magnitude] using this

theorem apply_scaled (s : Sign) (m : Nat) {e f : Int} (hf : -1074 ≤ f) (h : f ≤ e) :
    s.apply (m <<< (e - f).toNat : Nat) * (2 ^ (f + 1074).toNat : Nat) = s.apply (magnitude m e) := by
  have hmag := magnitude_shiftLeft (m := m) (k := (e - f).toNat) (e := e) (by omega)
  have hexp : e - ((e - f).toNat : Int) = f := by omega
  rw [hexp] at hmag
  rw [← hmag, magnitude]
  cases s <;> simp only [Sign.apply] <;> push_cast <;> ring

theorem apply_neg (s : Sign) (n : Int) : (-s).apply n = -s.apply n := by
  cases s with
  | negative => exact (Int.neg_neg n).symm
  | positive => rfl

def Bounded : UnpackedFloat → Prop
  | .zero _ => True
  | .finite _ m e _ => Canonical m e
  | _ => False

theorem packsTo_sub {u v : UnpackedFloat} (hu : Bounded u) (hv : Bounded v) :
    PacksTo (u.sub Format.binary64 v) (roundRank (rank (ofUnpacked u) - rank (ofUnpacked v))) := by
  cases u with
  | notANumber => exact hu.elim
  | infinity s => exact hu.elim
  | zero s =>
    cases v with
    | notANumber => exact hv.elim
    | infinity t => exact hv.elim
    | zero t =>
      rw [rank_ofUnpacked_zero, rank_ofUnpacked_zero, Int.sub_zero, UnpackedFloat.sub]
      split <;> exact packsTo_zero _
    | finite t n f hn =>
      rw [rank_ofUnpacked_zero, rank_ofUnpacked_finite, Int.zero_sub, UnpackedFloat.sub, ← apply_neg]
      exact packsTo_finite _ _ hv
  | finite s m e hm =>
    cases v with
    | notANumber => exact hv.elim
    | infinity t => exact hv.elim
    | zero t =>
      rw [rank_ofUnpacked_zero, rank_ofUnpacked_finite, Int.sub_zero]
      exact packsTo_finite _ _ hu
    | finite t n f hn =>
      have he := hu.least
      have hf := hv.least
      rw [rank_ofUnpacked_finite, rank_ofUnpacked_finite,
        ← apply_scaled s m (f := min e f) (by omega) (by omega),
        ← apply_scaled t n (f := min e f) (by omega) (by omega), ← Int.sub_mul]
      exact packsTo_normalize _ (by omega) _

theorem packsTo_add {u v : UnpackedFloat} (hu : Bounded u) (hv : Bounded v) :
    PacksTo (u.add Format.binary64 v) (roundRank (rank (ofUnpacked u) + rank (ofUnpacked v))) := by
  cases u with
  | notANumber => exact hu.elim
  | infinity s => exact hu.elim
  | zero s =>
    cases v with
    | notANumber => exact hv.elim
    | infinity t => exact hv.elim
    | zero t =>
      rw [rank_ofUnpacked_zero, rank_ofUnpacked_zero, Int.add_zero, UnpackedFloat.add]
      split <;> exact packsTo_zero _
    | finite t n f hn =>
      rw [rank_ofUnpacked_zero, rank_ofUnpacked_finite, Int.zero_add]
      exact packsTo_finite _ _ hv
  | finite s m e hm =>
    cases v with
    | notANumber => exact hv.elim
    | infinity t => exact hv.elim
    | zero t =>
      rw [rank_ofUnpacked_zero, rank_ofUnpacked_finite, Int.add_zero]
      exact packsTo_finite _ _ hu
    | finite t n f hn =>
      have he := hu.least
      have hf := hv.least
      rw [rank_ofUnpacked_finite, rank_ofUnpacked_finite,
        ← apply_scaled s m (f := min e f) (by omega) (by omega),
        ← apply_scaled t n (f := min e f) (by omega) (by omega), ← Int.add_mul]
      exact packsTo_normalize _ (by omega) _

def IsFinite (x : Float) : Prop := ∃ d, decode x = .finite d

instance instDecidableIsFinite (x : Float) : Decidable (IsFinite x) :=
  match h : decode x with
  | .finite d => isTrue ⟨d, h⟩
  | .infinite _ => isFalse fun ⟨d, hd⟩ => by simp [h] at hd
  | .nan => isFalse fun ⟨d, hd⟩ => by simp [h] at hd

theorem IsFinite.ne_nan {x : Float} (h : IsFinite x) : decode x ≠ .nan := by
  obtain ⟨d, hd⟩ := h
  rw [hd]
  simp

theorem bounded_unpack {x : Float} (h : IsFinite x) : Bounded x.toModel.unpack := by
  obtain ⟨d, hd⟩ := h
  have hproper := proper_toModel x
  rw [← ofUnpacked_toModel] at hd
  cases hu : x.toModel.unpack with
  | notANumber => simp [hu, ofUnpacked] at hd
  | infinity s => simp [hu, ofUnpacked] at hd
  | zero s => trivial
  | finite s m e hm =>
    rw [hu] at hproper
    exact hproper.1

theorem decode_sub_ne_nan {x y : Float} (hx : IsFinite x) (hy : IsFinite y) :
    decode (x - y) ≠ .nan :=
  (packsTo_sub (bounded_unpack hx) (bounded_unpack hy)).1

theorem rank_sub {x y : Float} (hx : IsFinite x) (hy : IsFinite y) :
    rank (decode (x - y)) = roundRank (rank (decode x) - rank (decode y)) := by
  rw [← ofUnpacked_toModel x, ← ofUnpacked_toModel y]
  exact (packsTo_sub (bounded_unpack hx) (bounded_unpack hy)).2

theorem decode_add_ne_nan {x y : Float} (hx : IsFinite x) (hy : IsFinite y) :
    decode (x + y) ≠ .nan :=
  (packsTo_add (bounded_unpack hx) (bounded_unpack hy)).1

/-- A sum is the exact one, rounded. -/
theorem rank_add {x y : Float} (hx : IsFinite x) (hy : IsFinite y) :
    rank (decode (x + y)) = roundRank (rank (decode x) + rank (decode y)) := by
  rw [← ofUnpacked_toModel x, ← ofUnpacked_toModel y]
  exact (packsTo_add (bounded_unpack hx) (bounded_unpack hy)).2

theorem abs_rank_lt {x : Float} (h : IsFinite x) : |rank (decode x)| < ceiling := by
  have hb := bounded_unpack h
  have hp := proper_toModel x
  have hc := ceiling_pos
  rw [← ofUnpacked_toModel]
  cases hu : x.toModel.unpack with
  | notANumber => exact (hu ▸ hb : Bounded .notANumber).elim
  | infinity s => exact (hu ▸ hb : Bounded (.infinity s)).elim
  | zero s =>
    rw [rank_ofUnpacked_zero, abs_zero]
    exact Int.natCast_pos.mpr hc
  | finite s m e hm =>
    rw [hu] at hb hp
    have hlt := magnitude_lt_ceiling hb.lt hp.2
    rw [rank_ofUnpacked_finite, abs_lt]
    cases s <;> simp only [Sign.apply] <;> omega

theorem roundRank_rank {x : Float} (h : IsFinite x) : roundRank (rank (decode x)) = rank (decode x) := by
  have hb := bounded_unpack h
  have habs := abs_lt.mp (abs_rank_lt h)
  have hkeep : nearestInt (rank (decode x)) = rank (decode x) := by
    rw [← ofUnpacked_toModel]
    cases hu : x.toModel.unpack with
    | notANumber => exact (hu ▸ hb : Bounded .notANumber).elim
    | infinity s => exact (hu ▸ hb : Bounded (.infinity s)).elim
    | zero s =>
      rw [rank_ofUnpacked_zero]
      exact nearestInt_natCast 0
    | finite s m e hm =>
      rw [hu] at hb
      rw [rank_ofUnpacked_finite, nearestInt_apply, nearestNat_magnitude hb.lt]
  simp only [roundRank, hkeep]
  omega

end Binary64
end AssignmentSearch
