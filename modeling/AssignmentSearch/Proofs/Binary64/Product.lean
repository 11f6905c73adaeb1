import AssignmentSearch.Proofs.Binary64.Whole

/-!
# Products of doubles

The rank of a product of nonnegative doubles is that of the exact product, rounded to 53 bits and to
the least positive double. A factor below one never makes a double larger, and it is known which
doubles it leaves as they are: all of them are subnormal, or the least normal one.
-/

namespace AssignmentSearch
open Float.Model Float.Model.UnpackedFloat

namespace Binary64

/-- A quotient rounds below a natural if it lies below the middle between it and the one before, or
in the middle if the natural is odd. -/
theorem roundDiv_lt_iff {n u a : Nat} (hu : 0 < u) (ha : 0 < a) :
    roundDiv n u < a ↔ 2 * n + u < 2 * (a * u) ∨ 2 * n + u = 2 * (a * u) ∧ a % 2 = 1 := by
  obtain ⟨hlow, hhigh⟩ := roundDiv_within_half n hu
  -- In the middle the rounded quotient is even.
  have htie : 2 * n + u = 2 * (a * u) → roundDiv n u % 2 = 0 := by
    intro h
    obtain ⟨p, rfl⟩ : ∃ p, a = p + 1 := ⟨a - 1, by omega⟩
    rw [Nat.add_one_mul p u, Nat.mul_comm p u] at h
    obtain ⟨w, rfl⟩ : ∃ w, n = w + u * p := ⟨n - u * p, by omega⟩
    refine roundDiv_tie_even ?_
    rw [Nat.add_mul_mod_self_left, Nat.mod_eq_of_lt (by omega)]
    omega
  constructor
  · intro hlt
    have hmul : (roundDiv n u + 1) * u ≤ a * u := Nat.mul_le_mul_right u hlt
    rw [Nat.add_one_mul _ u] at hmul
    rcases Nat.lt_or_eq_of_le (show 2 * n + u ≤ 2 * (a * u) by omega) with h | h
    · exact Or.inl h
    · refine Or.inr ⟨h, ?_⟩
      have heven := htie h
      have hsame : (roundDiv n u + 1) * u = a * u := by
        rw [Nat.add_one_mul _ u]
        omega
      have := Nat.eq_of_mul_eq_mul_right hu hsame
      omega
  · rintro (h | ⟨h, hodd⟩)
    · exact Nat.lt_of_mul_lt_mul_right (a := u) (by omega)
    · have heven := htie h
      have hle : roundDiv n u ≤ a := Nat.le_of_mul_le_mul_right (c := u) (by omega) hu
      omega

theorem nearestPart_of_lt {k n : Nat} (h : n < 2 ^ (53 + k)) :
    nearestPart k n = roundDiv n (2 ^ k) := by
  have hlog : n.log2 ≤ 52 + k := by
    rcases Nat.eq_zero_or_pos n with rfl | hn
    · simp
    · have := (Nat.log2_lt (by omega)).mpr h
      omega
  have hdropped : dropped k n = k := Nat.max_eq_right (by omega)
  rw [nearestPart, hdropped, Nat.sub_self, Nat.pow_zero, Nat.mul_one]

/-- What is short of a normal number by a part in `2 ^ 53` or more is rounded to less. -/
theorem nearestPart_lt {k n m j : Nat} (hm : m < 2 ^ 53) (hfull : 2 ^ 52 ≤ m ∨ j = 0)
    (ha : 2 ^ 52 < m * 2 ^ j) (hk : 53 ≤ k)
    (hn : n + m * 2 ^ j * 2 ^ (k - 53) ≤ m * 2 ^ j * 2 ^ k) : nearestPart k n < m * 2 ^ j := by
  have hparts : ∀ i, m * 2 ^ j * 2 ^ i = m * 2 ^ (j + i) := fun i => by
    rw [Nat.mul_assoc, ← Nat.pow_add]
  rw [hparts, hparts] at hn
  rcases Nat.lt_or_ge (2 ^ 52) m with hlt | hge
  · -- The number one unit of the last place below lies in the same binade or begins it.
    have hu : 2 ^ (j + k) = 2 ^ 53 * 2 ^ (j + (k - 53)) := by
      rw [← Nat.pow_add]
      congr 1
      omega
    have hgap : 2 ^ (j + k) < 2 * (m * 2 ^ (j + (k - 53))) := by
      rw [hu, ← Nat.mul_assoc]
      exact Nat.mul_lt_mul_of_pos_right (by omega) (Nat.two_pow_pos _)
    have hpred : (2 ^ 52 + 1) * 2 ^ (j + k) ≤ m * 2 ^ (j + k) := Nat.mul_le_mul_right _ hlt
    obtain ⟨n', hn', hle, hbegin, hshort⟩ : ∃ n', n' = max n (2 ^ 52 * 2 ^ (j + k)) ∧ n ≤ n' ∧
        2 ^ 52 * 2 ^ (j + k) ≤ n' ∧ 2 * n' + 2 ^ (j + k) < 2 * (m * 2 ^ (j + k)) :=
      ⟨_, rfl, Nat.le_max_left _ _, Nat.le_max_right _ _, by omega⟩
    have hlog : n'.log2 = 52 + (j + k) := by
      rw [Nat.log2_eq_iff (by have := Nat.two_pow_pos (j + k); omega)]
      refine ⟨by rw [Nat.pow_add]; exact hbegin, ?_⟩
      have hmul : m * 2 ^ (j + k) ≤ 2 ^ 53 * 2 ^ (j + k) := Nat.mul_le_mul_right _ hm.le
      rw [show 52 + (j + k) + 1 = 53 + (j + k) by omega, Nat.pow_add]
      omega
    have hdropped : dropped k n' = j + k := by
      rw [dropped, hlog]
      omega
    have hround : roundDiv n' (2 ^ (j + k)) < m :=
      (roundDiv_lt_iff (Nat.two_pow_pos _) (by omega)).mpr (Or.inl hshort)
    calc nearestPart k n ≤ nearestPart k n' := nearestPart_mono k hle
      _ = roundDiv n' (2 ^ (j + k)) * 2 ^ j := by rw [nearestPart, hdropped, Nat.add_sub_cancel]
      _ < m * 2 ^ j := Nat.mul_lt_mul_of_pos_right hround (Nat.two_pow_pos _)
  · -- The number begins a binade; the one before it has 53 bits of one.
    obtain ⟨i, rfl⟩ : ∃ i, j = i + 1 := by
      refine ⟨j - 1, ?_⟩
      rcases Nat.eq_zero_or_pos j with rfl | hj <;> omega
    obtain rfl : m = 2 ^ 52 := by omega
    have hbinade : ∀ i, 2 ^ 52 * 2 ^ (i + 1) = 2 ^ 53 * 2 ^ i := fun i => by
      rw [← Nat.pow_add, ← Nat.pow_add]
      congr 1
      omega
    have hgap : 2 ^ 52 * 2 ^ (i + 1 + (k - 53)) = 2 ^ (i + k) := by
      rw [← Nat.pow_add]
      congr 1
      omega
    have hbefore : n ≤ (2 ^ 53 - 1) * 2 ^ i * 2 ^ k := by
      rw [hgap, show i + 1 + k = i + k + 1 by omega, hbinade] at hn
      rw [Nat.mul_assoc, ← Nat.pow_add, Nat.sub_mul, Nat.one_mul]
      omega
    calc nearestPart k n ≤ nearestPart k ((2 ^ 53 - 1) * 2 ^ i * 2 ^ k) := nearestPart_mono k hbefore
      _ = (2 ^ 53 - 1) * 2 ^ i := by
          rw [nearestPart_mul_two_pow, nearestNat_eq_self (by decide)]
      _ < 2 ^ 52 * 2 ^ (i + 1) := by
          rw [hbinade]
          exact Nat.mul_lt_mul_of_pos_right (by decide) (Nat.two_pow_pos _)

/-- Whether a factor of rank `b` below one makes a double of rank `a` less: it has to be normal, or
the product has to be short of it by half of the least positive double. -/
def Shrinks (a b : Nat) : Prop :=
  2 ^ 52 < a ∨ unit < 2 * (a * (unit - b)) ∨ unit = 2 * (a * (unit - b)) ∧ a % 2 = 1

instance instDecidableShrinks (a b : Nat) : Decidable (Shrinks a b) :=
  inferInstanceAs (Decidable (_ ∨ _ ∨ _))

def unitBits : Nat := 1074

theorem unit_eq : unit = 2 ^ unitBits := by
  have hbits : (0 + 1074 : Int).toNat = unitBits := rfl
  rw [unit, magnitude, Nat.one_mul, hbits]

theorem nearestPart_eq_roundDiv {n : Nat} (h : n < 2 ^ 53 * unit) :
    nearestPart unitBits n = roundDiv n unit := by
  rw [unit_eq] at h ⊢
  generalize unitBits = k at *
  rw [← Nat.pow_add] at h
  exact nearestPart_of_lt h

theorem Shrinks.of_le {a a' b : Nat} (hb : b < unit) (h : Shrinks a b) (hle : a ≤ a') :
    Shrinks a' b := by
  rcases Nat.eq_or_lt_of_le hle with rfl | hlt
  · exact h
  · have hmul : a * (unit - b) < a' * (unit - b) := Nat.mul_lt_mul_of_pos_right hlt (by omega)
    rcases h with h | h | ⟨h, -⟩
    · exact Or.inl (h.trans hlt)
    · exact Or.inr (Or.inl (by omega))
    · exact Or.inr (Or.inl (by omega))

/-- A double that is at most the least normal one has a lesser product if and only if it shrinks. -/
theorem nearestPart_lt_iff_shrinks {a b : Nat} (ha : 0 < a) (hsmall : a ≤ 2 ^ 52) (hb : b < unit) :
    nearestPart unitBits (a * b) < a ↔ Shrinks a b := by
  have hsplit : a * (unit - b) + a * b = a * unit := by
    rw [← Nat.mul_add, Nat.sub_add_cancel hb.le]
  have hlt : a * b < 2 ^ 53 * unit :=
    Nat.mul_lt_mul_of_lt_of_lt (Nat.lt_of_le_of_lt hsmall (by decide)) hb
  rw [nearestPart_eq_roundDiv hlt, roundDiv_lt_iff unit_pos ha, Shrinks]
  generalize unit = u at *
  omega

theorem le_nearestPart_of_not_shrinks {a b : Nat} (hb : b < unit) (h : ¬ Shrinks a b) :
    a ≤ nearestPart unitBits (a * b) := by
  rcases Nat.eq_zero_or_pos a with rfl | ha
  · exact Nat.zero_le _
  · have hsmall : a ≤ 2 ^ 52 := Nat.not_lt.mp fun hlt => h (Or.inl hlt)
    exact Nat.not_lt.mp fun hlt => h ((nearestPart_lt_iff_shrinks ha hsmall hb).mp hlt)

theorem nearestPart_lt_of_shrinks {m b : Nat} {e : Int} (hm : Canonical m e)
    (hb : b + 2 ^ (unitBits - 53) ≤ unit) (h : Shrinks (magnitude m e) b) :
    nearestPart unitBits (magnitude m e * b) < magnitude m e := by
  rcases Nat.lt_or_ge (2 ^ 52) (magnitude m e) with hlt | hge
  · refine nearestPart_lt hm.lt ?_ hlt (by decide) ?_
    · have := hm.least
      exact hm.full.imp_right fun _ => by omega
    · rw [← magnitude, ← Nat.mul_add]
      exact Nat.mul_le_mul_left _ (hb.trans unit_eq.le)
  · have hlt : b < unit := Nat.lt_of_lt_of_le (Nat.lt_add_of_pos_right (Nat.two_pow_pos _)) hb
    exact (nearestPart_lt_iff_shrinks (magnitude_pos hm.pos) hge hlt).mpr h

theorem add_le_unit {m : Nat} {e : Int} (h : Canonical m e) (hlt : magnitude m e < unit) :
    magnitude m e + 2 ^ (unitBits - 53) ≤ unit := by
  obtain ⟨i, hi⟩ : ∃ i : Nat, (e + 1074).toNat = i := ⟨_, rfl⟩
  have hbits : unitBits = 1074 := rfl
  have hleast := h.least
  have hexp : i + 53 ≤ unitBits := by
    by_contra hge
    have hfull : 2 ^ 52 ≤ m := h.full.resolve_right (by omega)
    have hreach : 2 ^ unitBits ≤ 2 ^ 52 * 2 ^ i := by
      rw [← Nat.pow_add]
      exact Nat.pow_le_pow_right (by decide) (by omega)
    rw [unit_eq, magnitude, hi] at hlt
    exact absurd (hreach.trans (Nat.mul_le_mul_right _ hfull)) (Nat.not_le.mpr hlt)
  rw [unit_eq, magnitude, hi]
  clear hbits
  generalize unitBits = k at *
  calc m * 2 ^ i + 2 ^ (k - 53) ≤ m * 2 ^ (k - 53) + 2 ^ (k - 53) :=
        Nat.add_le_add_right (Nat.mul_le_mul_left _ (Nat.pow_le_pow_right (by decide) (by omega))) _
    _ = (m + 1) * 2 ^ (k - 53) := (Nat.add_one_mul m _).symm
    _ ≤ 2 ^ 53 * 2 ^ (k - 53) := Nat.mul_le_mul_right _ h.lt
    _ = 2 ^ k := by
        rw [← Nat.pow_add]
        congr 1
        omega

theorem nearestPart_zero (k : Nat) : nearestPart k 0 = 0 := by simp [nearestPart, roundDiv]

theorem packsTo_mul_zero (s : Sign) : PacksTo (.zero s) (min (nearestPart unitBits 0) ceiling : Nat) := by
  have hpacks := packsTo_zero s
  rw [roundRank_zero] at hpacks
  rw [nearestPart_zero, Nat.zero_min]
  exact hpacks

theorem packsTo_magnitude (s : Sign) {r : Nat} {g : Int} (hr : 0 < r) (hcan : Canonical r g) :
    PacksTo (.finite s r g hr) (s.apply (min (magnitude r g) ceiling : Nat)) := by
  have hpacks := packsTo_finite s hr hcan
  have hrank : roundRank (s.apply (magnitude r g)) =
      s.apply (min (magnitude r g) ceiling : Nat) := by
    rw [roundRank, nearestInt_apply, nearestNat_magnitude hcan.lt]
    cases s <;> simp only [Sign.apply] <;> omega
  rw [hrank] at hpacks
  exact hpacks

theorem packsTo_mul_positive {m n : Nat} {e f : Int} (hm : Canonical m e) (hn : Canonical n f) :
    PacksTo (roundWithAccuracy Format.binary64 .positive (m * n) (e + f) .exact)
      (min (nearestPart unitBits (magnitude m e * magnitude n f)) ceiling : Nat) := by
  have hbits : unitBits = 1074 := rfl
  have he := hm.least
  have hf := hn.least
  have hparts : m * n * 2 ^ (e + f + 1074 + unitBits).toNat = magnitude m e * magnitude n f := by
    have hexp : (e + f + 1074 + unitBits).toNat = (e + 1074).toNat + (f + 1074).toNat := by omega
    rw [hexp, Nat.pow_add, magnitude, magnitude]
    ring
  -- A normal factor gives the mantissa enough bits; else the exponent is low enough.
  have htarget : e + f ≤ max (((m * n).log2 : Int) + (e + f) - 52) (-1074) := by
    have hlog : ∀ {k : Nat}, 2 ^ 52 ≤ k → k ≤ m * n → 52 ≤ (m * n).log2 := fun hk hle =>
      (Nat.le_log2 (Nat.mul_pos hm.pos hn.pos).ne').mpr (hk.trans hle)
    rcases hm.full with hfull | rfl
    · have := hlog hfull (Nat.le_mul_of_pos_right m hn.pos)
      omega
    · rcases hn.full with hfull | rfl
      · have := hlog hfull (Nat.le_mul_of_pos_left n hm.pos)
        omega
      · omega
  rw [← hparts]
  rcases roundWithAccuracy_part (s := .positive) (k := unitBits) (by omega) htarget with
    ⟨hzero, hround⟩ | ⟨r, g, hr, hround, hcan, hmag⟩
  · have hpacks := packsTo_mul_zero .positive
    rw [nearestPart_zero] at hpacks
    rw [hround, hzero]
    exact hpacks
  · rw [hround, ← hmag]
    exact packsTo_magnitude .positive hr hcan

theorem apply_inj {s t : Sign} {k c : Nat} (hk : 0 < k) (hc : 0 < c)
    (h : s.apply k = t.apply c) : s = t ∧ k = c := by
  cases s <;> cases t <;> simp only [Sign.apply] at h <;> first | exact ⟨rfl, by omega⟩ | omega

theorem positive_of_apply {s : Sign} {k c : Nat} (hk : 0 < k) (h : s.apply k = (c : Int)) :
    s = .positive ∧ k = c := by
  have hc : 0 < c := by
    cases s <;> simp only [Sign.apply] at h <;> omega
  exact apply_inj hk hc h

theorem packsTo_mul {u v : UnpackedFloat} {a b : Nat} (hu : Bounded u) (hv : Bounded v)
    (ha : rank (ofUnpacked u) = a) (hb : rank (ofUnpacked v) = b) :
    PacksTo (u.mul Format.binary64 v) (min (nearestPart unitBits (a * b)) ceiling : Nat) := by
  cases u with
  | notANumber => exact hu.elim
  | infinity s => exact hu.elim
  | zero s =>
    rw [rank_ofUnpacked_zero] at ha
    obtain rfl : a = 0 := by omega
    rw [Nat.zero_mul]
    cases v with
    | notANumber => exact hv.elim
    | infinity t => exact hv.elim
    | zero t => exact packsTo_mul_zero _
    | finite t n f hn => exact packsTo_mul_zero _
  | finite s m e hm =>
    rw [rank_ofUnpacked_finite] at ha
    obtain ⟨rfl, rfl⟩ := positive_of_apply (magnitude_pos hm) ha
    cases v with
    | notANumber => exact hv.elim
    | infinity t => exact hv.elim
    | zero t =>
      rw [rank_ofUnpacked_zero] at hb
      obtain rfl : b = 0 := by omega
      exact packsTo_mul_zero _
    | finite t n f hn =>
      rw [rank_ofUnpacked_finite] at hb
      obtain ⟨rfl, rfl⟩ := positive_of_apply (magnitude_pos hn) hb
      exact packsTo_mul_positive hu hv

theorem decode_mul_ne_nan {x y : Float} (hx : IsFinite x) (hy : IsFinite y) {a b : Nat}
    (ha : rank (decode x) = a) (hb : rank (decode y) = b) : decode (x * y) ≠ .nan := by
  rw [← ofUnpacked_toModel] at ha hb
  exact (packsTo_mul (bounded_unpack hx) (bounded_unpack hy) ha hb).1

/-- A product of nonnegative doubles is the exact one, rounded. -/
theorem rank_mul {x y : Float} (hx : IsFinite x) (hy : IsFinite y) {a b : Nat}
    (ha : rank (decode x) = a) (hb : rank (decode y) = b) :
    rank (decode (x * y)) = (min (nearestPart unitBits (a * b)) ceiling : Nat) := by
  rw [← ofUnpacked_toModel] at ha hb
  exact (packsTo_mul (bounded_unpack hx) (bounded_unpack hy) ha hb).2

end Binary64
end AssignmentSearch
