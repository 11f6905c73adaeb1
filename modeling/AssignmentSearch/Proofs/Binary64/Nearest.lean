import AssignmentSearch.Number.Rounding
import Mathlib

/-!
# Rounding to 53 bits

A natural keeps its 53 leading bits and the rest is rounded, a half going to the even neighbour.
So is a number of parts of a unit, where nothing finer than the unit is kept. Larger numbers never
round lower, and what has few enough bits is kept.
-/

namespace AssignmentSearch

theorem roundDiv_bounds (num den : Nat) :
    num / den ≤ roundDiv num den ∧ roundDiv num den ≤ num / den + 1 := by
  simp only [roundDiv]
  split
  · omega
  · split
    · omega
    · split <;> omega

theorem roundDiv_mono {a b : Nat} (h : a ≤ b) (den : Nat) : roundDiv a den ≤ roundDiv b den := by
  have hq : a / den ≤ b / den := Nat.div_le_div_right h
  rcases Nat.lt_or_eq_of_le hq with hlt | heq
  · have ha := (roundDiv_bounds a den).2
    have hb := (roundDiv_bounds b den).1
    omega
  · -- The quotients agree, so the remainders decide.
    have hr : a % den ≤ b % den := by
      have ea := Nat.div_add_mod a den
      have eb := Nat.div_add_mod b den
      rw [heq] at ea
      omega
    simp only [roundDiv, heq]
    split_ifs <;> omega

theorem roundDiv_mul_mul (a b : Nat) {c : Nat} (hc : 0 < c) :
    roundDiv (a * c) (b * c) = roundDiv a b := by
  have hmod : 2 * (a * c % (b * c)) = 2 * (a % b) * c := by
    rw [Nat.mul_mod_mul_right, Nat.mul_assoc]
  simp only [roundDiv, Nat.mul_div_mul_right a b hc, hmod, Nat.mul_lt_mul_right hc]

theorem log2_mono {a b : Nat} (h : a ≤ b) : a.log2 ≤ b.log2 := by
  rcases Nat.eq_zero_or_pos a with rfl | ha
  · simp
  · exact (Nat.le_log2 (by omega)).mpr (Nat.le_trans (Nat.log2_self_le (by omega)) h)

theorem log2_mul_two_pow {m : Nat} (hm : 0 < m) (k : Nat) : (m * 2 ^ k).log2 = m.log2 + k := by
  rw [Nat.log2_eq_iff (Nat.mul_ne_zero (by omega) (Nat.two_pow_pos k).ne')]
  constructor
  · rw [Nat.pow_add]
    exact Nat.mul_le_mul_right _ (Nat.log2_self_le (by omega))
  · rw [show m.log2 + k + 1 = m.log2 + 1 + k by omega, Nat.pow_add]
    exact Nat.mul_lt_mul_of_pos_right Nat.lt_log2_self (Nat.two_pow_pos k)

theorem log2_div_two_pow (n k : Nat) : (n / 2 ^ k).log2 = n.log2 - k := by
  rw [Nat.log2_eq_log_two, Nat.log2_eq_log_two, Nat.log_div_base_pow]

theorem log2_mul_two_pow_div {num den : Nat} (h : 0 < num / den) (k : Nat) :
    (num * 2 ^ k / den).log2 = (num / den).log2 + k := by
  obtain ⟨hden, hle⟩ := Nat.div_pos_iff.mp h
  have hlow : 2 ^ (num / den).log2 * den ≤ num :=
    (Nat.le_div_iff_mul_le hden).mp (Nat.log2_self_le h.ne')
  have hhigh : num < 2 ^ ((num / den).log2 + 1) * den :=
    (Nat.div_lt_iff_lt_mul hden).mp Nat.lt_log2_self
  have hne : num * 2 ^ k / den ≠ 0 :=
    (Nat.div_pos (hle.trans (Nat.le_mul_of_pos_right _ (Nat.two_pow_pos k))) hden).ne'
  rw [Nat.log2_eq_iff hne, Nat.le_div_iff_mul_le hden, Nat.div_lt_iff_lt_mul hden]
  constructor
  · rw [Nat.pow_add, Nat.mul_right_comm]
    exact Nat.mul_le_mul_right _ hlow
  · rw [Nat.add_right_comm, Nat.pow_add _ _ k, Nat.mul_right_comm]
    exact Nat.mul_lt_mul_of_pos_right hhigh (Nat.two_pow_pos k)

/-- The weight of the last of 53 bits that begin with the leading bit of a natural. -/
def quantum (n : Nat) : Nat := 2 ^ (n.log2 - 52)

theorem quantum_pos (n : Nat) : 0 < quantum n := Nat.two_pow_pos _

theorem div_quantum_lt (n : Nat) : n / quantum n < 2 ^ 53 := by
  rw [quantum, Nat.div_lt_iff_lt_mul (Nat.two_pow_pos _), ← Nat.pow_add]
  exact Nat.lt_of_lt_of_le Nat.lt_log2_self (Nat.pow_le_pow_right (by decide) (by omega))

theorem le_div_quantum {n : Nat} (h : 52 ≤ n.log2) : 2 ^ 52 ≤ n / quantum n := by
  have hn : n ≠ 0 := by
    rintro rfl
    simp at h
  rw [quantum, Nat.le_div_iff_mul_le (Nat.two_pow_pos _), ← Nat.pow_add]
  exact Nat.le_trans (Nat.pow_le_pow_right (by decide) (by omega)) (Nat.log2_self_le hn)

/-- The natural nearest to `num / den` that has at most 53 bits before its trailing zeros. -/
def nearestRatio (num den : Nat) : Nat :=
  roundDiv num (den * quantum (num / den)) * quantum (num / den)

theorem roundDiv_quantum_le (num den : Nat) :
    roundDiv num (den * quantum (num / den)) ≤ 2 ^ 53 := by
  have hbounds := (roundDiv_bounds num (den * quantum (num / den))).2
  have hlt := div_quantum_lt (num / den)
  rw [← Nat.div_div_eq_div_mul] at hbounds
  omega

theorem le_roundDiv_quantum {num den : Nat} (h : 52 ≤ (num / den).log2) :
    2 ^ 52 ≤ roundDiv num (den * quantum (num / den)) := by
  have hbounds := (roundDiv_bounds num (den * quantum (num / den))).1
  rw [← Nat.div_div_eq_div_mul] at hbounds
  exact (le_div_quantum h).trans hbounds

theorem nearestRatio_mono {a b : Nat} (h : a ≤ b) (den : Nat) :
    nearestRatio a den ≤ nearestRatio b den := by
  have hlog : (a / den).log2 ≤ (b / den).log2 := log2_mono (Nat.div_le_div_right h)
  rcases Nat.lt_or_ge ((a / den).log2 - 52) ((b / den).log2 - 52) with hlt | hge
  · -- The power of two that begins the binade of the greater quotient lies between.
    calc nearestRatio a den ≤ 2 ^ 53 * quantum (a / den) :=
          Nat.mul_le_mul_right _ (roundDiv_quantum_le a den)
      _ ≤ 2 ^ 52 * quantum (b / den) := by
          rw [quantum, quantum, ← Nat.pow_add, ← Nat.pow_add]
          exact Nat.pow_le_pow_right (by decide) (by omega)
      _ ≤ nearestRatio b den := Nat.mul_le_mul_right _ (le_roundDiv_quantum (by omega))
  · have hquantum : quantum (a / den) = quantum (b / den) := by
      rw [quantum, quantum]
      congr 1
      omega
    rw [nearestRatio, nearestRatio, hquantum]
    exact Nat.mul_le_mul_right _ (roundDiv_mono h _)

theorem nearestRatio_mul_mul (num den : Nat) {c : Nat} (hc : 0 < c) :
    nearestRatio (num * c) (den * c) = nearestRatio num den := by
  rw [nearestRatio, Nat.mul_div_mul_right _ _ hc, Nat.mul_right_comm, roundDiv_mul_mul _ _ hc,
    nearestRatio]

/-- Larger quotients never round lower. -/
theorem nearestRatio_le {a b c d : Nat} (hb : 0 < b) (hd : 0 < d) (h : a * d ≤ c * b) :
    nearestRatio a b ≤ nearestRatio c d := by
  calc nearestRatio a b = nearestRatio (a * d) (b * d) := (nearestRatio_mul_mul a b hd).symm
    _ ≤ nearestRatio (c * b) (b * d) := nearestRatio_mono h _
    _ = nearestRatio c d := by rw [Nat.mul_comm b d, nearestRatio_mul_mul c d hb]

theorem nearestRatio_eq {a b c d : Nat} (hb : 0 < b) (hd : 0 < d) (h : a * d = c * b) :
    nearestRatio a b = nearestRatio c d :=
  le_antisymm (nearestRatio_le hb hd h.le) (nearestRatio_le hd hb h.ge)

/-- How many low bits are rounded off a number of parts of which `2 ^ k` make a unit: 53 leading
bits stay, but nothing finer than the unit. -/
def dropped (k n : Nat) : Nat := max (n.log2 - 52) k

/-- The natural nearest to `n / 2 ^ k` that has at most 53 bits before its trailing zeros. -/
def nearestPart (k n : Nat) : Nat := roundDiv n (2 ^ dropped k n) * 2 ^ (dropped k n - k)

theorem nearestPart_eq_nearestRatio (k n : Nat) : nearestPart k n = nearestRatio n (2 ^ k) := by
  have hdropped : dropped k n - k = (n / 2 ^ k).log2 - 52 := by
    rw [dropped, log2_div_two_pow]
    omega
  have hle : k ≤ dropped k n := Nat.le_max_right _ _
  have hsplit : 2 ^ dropped k n = 2 ^ k * quantum (n / 2 ^ k) := by
    rw [quantum, ← hdropped, ← Nat.pow_add, Nat.add_sub_cancel' hle]
  rw [nearestPart, hsplit, hdropped, nearestRatio, quantum]

theorem nearestPart_mono (k : Nat) : Monotone (nearestPart k) := by
  intro a b h
  rw [nearestPart_eq_nearestRatio, nearestPart_eq_nearestRatio]
  exact nearestRatio_mono h _

def nearestNat (n : Nat) : Nat := roundDiv n (quantum n) * quantum n

theorem nearestNat_eq_nearestPart (n : Nat) : nearestNat n = nearestPart 0 n := by
  simp only [nearestNat, nearestPart, quantum, dropped, Nat.max_zero, Nat.sub_zero]

theorem nearestPart_mul_two_pow (k n : Nat) : nearestPart k (n * 2 ^ k) = nearestNat n := by
  rcases Nat.eq_zero_or_pos n with rfl | hn
  · simp [nearestPart, nearestNat, roundDiv]
  · have hdropped : dropped k (n * 2 ^ k) = n.log2 - 52 + k := by
      rw [dropped, log2_mul_two_pow hn]
      omega
    rw [nearestPart, hdropped, Nat.pow_add, roundDiv_mul_mul _ _ (Nat.two_pow_pos k),
      Nat.add_sub_cancel, nearestNat, quantum]

theorem nearestNat_mono : Monotone nearestNat := by
  intro a b h
  rw [nearestNat_eq_nearestPart, nearestNat_eq_nearestPart]
  exact nearestPart_mono 0 h

/-- What has at most 53 bits before trailing zeros is kept. -/
theorem nearestNat_eq_self {m : Nat} (hm : m < 2 ^ 53) (k : Nat) :
    nearestNat (m * 2 ^ k) = m * 2 ^ k := by
  rcases Nat.eq_zero_or_pos m with rfl | hpos
  · simp [nearestNat, roundDiv]
  · have hl : m.log2 ≤ 52 := by
      have := (Nat.log2_lt (by omega)).mpr hm
      omega
    have hlog := log2_mul_two_pow hpos k
    have hk : (m * 2 ^ k).log2 - 52 ≤ k := by omega
    obtain ⟨j, hj⟩ := Nat.exists_eq_add_of_le hk
    have hfac : m * 2 ^ k = m * 2 ^ j * quantum (m * 2 ^ k) := by
      rw [quantum]
      conv_lhs => rw [hj, Nat.pow_add]
      ring
    rw [nearestNat]
    conv_lhs => rw [show roundDiv (m * 2 ^ k) (quantum (m * 2 ^ k)) = m * 2 ^ j by
      conv_lhs => lhs; rw [hfac]
      exact roundDiv_exact _ (quantum_pos _)]
    exact hfac.symm

def nearestInt (n : Int) : Int := if n < 0 then -nearestNat n.natAbs else nearestNat n.natAbs

theorem nearestInt_natCast (n : Nat) : nearestInt n = nearestNat n := by
  rw [nearestInt, if_neg (by omega), Int.natAbs_natCast]

theorem nearestInt_neg_natCast (n : Nat) : nearestInt (-n) = -nearestNat n := by
  rcases Nat.eq_zero_or_pos n with rfl | hpos
  · simp [nearestInt, nearestNat, roundDiv]
  · rw [nearestInt, if_pos (by omega), Int.natAbs_neg, Int.natAbs_natCast]

theorem nearestInt_mono : Monotone nearestInt := by
  intro a b h
  rcases Int.eq_nat_or_neg a with ⟨m, rfl | rfl⟩ <;> rcases Int.eq_nat_or_neg b with ⟨n, rfl | rfl⟩
  · rw [nearestInt_natCast, nearestInt_natCast]
    exact Int.ofNat_le.mpr (nearestNat_mono (by omega))
  · -- Both are zero.
    have hm : m = 0 := by omega
    have hn : n = 0 := by omega
    simp [hm, hn]
  · rw [nearestInt_natCast, nearestInt_neg_natCast]
    omega
  · rw [nearestInt_neg_natCast, nearestInt_neg_natCast]
    exact Int.neg_le_neg (Int.ofNat_le.mpr (nearestNat_mono (by omega)))

end AssignmentSearch
