import AssignmentSearch.Number.Decimal
import AssignmentSearch.Proofs.Binary64.Product

/-!
# Basins

The reals that are rounded to a double, its basin, are known by the unit of its last place. What lies
in the basin as the formatter measures it is rounded to the double.
-/

namespace AssignmentSearch

open Binary64

/-! ## Quotients -/

theorem scale_ratio {base : Nat} (hb : 0 < base) (num den : Nat) (e : Int) :
    ((scale base num den e).1 : ℚ) / (scale base num den e).2 = num / den * (base : ℚ) ^ e := by
  have hbase : (base : ℚ) ≠ 0 := by exact_mod_cast hb.ne'
  rw [scale]
  split
  · rename_i he
    lift e to Nat using he
    push_cast [Nat.pow_eq, Int.toNat_natCast]
    rw [zpow_natCast]
    ring
  · rename_i he
    obtain ⟨k, rfl⟩ : ∃ k : Nat, e = -k := ⟨e.natAbs, by omega⟩
    push_cast [Nat.pow_eq, Int.toNat_natCast, neg_neg]
    rw [zpow_neg, zpow_natCast, div_mul_eq_div_div, div_eq_mul_inv (_ / _)]

theorem scale_le_iff {base den : Nat} (hb : 0 < base) (num : Nat) (hden : 0 < den) (e : Int) :
    (scale base num den e).2 ≤ (scale base num den e).1 ↔ (1 : ℚ) ≤ num / den * (base : ℚ) ^ e := by
  have hpos : (0 : ℚ) < (scale base num den e).2 := by exact_mod_cast scale_den_pos hb hden num e
  rw [← scale_ratio hb, one_le_div hpos]
  norm_cast

/-- The power that leads a quotient, found from a guess that is off by one at most. -/
theorem settle_bounds {base num den : Nat} (hb : 1 < base) (hden : 0 < den) {guess : Int}
    (hlow : (base : ℚ) ^ (guess - 1) ≤ num / den) (hhigh : (num / den : ℚ) < (base : ℚ) ^ (guess + 1)) :
    (base : ℚ) ^ settle base num den guess ≤ num / den ∧
      (num / den : ℚ) < (base : ℚ) ^ (settle base num den guess + 1) := by
  have hbase : (0 : ℚ) < base := by exact_mod_cast (by omega : 0 < base)
  have hreach := scale_le_iff (hb.trans' Nat.one_pos) num hden (-guess)
  rw [zpow_neg, ← div_eq_mul_inv, one_le_div (zpow_pos hbase _)] at hreach
  rw [settle]
  dsimp only
  split
  · rename_i h
    exact ⟨hreach.mp h, hhigh⟩
  · rename_i h
    refine ⟨hlow, ?_⟩
    rw [sub_add_cancel]
    exact not_le.mp fun hle => h (hreach.mpr hle)

theorem settle_of_leading {base num den a b : Nat} (hb : 1 < base)
    (hnum : base ^ a ≤ num ∧ num < base ^ (a + 1)) (hden : base ^ b ≤ den ∧ den < base ^ (b + 1)) :
    (base : ℚ) ^ settle base num den ((a : Int) - b) ≤ num / den ∧
      (num / den : ℚ) < (base : ℚ) ^ (settle base num den ((a : Int) - b) + 1) := by
  have hbase : (0 : ℚ) < base := by exact_mod_cast (by omega : 0 < base)
  have hpos : 0 < den := (Nat.pow_pos (by omega)).trans_le hden.1
  have hd : (0 : ℚ) < den := by exact_mod_cast hpos
  have hnumLow : (base : ℚ) ^ (a : Int) ≤ num := by exact_mod_cast hnum.1
  have hnumHigh : (num : ℚ) < (base : ℚ) ^ ((a : Int) + 1) := by exact_mod_cast hnum.2
  have hdenLow : (base : ℚ) ^ (b : Int) ≤ den := by exact_mod_cast hden.1
  have hdenHigh : (den : ℚ) < (base : ℚ) ^ ((b : Int) + 1) := by exact_mod_cast hden.2
  refine settle_bounds hb hpos ?_ ?_
  · rw [le_div_iff₀ hd]
    calc (base : ℚ) ^ ((a : Int) - b - 1) * den
        ≤ (base : ℚ) ^ ((a : Int) - b - 1) * (base : ℚ) ^ ((b : Int) + 1) := by gcongr
      _ = (base : ℚ) ^ (a : Int) := by
          rw [← zpow_add₀ hbase.ne']
          congr 1
          ring
      _ ≤ num := hnumLow
  · rw [div_lt_iff₀ hd]
    calc (num : ℚ) < (base : ℚ) ^ ((a : Int) + 1) := hnumHigh
      _ = (base : ℚ) ^ ((a : Int) - b + 1) * (base : ℚ) ^ (b : Int) := by
          rw [← zpow_add₀ hbase.ne']
          congr 1
          ring
      _ ≤ (base : ℚ) ^ ((a : Int) - b + 1) * den := by gcongr

theorem binaryOrder_bounds {num den : Nat} (hnum : 0 < num) (hden : 0 < den) :
    (2 : ℚ) ^ binaryOrder num den ≤ num / den ∧
      (num / den : ℚ) < (2 : ℚ) ^ (binaryOrder num den + 1) := by
  have h := settle_of_leading (show 1 < 2 by decide)
    ⟨Nat.log2_self_le hnum.ne', Nat.lt_log2_self⟩ ⟨Nat.log2_self_le hden.ne', Nat.lt_log2_self⟩
  rw [Nat.cast_ofNat] at h
  exact h

theorem decimalLength_bounds {n : Nat} (hn : 0 < n) :
    10 ^ (decimalLength n - 1) ≤ n ∧ n < 10 ^ (decimalLength n - 1 + 1) := by
  have hpos : 0 < decimalLength n := Nat.length_toDigits_pos
  constructor
  · rcases Nat.eq_zero_or_pos (decimalLength n - 1) with hzero | hlong
    · rw [hzero]
      exact hn
    · by_contra hlt
      have hle := (Nat.length_toDigits_le_iff (b := 10) (by decide) hlong).mpr (not_le.mp hlt)
      rw [← decimalLength] at hle
      omega
  · rw [Nat.sub_add_cancel hpos]
    exact (Nat.length_toDigits_le_iff (by decide) hpos).mp le_rfl

theorem decimalOrder_bounds {num den : Nat} (hnum : 0 < num) (hden : 0 < den) :
    (10 : ℚ) ^ decimalOrder num den ≤ num / den ∧
      (num / den : ℚ) < (10 : ℚ) ^ (decimalOrder num den + 1) := by
  have h := settle_of_leading (show 1 < 10 by decide) (decimalLength_bounds hnum)
    (decimalLength_bounds hden)
  have hpos : 0 < decimalLength num := Nat.length_toDigits_pos
  have hpos' : 0 < decimalLength den := Nat.length_toDigits_pos
  rw [show ((decimalLength num - 1 : Nat) : Int) - (decimalLength den - 1 : Nat) =
    (decimalLength num : Int) - decimalLength den by omega, Nat.cast_ofNat] at h
  exact h

/-- A quotient rounds to a natural that is off by half at most, if the natural is even or off by less. -/
theorem roundDiv_eq {num den m : Nat} (hden : 0 < den) (hm : 0 < m)
    (hlow : (m : ℚ) - 1 / 2 ≤ num / den) (hhigh : (num / den : ℚ) ≤ m + 1 / 2)
    (hinner : m % 2 = 1 → (m : ℚ) - 1 / 2 < num / den ∧ (num / den : ℚ) < m + 1 / 2) :
    roundDiv num den = m := by
  have hd : (0 : ℚ) < den := by exact_mod_cast hden
  have hlow' : 2 * (m * den) ≤ 2 * num + den := by
    rw [le_div_iff₀ hd] at hlow
    have : (2 * (m * den) : ℚ) ≤ 2 * num + den := by linarith
    exact_mod_cast this
  have hhigh' : 2 * num ≤ 2 * (m * den) + den := by
    rw [div_le_iff₀ hd] at hhigh
    have : (2 * num : ℚ) ≤ 2 * (m * den) + den := by linarith
    exact_mod_cast this
  have hinner' : m % 2 = 1 → 2 * (m * den) < 2 * num + den ∧ 2 * num < 2 * (m * den) + den := by
    intro hodd
    obtain ⟨hl, hh⟩ := hinner hodd
    rw [lt_div_iff₀ hd] at hl
    rw [div_lt_iff₀ hd] at hh
    constructor
    · have : (2 * (m * den) : ℚ) < 2 * num + den := by linarith
      exact_mod_cast this
    · have : (2 * num : ℚ) < 2 * (m * den) + den := by linarith
      exact_mod_cast this
  apply le_antisymm
  · refine Nat.le_of_lt_succ ((roundDiv_lt_iff hden (Nat.succ_pos m)).mpr ?_)
    have hnext : m.succ * den = m * den + den := Nat.succ_mul m den
    by_cases hodd : m % 2 = 1
    · have := (hinner' hodd).2
      omega
    · omega
  · apply not_lt.mp
    rw [roundDiv_lt_iff hden hm]
    by_cases hodd : m % 2 = 1
    · have := (hinner' hodd).1
      omega
    · omega

/-! ## Basins -/

namespace Decimal

def amount (x : Decimal) : ℚ := x.digits * (10 : ℚ) ^ x.exponent

/-- A value lies in the basin of a dyadic magnitude with exponent `q`. -/
structure Basin.Has (b : Basin) (q : Int) (v : ℚ) : Prop where
  low : b.low ≤ v * 2 ^ (2 - q)
  high : v * 2 ^ (2 - q) ≤ b.high
  inner : b.closed = false → b.low < v * 2 ^ (2 - q) ∧ v * 2 ^ (2 - q) < b.high

theorem amount_eq (n : Nat) (e : Int) :
    ((scale 10 n 1 e).1 : ℚ) / (scale 10 n 1 e).2 = amount ⟨n, e⟩ := by
  rw [scale_ratio (by decide), amount]
  push_cast
  rw [div_one]

theorem Basin.holds_iff {b : Basin} {q : Int} {n : Nat} {e : Int} :
    b.holds q n e = true ↔ b.Has q (amount ⟨n, e⟩) := by
  have hden : 0 < (scale 10 n 1 e).2 := scale_den_pos (by decide) (by decide) n e
  have hratio := scale_ratio (show 0 < 2 by decide) (scale 10 n 1 e).1 (scale 10 n 1 e).2 (2 - q)
  rw [amount_eq, Nat.cast_ofNat] at hratio
  have hpos := scale_den_pos (show 0 < 2 by decide) hden (scale 10 n 1 e).1 (2 - q)
  rw [Basin.holds]
  dsimp only
  generalize scale 2 (scale 10 n 1 e).1 (scale 10 n 1 e).2 (2 - q) = s at hratio hpos ⊢
  have hs : (0 : ℚ) < s.2 := by exact_mod_cast hpos
  have hlow : b.low * s.2 ≤ s.1 ↔ (b.low : ℚ) ≤ amount ⟨n, e⟩ * 2 ^ (2 - q) := by
    rw [← hratio, le_div_iff₀ hs]
    norm_cast
  have hhigh : s.1 ≤ b.high * s.2 ↔ amount ⟨n, e⟩ * 2 ^ (2 - q) ≤ b.high := by
    rw [← hratio, div_le_iff₀ hs]
    norm_cast
  have hlow' : b.low * s.2 < s.1 ↔ (b.low : ℚ) < amount ⟨n, e⟩ * 2 ^ (2 - q) := by
    rw [← hratio, lt_div_iff₀ hs]
    norm_cast
  have hhigh' : s.1 < b.high * s.2 ↔ amount ⟨n, e⟩ * 2 ^ (2 - q) < b.high := by
    rw [← hratio, div_lt_iff₀ hs]
    norm_cast
  cases hclosed : b.closed with
  | true =>
    simp only [if_true, Bool.and_eq_true, decide_eq_true_eq, hlow, hhigh]
    exact ⟨fun h => ⟨h.1, h.2, fun hc => by rw [hclosed] at hc; cases hc⟩, fun h => ⟨h.low, h.high⟩⟩
  | false =>
    simp only [Bool.false_eq_true, if_false, Bool.and_eq_true, decide_eq_true_eq, hlow', hhigh']
    exact ⟨fun h => ⟨h.1.le, h.2.le, fun _ => h⟩, fun h => h.inner hclosed⟩

theorem Basin.Has.congr {b : Basin} {q : Int} {v w : ℚ} (h : b.Has q v) (heq : v = w) : b.Has q w :=
  heq ▸ h

end Decimal

namespace Binary64

def canonicalBits (m : Nat) (q : Int) : Nat := (q + 1074).toNat * hiddenBit + m

theorem ofBits_canonicalBits {m : Nat} {q : Int} (h : Canonical m q) (hq : q ≤ 971) :
    canonicalBits m q < infinityBits ∧ ofBits (canonicalBits m q) = .finite ⟨false, m, q⟩ := by
  have hlt := h.lt
  have hleast := h.least
  have hhidden : hiddenBit = 2 ^ 52 := rfl
  have hinf : infinityBits = 2047 * hiddenBit := rfl
  rcases Nat.lt_or_ge m (2 ^ 52) with hsmall | hfull
  · obtain rfl : q = -1074 := h.full.resolve_left (by omega)
    have hbits : canonicalBits m (-1074) = 0 + 0 * hiddenBit + m := by
      simp [canonicalBits]
    have hfields := ofBits_fields false (show 0 < 2048 by decide) (hhidden ▸ hsmall)
    rw [if_neg Bool.false_ne_true, ← hbits, if_neg (by decide), if_pos rfl] at hfields
    refine ⟨?_, hfields⟩
    rw [hbits, hinf]
    omega
  · obtain ⟨k, hk⟩ : ∃ k : Nat, q + 1074 = k := ⟨(q + 1074).toNat, by omega⟩
    obtain ⟨f, rfl⟩ : ∃ f, m = hiddenBit + f := ⟨m - hiddenBit, by omega⟩
    have hbits : canonicalBits (hiddenBit + f) q = 0 + (k + 1) * hiddenBit + f := by
      rw [canonicalBits, hk, Int.toNat_natCast, Nat.add_one_mul]
      omega
    have hf : f < hiddenBit := by omega
    have hfields := ofBits_fields false (show k + 1 < 2048 by omega) hf
    rw [if_neg Bool.false_ne_true, ← hbits, if_neg (by omega), if_neg (by omega)] at hfields
    have hexponent : ((k + 1 : Nat) : Int) - 1075 = q := by omega
    rw [hexponent] at hfields
    refine ⟨?_, hfields⟩
    have hk' : (k + 1) * hiddenBit ≤ 2046 * hiddenBit := Nat.mul_le_mul_right _ (by omega)
    rw [hbits, hinf]
    omega

theorem binaryOrder_eq {num den : Nat} (hnum : 0 < num) (hden : 0 < den) {o : Int}
    (hlow : (2 : ℚ) ^ o ≤ num / den) (hhigh : (num / den : ℚ) < 2 ^ (o + 1)) : binaryOrder num den = o := by
  obtain ⟨hl, hh⟩ := binaryOrder_bounds hnum hden
  have habove : o < binaryOrder num den + 1 :=
    (zpow_lt_zpow_iff_right₀ (by norm_num)).mp (hlow.trans_lt hh)
  have hbelow : binaryOrder num den < o + 1 :=
    (zpow_lt_zpow_iff_right₀ (by norm_num)).mp (hl.trans_lt hhigh)
  omega

theorem nearestBits_of_round {num den m : Nat} (hnum : 0 < num) (hden : 0 < den) {q : Int}
    (hq : max (binaryOrder num den - 52) (-1074) = q) (hm : 0 < m)
    (hlow : (m : ℚ) - 1 / 2 ≤ num / den * 2 ^ (-q)) (hhigh : (num / den : ℚ) * 2 ^ (-q) ≤ m + 1 / 2)
    (hinner : m % 2 = 1 → (m : ℚ) - 1 / 2 < num / den * 2 ^ (-q) ∧
      (num / den : ℚ) * 2 ^ (-q) < m + 1 / 2)
    (hlt : canonicalBits m q < infinityBits) : nearestBits num den = canonicalBits m q := by
  have hratio := scale_ratio (show 0 < 2 by decide) num den (-q)
  rw [Nat.cast_ofNat] at hratio
  have hround : roundDiv (scale 2 num den (-q)).1 (scale 2 num den (-q)).2 = m := by
    apply roundDiv_eq (scale_den_pos (by decide) hden num (-q)) hm
    all_goals rwa [hratio]
  rw [nearestBits, if_neg hnum.ne']
  simp only [hq, hround]
  exact Nat.min_eq_left hlt.le

theorem binaryOrder_of_units {num den : Nat} (hnum : 0 < num) (hden : 0 < den) {w : ℚ} {q k : Int}
    (hv : (num / den : ℚ) = w * 2 ^ q) (hlow : (2 : ℚ) ^ k ≤ w) (hhigh : w < 2 ^ (k + 1)) :
    binaryOrder num den = q + k := by
  have hpow : (0 : ℚ) < 2 ^ q := zpow_pos (by norm_num) q
  apply binaryOrder_eq hnum hden
  · rw [hv, zpow_add₀ (by norm_num), mul_comm]
    exact mul_le_mul_of_nonneg_right hlow hpow.le
  · rw [hv, add_assoc, zpow_add₀ (by norm_num), mul_comm]
    exact mul_lt_mul_of_pos_left hhigh hpow

theorem hiddenBit_cast : (hiddenBit : ℚ) = 2 ^ (52 : Int) := by norm_num [hiddenBit]

/-- Just below a power of two the unit is half of what it is above, and counts twice. -/
theorem nearestBits_below_power {num den : Nat} (hnum : 0 < num) (hden : 0 < den) {w : ℚ} {q : Int}
    (hv : (num / den : ℚ) = w * 2 ^ q) (hq : -1074 < q) (hlow : (hiddenBit : ℚ) - 1 / 4 ≤ w)
    (hhigh : w < hiddenBit) (hlt : canonicalBits hiddenBit q < infinityBits) :
    nearestBits num den = canonicalBits hiddenBit q := by
  have horder : binaryOrder num den = q + 51 := by
    refine binaryOrder_of_units hnum hden hv ?_ (hhigh.trans_le hiddenBit_cast.le)
    rw [hiddenBit_cast] at hlow
    exact le_trans (by norm_num) hlow
  have htwice : (num / den : ℚ) * 2 ^ (-(q - 1)) = 2 * w := by
    rw [hv, mul_assoc, ← zpow_add₀ (by norm_num), show q + -(q - 1) = 1 by ring, zpow_one, mul_comm]
  have hbits : canonicalBits hiddenBit q = canonicalBits (2 * hiddenBit) (q - 1) := by
    have hunit : (q + 1074).toNat = (q - 1 + 1074).toNat + 1 := by omega
    rw [canonicalBits, canonicalBits, hunit, Nat.add_one_mul]
    omega
  rw [hbits] at hlt ⊢
  have hpos : 0 < hiddenBit := by decide
  refine nearestBits_of_round hnum hden (q := q - 1) (by omega) (by omega) ?_ ?_ ?_ hlt
  · rw [htwice]
    push_cast
    linarith
  · rw [htwice]
    push_cast
    linarith
  · intro hodd
    omega

/-- What lies in the basin of a double is rounded to it. -/
theorem nearestBits_of_has {d : Dyad} (hd : Canonical d.mantissa d.exponent) (hq : d.exponent ≤ 971)
    {num den : Nat} (hden : 0 < den) (h : (Decimal.basin d).Has d.exponent (num / den)) :
    nearestBits num den = canonicalBits d.mantissa d.exponent := by
  obtain ⟨negative, m, q⟩ := d
  dsimp only at hd hq h ⊢
  have hlt := (ofBits_canonicalBits hd hq).1
  have hleast := hd.least
  have hm1 : (1 : ℚ) ≤ m := by exact_mod_cast hd.pos
  have hm53 : (m : ℚ) + 1 ≤ 2 ^ (53 : Int) := by exact_mod_cast hd.lt
  -- the number of units of the last place, of which the basin counts quarters
  obtain ⟨w, hw⟩ : ∃ w : ℚ, w = num / den * 2 ^ (-q) := ⟨_, rfl⟩
  have hv : (num / den : ℚ) = w * 2 ^ q := by
    rw [hw, mul_assoc, ← zpow_add₀ (by norm_num), neg_add_cancel, zpow_zero, mul_one]
  obtain ⟨hlow, hhigh, hinner⟩ := h
  have hquarter : (num / den : ℚ) * 2 ^ (2 - q) = 4 * w := by
    rw [hw, sub_eq_add_neg, zpow_add₀ (by norm_num)]
    ring
  have hlowCast : (4 * m : ℚ) ≤ (Decimal.basin ⟨negative, m, q⟩).low + 2 := by
    have hnat : 4 * m ≤ (Decimal.basin ⟨negative, m, q⟩).low + 2 := by
      simp only [Decimal.basin]
      split <;> omega
    exact_mod_cast hnat
  have hhighCast : ((Decimal.basin ⟨negative, m, q⟩).high : ℚ) = 4 * m + 2 := by
    simp [Decimal.basin]
  rw [hquarter] at hlow hhigh hinner
  rw [hhighCast] at hhigh hinner
  have hodd : m % 2 = 1 → (m : ℚ) - 1 / 2 < w ∧ w < (m : ℚ) + 1 / 2 := by
    intro hodd
    have := hinner (by simp [Decimal.basin, hodd])
    constructor <;> linarith
  have hnum : 0 < num := by
    rcases Nat.eq_zero_or_pos num with rfl | hpos
    · simp at hw
      linarith
    · exact hpos
  have hround (hmax : max (binaryOrder num den - 52) (-1074) = q) :
      nearestBits num den = canonicalBits m q := by
    refine nearestBits_of_round hnum hden hmax hd.pos ?_ ?_ ?_ hlt
    all_goals rw [← hw]
    · linarith
    · linarith
    · exact hodd
  by_cases hbig : (2 : ℚ) ^ (52 : Int) ≤ w
  · have horder := binaryOrder_of_units hnum hden hv hbig
      (show w < 2 ^ (53 : Int) by linarith)
    exact hround (by omega)
  · rcases eq_or_lt_of_le hleast with hfinest | hcoarse
    · have horder : binaryOrder num den < q + 52 := by
        apply (zpow_lt_zpow_iff_right₀ (by norm_num : (1 : ℚ) < 2)).mp
        apply (binaryOrder_bounds hnum hden).1.trans_lt
        rw [hv, add_comm, zpow_add₀ (by norm_num)]
        exact mul_lt_mul_of_pos_right (not_le.mp hbig) (zpow_pos (by norm_num) q)
      exact hround (by omega)
    · have hm : m = hiddenBit := by
        refine le_antisymm (not_lt.mp fun hgt => ?_) (hd.full.resolve_right (by omega))
        have hcast : (hiddenBit : ℚ) + 1 ≤ m := by exact_mod_cast hgt
        rw [hiddenBit_cast] at hcast
        linarith
      have hclose : ((Decimal.basin ⟨negative, m, q⟩).low : ℚ) = 4 * m - 1 := by
        have hnat : (Decimal.basin ⟨negative, m, q⟩).low + 1 = 4 * m := by
          simp only [Decimal.basin, hm, hcoarse, and_self, if_true]
          decide
        have : ((Decimal.basin ⟨negative, m, q⟩).low : ℚ) + 1 = 4 * m := by exact_mod_cast hnat
        linarith
      rw [hclose, hm] at hlow
      rw [hm] at hlt ⊢
      refine nearestBits_below_power hnum hden hv hcoarse (by linarith) ?_ hlt
      rw [hiddenBit_cast]
      exact not_le.mp hbig

end Binary64

end AssignmentSearch
