import AssignmentSearch.Proofs.Binary64.Product
import AssignmentSearch.Proofs.Quantity.Doubles
import AssignmentSearch.Proofs.Strategy.Schedules

/-!
# Cooling

Every cooling rounds the product of temperature and rate. The temperature never rises, and it falls
below every double that shrinks; but where a double is its own product it stays for ever.
-/

namespace AssignmentSearch
open Binary64

namespace Binary64

theorem rank_one : rank (decode 1) = unit := by
  rw [isWhole_one.rank_eq, Int.one_mul]

theorem rank_zero : rank (decode 0) = 0 := by
  rw [isWhole_zero.rank_eq, Int.zero_mul]

theorem exists_canonical {x : Float} {a : Nat} (hx : IsFinite x) (ha : rank (decode x) = a)
    (hpos : 0 < a) : ∃ m e, Canonical m e ∧ a = magnitude m e := by
  obtain ⟨s, m, e, hm, hu, hcan⟩ := unpack_of_rank_ne_zero hx (by omega)
  rw [← ofUnpacked_toModel, hu, rank_ofUnpacked_finite] at ha
  obtain ⟨-, rfl⟩ := positive_of_apply (magnitude_pos hm) ha
  exact ⟨m, e, hcan, rfl⟩

theorem rank_mul_of_lt_one {x y : Float} {a b : Nat} (hx : IsFinite x) (hy : IsFinite y)
    (ha : rank (decode x) = a) (hb : rank (decode y) = b) (hlt : b < unit) :
    IsFinite (x * y) ∧ rank (decode (x * y)) = nearestPart unitBits (a * b) ∧
      nearestPart unitBits (a * b) ≤ a := by
  have hle : nearestPart unitBits (a * b) ≤ a := by
    rcases Nat.eq_zero_or_pos a with rfl | hpos
    · rw [Nat.zero_mul, nearestPart_zero]
    · obtain ⟨m, e, hcan, rfl⟩ := exists_canonical hx ha hpos
      calc nearestPart unitBits (magnitude m e * b)
          ≤ nearestPart unitBits (magnitude m e * 2 ^ unitBits) := by
            rw [← unit_eq]
            exact nearestPart_mono _ (Nat.mul_le_mul_left _ hlt.le)
        _ = magnitude m e := by
            rw [nearestPart_mul_two_pow, nearestNat_magnitude hcan.lt]
  have habs := abs_rank_lt hx
  rw [ha, Nat.abs_cast] at habs
  have hceiling : nearestPart unitBits (a * b) < ceiling :=
    Nat.lt_of_le_of_lt hle (Int.ofNat_lt.mp habs)
  have hrank := rank_mul hx hy ha hb
  rw [Nat.min_eq_left hceiling.le] at hrank
  refine ⟨isFinite_of_rank (decode_mul_ne_nan hx hy ha hb) ?_, hrank, hle⟩
  rw [hrank, Nat.abs_cast]
  exact Int.ofNat_lt.mpr hceiling

end Binary64

namespace Annealing

theorem isFinite_iff {x : Float} : isFinite x = true ↔ IsFinite x := by
  rw [isFinite, IsFinite]
  cases decode x <;> simp

/-- The temperature, the cold one and the rate of a schedule, in units of the least double. -/
structure Ranked (heat cold rate : Float) (a c b : Nat) : Prop where
  heat : IsFinite heat ∧ rank (decode heat) = a
  cold : IsFinite cold ∧ rank (decode cold) = c
  rate : IsFinite rate ∧ rank (decode rate) = b
  rate_lt : b < unit
  gap : b + 2 ^ (unitBits - 53) ≤ unit

theorem le_cold_iff {heat cold rate : Float} {a c b : Nat} (h : Ranked heat cold rate a c b) :
    heat ≤ cold ↔ a ≤ c := by
  rw [le_iff_rank h.heat.1.ne_nan h.cold.1.ne_nan, h.heat.2, h.cold.2, Int.ofNat_le]

theorem Ranked.cool {heat cold rate : Float} {a c b : Nat} (h : Ranked heat cold rate a c b) :
    Ranked (heat * rate) cold rate (nearestPart unitBits (a * b)) c b := by
  obtain ⟨hfinite, hrank, -⟩ := rank_mul_of_lt_one h.heat.1 h.rate.1 h.heat.2 h.rate.2 h.rate_lt
  exact ⟨⟨hfinite, hrank⟩, h.cold, h.rate, h.rate_lt, h.gap⟩

/-- The rule that decides whether a schedule ends: the least double above the cold temperature has
to shrink under the rate. -/
def Cools (cold rate : Float) : Prop :=
  Shrinks ((rank (decode cold)).toNat + 1) (rank (decode rate)).toNat

instance instDecidableCools (cold rate : Float) : Decidable (Cools cold rate) :=
  inferInstanceAs (Decidable (Shrinks _ _))

theorem Ranked.cold_stays {heat cold rate : Float} {a c b : Nat} (h : Ranked heat cold rate a c b)
    (hcold : heat ≤ cold) (n : Nat) : (· * rate)^[n] heat ≤ cold := by
  induction n generalizing heat a with
  | zero => exact hcold
  | succ n ih =>
    have hle := (rank_mul_of_lt_one h.heat.1 h.rate.1 h.heat.2 h.rate.2 h.rate_lt).2.2
    rw [Function.iterate_succ_apply]
    refine ih h.cool ?_
    rw [le_cold_iff h] at hcold
    rw [le_cold_iff h.cool]
    exact hle.trans hcold

theorem Ranked.iterate {heat cold rate : Float} {a c b : Nat} (h : Ranked heat cold rate a c b)
    (n : Nat) : ∃ a', Ranked ((· * rate)^[n] heat) cold rate a' c b := by
  induction n generalizing heat a with
  | zero => exact ⟨a, h⟩
  | succ n ih =>
    rw [Function.iterate_succ_apply]
    exact ih h.cool

theorem Ranked.cold_after {heat cold rate : Float} {a c b : Nat} (h : Ranked heat cold rate a c b)
    {m n : Nat} (hcold : (· * rate)^[m] heat ≤ cold) (hle : m ≤ n) : (· * rate)^[n] heat ≤ cold := by
  obtain ⟨a', h'⟩ := h.iterate m
  obtain ⟨k, rfl⟩ := Nat.exists_eq_add_of_le' hle
  rw [Function.iterate_add_apply]
  exact h'.cold_stays hcold k

/-- Every temperature above a cold one whose successor shrinks comes down to it. -/
theorem Ranked.exists_cold {heat cold rate : Float} {a c b : Nat} (h : Ranked heat cold rate a c b)
    (hshrinks : Shrinks (c + 1) b) : ∃ n, (· * rate)^[n] heat ≤ cold := by
  induction a using Nat.strong_induction_on generalizing heat with
  | h a ih =>
    rcases Nat.lt_or_ge c a with hlt | hge
    · obtain ⟨m, e, hcan, rfl⟩ := exists_canonical h.heat.1 h.heat.2 (by omega)
      have hless := nearestPart_lt_of_shrinks hcan h.gap (hshrinks.of_le h.rate_lt hlt)
      obtain ⟨n, hn⟩ := ih _ hless h.cool
      exact ⟨n + 1, by rwa [Function.iterate_succ_apply]⟩
    · exact ⟨0, (le_cold_iff h).mpr hge⟩

/-- No temperature above a cold one whose successor does not shrink comes down to it. -/
theorem Ranked.never_cold {heat cold rate : Float} {a c b : Nat} (h : Ranked heat cold rate a c b)
    (hlt : c < a) (hnot : ¬ Shrinks (c + 1) b) (n : Nat) : ¬ (· * rate)^[n] heat ≤ cold := by
  induction n generalizing heat a with
  | zero =>
    rw [Function.iterate_zero, id, le_cold_iff h]
    omega
  | succ n ih =>
    have hstays : c + 1 ≤ nearestPart unitBits (a * b) :=
      (le_nearestPart_of_not_shrinks h.rate_lt hnot).trans
        (nearestPart_mono _ (Nat.mul_le_mul_right b hlt))
    rw [Function.iterate_succ_apply]
    exact ih h.cool hstays

theorem rank_toNat {x : Float} (hx : IsFinite x) (hpos : ¬ x ≤ 0) :
    rank (decode x) = (rank (decode x)).toNat ∧ 0 < rank (decode x) := by
  rw [le_iff_rank hx.ne_nan isWhole_zero.finite.ne_nan, rank_zero] at hpos
  omega

theorem ranked_of_make {initial cold rate : Float} {s : Annealing Float}
    (h : make initial cold rate = .ok s) :
    s = ⟨.real initial, cold, rate⟩ ∧
      Ranked initial cold rate (rank (decode initial)).toNat (rank (decode cold)).toNat
        (rank (decode rate)).toNat ∧
      (rank (decode cold)).toNat < (rank (decode initial)).toNat := by
  rw [make] at h
  split at h
  · cases h
  rename_i hfinite
  split at h
  · cases h
  rename_i hrange
  split at h
  · cases h
  rename_i hpositive
  split at h
  · cases h
  rename_i hgap
  cases h
  simp only [Bool.not_eq_true', Bool.not_eq_false, Bool.and_eq_true, isFinite_iff] at hfinite
  obtain ⟨⟨hinitial, hcold⟩, hrate⟩ := hfinite
  simp only [Bool.not_eq_true', Bool.not_eq_false, Bool.and_eq_true, decide_eq_true_eq] at hrange
  simp only [Bool.or_eq_true, decide_eq_true_eq, not_or] at hpositive
  have hone := hrange.2
  have hpos := hrange.1
  rw [lt_iff_rank hrate.ne_nan isWhole_one.finite.ne_nan, rank_one] at hone
  rw [lt_iff_rank isWhole_zero.finite.ne_nan hrate.ne_nan, rank_zero] at hpos
  rw [le_iff_rank hinitial.ne_nan hcold.ne_nan] at hgap
  obtain ⟨hi, -⟩ := rank_toNat hinitial hpositive.1
  obtain ⟨hc, -⟩ := rank_toNat hcold hpositive.2
  have hb : rank (decode rate) = (rank (decode rate)).toNat := by omega
  refine ⟨rfl, ⟨⟨hinitial, hi⟩, ⟨hcold, hc⟩, ⟨hrate, hb⟩, by omega, ?_⟩, by omega⟩
  obtain ⟨m, e, hcan, hmag⟩ := exists_canonical hrate hb (by omega)
  rw [hmag]
  exact add_le_unit hcan (by omega)

/-- A schedule comes to its end if and only if the least double above the cold temperature
shrinks. -/
theorem cools_iff {initial cold rate : Float} {s : Annealing Float}
    (h : make initial cold rate = .ok s) :
    (∃ n, (· * rate)^[n] initial ≤ cold) ↔ Cools cold rate := by
  obtain ⟨-, hranked, hlt⟩ := ranked_of_make h
  constructor
  · rintro ⟨n, hn⟩
    by_contra hnot
    exact hranked.never_cold hlt hnot n hn
  · exact hranked.exists_cold

/-- A schedule with a normal double as its cold temperature comes to its end. -/
theorem cools_of_normal {initial cold rate : Float} {s : Annealing Float}
    (h : make initial cold rate = .ok s) (hnormal : 2.2250738585072014e-308 ≤ cold) :
    Cools cold rate := by
  obtain ⟨-, hranked, -⟩ := ranked_of_make h
  have hleast : decode 2.2250738585072014e-308 = .finite ⟨false, 2 ^ 52, -1074⟩ := by
    decide +kernel
  rw [le_iff_rank (by rw [hleast]; simp) hranked.cold.1.ne_nan, hleast] at hnormal
  have hrank : rank (.finite ⟨false, 2 ^ 52, -1074⟩) = 2 ^ 52 := by decide +kernel
  rw [hrank] at hnormal
  refine Or.inl ?_
  omega

end Annealing
end AssignmentSearch
