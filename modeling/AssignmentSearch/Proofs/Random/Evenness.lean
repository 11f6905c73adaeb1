import AssignmentSearch.Proofs.Quantity.Reals
import AssignmentSearch.Proofs.Random.Positions
import Mathlib.Algebra.Order.Floor.Div
import Mathlib.Algebra.Order.Floor.Semifield
import Mathlib.Data.Set.Card
import Mathlib.Order.Interval.Finset.Nat

/-!
# Even positions

A generator's samples are the fractions `k / 2 ^ 53`. The samples that select one position are
those of an interval whose ends are rounded up, so all positions are selected by equally many
samples, but for one. What is said of counts supposes that products are not rounded; that a position
among those asked for is selected holds of rounded products as well.
-/

namespace AssignmentSearch

section Quotients

variable {size bound : Nat}

theorem ceilDiv_add_le (hpos : 0 < bound) (x y : Nat) :
    (x + y) ⌈/⌉ bound ≤ x ⌈/⌉ bound + y ⌈/⌉ bound := by
  rw [ceilDiv_le_iff_le_mul hpos, Nat.mul_add]
  exact Nat.add_le_add (le_smul_ceilDiv hpos) (le_smul_ceilDiv hpos)

theorem ceilDiv_add_div_le (hpos : 0 < bound) (x y : Nat) :
    x ⌈/⌉ bound + y / bound ≤ (x + y) ⌈/⌉ bound := by
  rw [Nat.ceilDiv_eq_add_pred_div, Nat.ceilDiv_eq_add_pred_div,
    show x + y + bound - 1 = x + bound - 1 + y by omega]
  exact Nat.div_add_div_le_add_div

theorem ceilDiv_le_div_add_one (hpos : 0 < bound) (x : Nat) : x ⌈/⌉ bound ≤ x / bound + 1 := by
  rw [ceilDiv_le_iff_le_mul hpos]
  exact (Nat.lt_mul_div_succ x hpos).le

/-- The numbers whose quotient is `i` are those of an interval with its ends rounded up. -/
theorem mul_div_eq_iff (hsize : 0 < size) (hpos : 0 < bound) {i k : Nat} :
    k * bound / size = i ↔ i * size ⌈/⌉ bound ≤ k ∧ k < (i + 1) * size ⌈/⌉ bound := by
  have hle : ∀ j, j * size ⌈/⌉ bound ≤ k ↔ j ≤ k * bound / size := fun j => by
    rw [ceilDiv_le_iff_le_mul hpos, Nat.mul_comm bound, Nat.le_div_iff_mul_le hsize]
  rw [← not_le, hle, hle]
  omega

/-- Of the numbers below `size` each quotient below `bound` is taken by equally many, but for one. -/
theorem ncard_mul_div_eq (hsize : 0 < size) (hpos : 0 < bound) {i : Nat} (hi : i < bound) :
    {k | k < size ∧ k * bound / size = i}.ncard = size / bound ∨
      {k | k < size ∧ k * bound / size = i}.ncard = size ⌈/⌉ bound := by
  have hfinset : {k | k < size ∧ k * bound / size = i} =
      ↑(Finset.Ico (i * size ⌈/⌉ bound) ((i + 1) * size ⌈/⌉ bound)) := by
    ext k
    rw [Finset.mem_coe, Finset.mem_Ico, ← mul_div_eq_iff hsize hpos, Set.mem_ofPred_eq,
      and_iff_right_iff_imp]
    rintro rfl
    have hlt := (Nat.div_lt_iff_lt_mul hsize).mp hi
    rw [Nat.mul_comm bound] at hlt
    exact Nat.lt_of_mul_lt_mul_right hlt
  have hlow := ceilDiv_add_div_le hpos (i * size) size
  have hhigh := ceilDiv_add_le hpos (i * size) size
  have hnear := ceilDiv_le_div_add_one hpos size
  rw [hfinset, Set.ncard_coe_finset, Nat.card_Ico, Nat.succ_mul]
  omega

end Quotients

namespace Binary64

theorem valueOf_fraction {k : Nat} (h : k < 2 ^ 53) :
    IsFinite (Quantity.fraction k) ∧ valueOf (Quantity.fraction k) = (Quantity.fraction k : ℝ) := by
  have hnearest : (Quantity.fraction k : Float) = nearest k (2 ^ 53) := rfl
  have hfraction : (Quantity.fraction k : ℝ) = k / 2 ^ 53 := rfl
  obtain ⟨hfinite, hrank⟩ := nearest_two_pow (b := 53) h (by decide)
  have hplaces : (-(53 : Nat) + 1074 : Int).toNat = unitBits - 53 := rfl
  have hunit : (unit : ℝ) = 2 ^ 53 * 2 ^ (unitBits - 53) := by
    rw [unit_eq, ← pow_add, Nat.cast_pow, Nat.cast_ofNat]
    congr 1
  rw [hnearest, hfraction]
  refine ⟨hfinite, ?_⟩
  rw [valueOf, hrank, magnitude, hplaces, hunit, Int.cast_natCast, Nat.cast_mul, Nat.cast_pow,
    Nat.cast_ofNat]
  exact mul_div_mul_right _ _ (by positivity)

end Binary64

namespace Source

open Binary64

/-- Without rounding the floor of the product is a quotient of naturals. -/
theorem scaled_fraction (bound k : Nat) :
    scaled (.whole bound) (.real (Quantity.fraction k : ℝ)) = .ok (k * bound / 2 ^ 53 : Nat) := by
  have htimes : (Scalar.real (Quantity.fraction k : ℝ)).times "*" (.whole bound) =
      .ok (.real ((k / 2 ^ 53 : ℝ) * (bound : Int))) := rfl
  have hfloor : ⌊(k / 2 ^ 53 : ℝ) * (bound : Int)⌋ = (k * bound / 2 ^ 53 : Nat) := by
    have hquotient : (k / 2 ^ 53 : ℝ) * (bound : Int) = (k * bound : Nat) / (2 ^ 53 : Nat) := by
      push_cast
      ring
    rw [hquotient, Int.floor_div_natCast, Int.floor_natCast, Int.natCast_div]
  rw [scaled, htimes]
  change (Scalar.real ((k / 2 ^ 53 : ℝ) * (bound : Int))).floor = _
  apply Scalar.floor_real
  exact congrArg Except.ok hfloor

/-- The index that sample `k / 2 ^ 53` selects if its product with the bound is not rounded. -/
noncomputable def exactIndex (bound k : Nat) : Except Fault Int :=
  position bound (.real (Quantity.fraction k : ℝ))

theorem exactIndex_eq {bound k : Nat} (hpos : 0 < bound) (hk : k < 2 ^ 53) :
    k * bound / 2 ^ 53 < bound ∧ exactIndex bound k = .ok (k * bound / 2 ^ 53 : Nat) := by
  have hlt : k * bound / 2 ^ 53 < bound :=
    Nat.div_lt_of_lt_mul (Nat.mul_lt_mul_of_pos_right hk hpos)
  refine ⟨hlt, ?_⟩
  rw [exactIndex, position, scaled_fraction]
  change Except.ok (min ((k * bound / 2 ^ 53 : Nat) : Int) (bound - 1)) = _
  congr 1
  omega

theorem exactIndex_mono {bound k l : Nat} {i j : Int} (hpos : 0 < bound) (hkl : k ≤ l)
    (hl : l < 2 ^ 53) (hi : exactIndex bound k = .ok i) (hj : exactIndex bound l = .ok j) :
    i ≤ j := by
  rw [(exactIndex_eq hpos (hkl.trans_lt hl)).2, Except.ok.injEq] at hi
  rw [(exactIndex_eq hpos hl).2, Except.ok.injEq] at hj
  rw [← hi, ← hj]
  exact Int.ofNat_le.mpr (Nat.div_le_div_right (Nat.mul_le_mul_right bound hkl))

def selecting (bound : Nat) (i : Int) : Set Nat := {k | k < 2 ^ 53 ∧ exactIndex bound k = .ok i}

theorem ncard_selecting {bound i : Nat} (hi : i < bound) :
    (selecting bound i).ncard = 2 ^ 53 / bound ∨ (selecting bound i).ncard = 2 ^ 53 ⌈/⌉ bound := by
  have hpos : 0 < bound := Nat.zero_lt_of_lt hi
  have hset : selecting bound i = {k | k < 2 ^ 53 ∧ k * bound / 2 ^ 53 = i} := by
    ext k
    rw [selecting, Set.mem_ofPred_eq, Set.mem_ofPred_eq, and_congr_right_iff]
    intro hk
    rw [(exactIndex_eq hpos hk).2, Except.ok.injEq, Int.ofNat_inj]
  rw [hset]
  exact ncard_mul_div_eq (by decide) hpos hi

/-- What a generator hands out is a fraction and no rounded one. -/
theorem exists_fraction {s : Source Float} {t : Twister} (h : s.supply = .generator t) :
    ∃ k < 2 ^ 53, ∃ x : Float, s.sample.1 = .real x ∧ IsFinite x ∧
      valueOf x = (Quantity.fraction k : ℝ) := by
  obtain ⟨hfinite, hvalue⟩ := valueOf_fraction t.next53_lt
  refine ⟨t.next53.1, t.next53_lt, Quantity.fraction t.next53.1, ?_, hfinite, hvalue⟩
  rw [sample, h]

theorem product_of_inUnit {n : Nat} {x : Scalar Float} {p : Float} (hx : x.InUnit)
    (hp : x.times "*" (.whole n) = .ok (.real p)) : IsFinite p ∧ 0 ≤ p := by
  cases x with
  | real y =>
    cases hn : ofInt? n with
    | none =>
      simp only [Scalar.times, Scalar.numeral?, Numeral.times, Numeral.quantity, quantityOfInt,
        Quantity.ofInt?, hn] at hp
      cases hp
    | some z =>
      rw [times_real hn, Except.ok.injEq, Scalar.real.injEq] at hp
      rw [← hp]
      exact product_of_unit hn hx.1 hx.2
  | whole k => cases hp
  | truth b => cases hp
  | alien d => exact hx.elim

/-- A call for an index costs one sample and is answered by an index below the bound. -/
def AnswersBelow (s : Source Float) (bound : Nat) : Prop :=
  ∃ i : Nat, (index bound).start s = (.ok ↑i, s.sample.2) ∧ i < bound

theorem answersBelow_of_position {s : Source Float} {bound : Nat} (hpos : 0 < bound)
    (h : ∃ i : Nat, position bound s.sample.1 = .ok i ∧ i < bound) : s.AnswersBelow bound := by
  obtain ⟨i, hi, hlt⟩ := h
  exact ⟨i, by rw [start_index_of_pos (Int.natCast_pos.mpr hpos), hi], hlt⟩

theorem answersBelow_of_product {s : Source Float} {bound : Nat} {p : Float} (hpos : 0 < bound)
    (hp : s.sample.1.times "*" (.whole bound) = .ok (.real p)) (hfinite : IsFinite p)
    (hzero : 0 ≤ p) : s.AnswersBelow bound := by
  obtain ⟨m, hm, hmzero⟩ := scaled_of_product hp hfinite hzero
  exact answersBelow_of_position hpos (position_of_scaled hpos hm hmzero)

/-- If products are not rounded, the fractions select indices below the bound without any clamping,
a greater fraction no lower index, and each index is selected by `2 ^ 53 / bound` of them, rounded
down or up. Rounded products that are finite and not negative select indices below the bound too.
Those with samples of the unit interval are such, and there is one if the bound is near a double. -/
theorem indices_are_spread_evenly {bound : Nat} (hpos : 0 < bound) :
    (∀ (s : Source Float) t, s.supply = .generator t →
      ∃ k < 2 ^ 53, ∃ x : Float, s.sample.1 = .real x ∧ IsFinite x ∧
        valueOf x = (Quantity.fraction k : ℝ)) ∧
    (∀ (s : Source ℝ) k, s.sample.1 = .real (Quantity.fraction k) →
      (index bound).start s = (exactIndex bound k, s.sample.2)) ∧
    (∀ k < 2 ^ 53, ∃ i : Nat, i < bound ∧
      scaled (.whole bound) (.real (Quantity.fraction k : ℝ)) = .ok i ∧
        exactIndex bound k = .ok i) ∧
    (∀ k l i j, k ≤ l → l < 2 ^ 53 → exactIndex bound k = .ok i → exactIndex bound l = .ok j →
      i ≤ j) ∧
    (∀ i < bound, (selecting bound i).ncard = 2 ^ 53 / bound ∨
      (selecting bound i).ncard = 2 ^ 53 ⌈/⌉ bound) ∧
    (∀ (s : Source Float) p, s.sample.1.times "*" (.whole bound) = .ok (.real p) →
      IsFinite p → 0 ≤ p → s.AnswersBelow bound) ∧
    (∀ (s : Source Float) p, s.sample.1.times "*" (.whole bound) = .ok (.real p) →
      s.InUnit → IsFinite p ∧ 0 ≤ p) ∧
    ∀ s : Source Float, s.InUnit → (ofInt? bound).isSome → s.AnswersBelow bound := by
  refine ⟨fun s t h => exists_fraction h, fun s k h => ?_, fun k hk => ?_,
    fun k l i j hkl hl hi hj => exactIndex_mono hpos hkl hl hi hj, fun i hi => ncard_selecting hi,
    fun s p hp hfinite hzero => answersBelow_of_product hpos hp hfinite hzero,
    fun s p hp hs => product_of_inUnit (inUnit_sample hs) hp, fun s hs hn => ?_⟩
  · rw [start_index_of_pos (Int.natCast_pos.mpr hpos), h, exactIndex]
  · obtain ⟨hlt, heq⟩ := exactIndex_eq hpos hk
    exact ⟨_, hlt, scaled_fraction bound k, heq⟩
  · exact answersBelow_of_position hpos (position_of_ofInt? hpos hn (inUnit_sample hs))

/-- Three does not divide the number of samples, and a product of fifteen has to be clamped. -/
theorem indices_are_spread_evenly_three :
    0 < 3 ∧
    ((selecting 3 1).ncard = 3002399751580330 ∨ (selecting 3 1).ncard = 3002399751580331) ∧
    (repeating [.real (5 : Float)]).AnswersBelow 3 ∧
    (repeating [.real (0.75 : Float)]).AnswersBelow 3 := by
  have hdouble : ofInt? (3 : Nat) = some 3 := by decide +kernel
  have hunit : (repeating [.real (0.75 : Float)]).InUnit :=
    inUnit_repeating (List.cons_ne_nil _ _) fun x hx => by
      rw [List.mem_singleton.mp hx]
      exact ⟨by decide +kernel, by decide +kernel⟩
  obtain ⟨-, -, -, -, hcount, hproduct, -, hsample⟩ := @indices_are_spread_evenly 3 (by decide)
  exact ⟨by decide, hcount 1 (by decide),
    hproduct _ (5 * 3) (times_real hdouble 5) (by decide +kernel) (by decide +kernel),
    hsample _ hunit (Option.isSome_of_eq_some hdouble)⟩

end Source

end AssignmentSearch
