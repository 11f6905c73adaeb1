import AssignmentSearch.Proofs.Binary64.Differences
import AssignmentSearch.Proofs.Quantity.Doubles
import AssignmentSearch.Proofs.Solution.Costs

/-!
# Comparisons of any two solutions

Costs that have a difference are compared alike from both sides, and the better solution has the
lower cost. Costs that have none, as they are the same infinity or one is no number, make each
solution better than the other.
-/

namespace AssignmentSearch
namespace Solution

open Binary64

def toleranceRank : Int := rank (decode 1e-4)

theorem toleranceRank_pos : 0 < toleranceRank := by
  rw [toleranceRank, decode_tolerance]
  exact Int.natCast_pos.mpr (magnitude_pos (by decide))

theorem isFinite_tolerance : IsFinite 1e-4 := ⟨_, decode_tolerance⟩

theorem compareCosts_cases (x y : Float) :
    compareCosts x y = 1 ∨ compareCosts x y = 0 ∨ compareCosts x y = -1 := by
  simp only [compareCosts]
  split_ifs <;> simp

theorem compareCosts_eq_zero_iff (x y : Float) :
    compareCosts x y = 0 ↔ -Quantity.tolerance ≤ x - y ∧ x - y ≤ Quantity.tolerance := by
  simp only [compareCosts]
  split_ifs with hnear
  · exact iff_of_true rfl hnear
  · exact iff_of_false (by decide) hnear
  · exact iff_of_false (by decide) hnear

theorem compareCosts_of_hasDifference {x y : Float} (h : HasDifference x y) :
    compareCosts x y =
      if rank (decode (x - y)) < -toleranceRank then 1
      else if toleranceRank < rank (decode (x - y)) then -1 else 0 := by
  have hpos := toleranceRank_pos
  have hneg : rank (decode (-1e-4)) = -toleranceRank := rank_neg isFinite_tolerance
  have hzero : rank (decode 0) = 0 := by rw [isWhole_zero.rank_eq, Int.zero_mul]
  have hlow : -1e-4 ≤ x - y ↔ -toleranceRank ≤ rank (decode (x - y)) := by
    rw [le_iff_rank isFinite_tolerance.neg.ne_nan h.sub_ne_nan, hneg]
  have hhigh : x - y ≤ 1e-4 ↔ rank (decode (x - y)) ≤ toleranceRank :=
    le_iff_rank h.sub_ne_nan isFinite_tolerance.ne_nan
  have hsign : 0 < x - y ↔ 0 < rank (decode (x - y)) := by
    rw [lt_iff_rank isWhole_zero.finite.ne_nan h.sub_ne_nan, hzero]
  simp only [compareCosts, Quantity.tolerance, Quantity.zero, hlow, hhigh, hsign]
  split_ifs <;> omega

theorem compareCosts_of_no_difference {x y : Float} (h : ¬ HasDifference x y) :
    compareCosts x y = 1 := by
  have hnan := decode_sub_eq_nan h
  have hnear : ¬ (-1e-4 ≤ x - y ∧ x - y ≤ 1e-4) := fun hle => (ne_nan_of_le hle.2).1 hnan
  have hsign : ¬ 0 < x - y := fun hlt => (ne_nan_of_le (le_of_float_lt hlt)).2 hnan
  simp only [compareCosts, Quantity.tolerance, Quantity.zero, if_neg hnear, if_neg hsign]

theorem compareCosts_antisymm {x y : Float} (h : HasDifference x y) :
    compareCosts x y = -compareCosts y x := by
  have hpos := toleranceRank_pos
  rw [compareCosts_of_hasDifference h, compareCosts_of_hasDifference h.symm, h.rank_sub_swap]
  split_ifs <;> omega

theorem lt_of_compareCosts {x y : Float} (h : HasDifference x y) (hc : compareCosts x y = 1) :
    x < y := by
  have hpos := toleranceRank_pos
  rw [compareCosts_of_hasDifference h] at hc
  have hneg : rank (decode (x - y)) < 0 := by
    split_ifs at hc <;> omega
  exact (lt_iff_rank h.1 h.2.1).mpr (h.rank_lt hneg)

theorem not_lt_of_no_difference {x y : Float} (h : ¬ HasDifference x y) : ¬ x < y := by
  intro hlt
  obtain ⟨hx, hy⟩ := ne_nan_of_le (le_of_float_lt hlt)
  refine h ⟨hx, hy, fun negative hxinf hyinf => ?_⟩
  rw [lt_iff_rank hx hy, hxinf, hyinf] at hlt
  exact lt_irrefl _ hlt

theorem compareCosts_self (x : Float) : compareCosts x x = if IsFinite x then 0 else 1 := by
  have hpos := toleranceRank_pos
  split_ifs with hx
  · have h := compareCosts_antisymm hx.hasDifference_self
    omega
  · exact compareCosts_of_no_difference fun h => hx (isFinite_of_hasDifference_self h)

variable {τ ρ : Type}

theorem compare_of_costs {a b : Solution Float τ ρ} {x y : Float} (ha : a.costValue = .ok x)
    (hb : b.costValue = .ok y) : a.compare b = .ok (compareCosts x y) := by
  rw [compare, ha, hb]
  rfl

/-- Comparisons are antisymmetric and name the cheaper of two solutions exactly if their costs have a
difference; a solution is no better than itself exactly if its cost is finite. -/
theorem comparison_of_any_costs {a b : Solution Float τ ρ} {x y : Float}
    (ha : a.costValue = .ok x) (hb : b.costValue = .ok y) :
    ∃ k l : Int, a.compare b = .ok k ∧ b.compare a = .ok l ∧
      a.isBetterThan b = .ok (decide (k = 1)) ∧
      a.compare a = .ok (if IsFinite x then 0 else 1) ∧
      (k = 1 ∨ k = 0 ∨ k = -1) ∧
      (k = 0 ↔ -Quantity.tolerance ≤ x - y ∧ x - y ≤ Quantity.tolerance) ∧
      (HasDifference x y → k = -l ∧ (k = 1 → x < y) ∧ (k = -1 → y < x)) ∧
      (¬ HasDifference x y → k = 1 ∧ l = 1 ∧ ¬ x < y ∧ ¬ y < x) := by
  have hcases := compareCosts_cases x y
  refine ⟨_, _, compare_of_costs ha hb, compare_of_costs hb ha, ?_, ?_, hcases,
    compareCosts_eq_zero_iff x y, fun h => ?_, fun h => ?_⟩
  · have hone : 0 < compareCosts x y ↔ compareCosts x y = 1 := by omega
    rw [isBetterThan_of_costs ha hb, decide_eq_decide.mpr hone]
  · rw [compare_of_costs ha ha, compareCosts_self]
  · have hanti := compareCosts_antisymm h
    exact ⟨hanti, lt_of_compareCosts h, fun hk => lt_of_compareCosts h.symm (by omega)⟩
  · have hback : ¬ HasDifference y x := fun h' => h h'.symm
    exact ⟨compareCosts_of_no_difference h, compareCosts_of_no_difference hback,
      not_lt_of_no_difference h, not_lt_of_no_difference hback⟩

def idleSolution (capacity : Float) : Solution Float Int Int :=
  .of (.spare "MappingSolution" (fun _ => .ok 0) fun _ => .ok capacity) ⟨[(0, 0)]⟩

theorem comparison_of_any_costs_infinite :
    (idleSolution (1 / 0)).costValue = .ok (0 + (1 / 0 - 0)) ∧
    (idleSolution (1 / 0)).compare (idleSolution (1 / 0)) = .ok 1 ∧
    (idleSolution (1 / 0)).isBetterThan (idleSolution (1 / 0)) = .ok true ∧
    ¬ (0 + (1 / 0 - 0) : Float) < 0 + (1 / 0 - 0) := by
  have hcost : (idleSolution (1 / 0)).costValue = .ok (0 + (1 / 0 - 0)) := rfl
  have hnone : ¬ HasDifference (0 + (1 / 0 - 0)) (0 + (1 / 0 - 0)) := by decide +kernel
  obtain ⟨k, l, hk, -, hbetter, -, -, -, -, hboth⟩ := comparison_of_any_costs hcost hcost
  obtain ⟨rfl, -, hlt, -⟩ := hboth hnone
  exact ⟨hcost, hk, hbetter, hlt⟩

end Solution
end AssignmentSearch
