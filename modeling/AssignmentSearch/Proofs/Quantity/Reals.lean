import AssignmentSearch.Proofs.Quantity.Lawful
import Mathlib.Algebra.Order.Archimedean.Real.Basic
import Mathlib.Analysis.Complex.Exponential

/-!
# Exact arithmetic

Real numbers as quantities. Nothing is rounded, and every number is finite.
-/

namespace AssignmentSearch

noncomputable instance instQuantityReal : Quantity ℝ where
  decLe := fun x y => Classical.propDecidable (x ≤ y)
  decLt := fun x y => Classical.propDecidable (x < y)
  zero := 0
  one := 1
  exp := Real.exp
  square? := fun x => some (x ^ 2)
  tolerance := 1 / 10000
  ofInt? := fun n => some n
  intLe := fun n x => decide (n ≤ ⌊x⌋)
  floor := fun x => .ok ⌊x⌋
  fraction := fun k => k / 2 ^ 53

/-- Reports leave out the fractions of real numbers. -/
noncomputable instance instPrintedReal : Printed ℝ where
  datum := fun x => .int ⌊x⌋
  general := fun _ x => toString ⌊x⌋

noncomputable instance instLawfulQuantityReal : LawfulQuantity ℝ where
  IsFinite := fun _ => True
  value := id
  round := id
  round_mono := monotone_id
  round_value := fun _ => rfl
  le_iff := fun _ _ => Iff.rfl
  le_of_lt := fun h => LT.lt.le h
  le_sub_iff := fun _ _ _ => Iff.rfl
  sub_le_iff := fun _ _ _ => Iff.rfl
  lt_sub_iff := fun _ _ _ => Iff.rfl
  isFinite_zero := trivial
  value_zero := rfl
  isFinite_one := trivial
  value_one := rfl
  isFinite_tolerance := trivial
  tolerance_pos := by
    change (0 : ℝ) < 1 / 10000
    norm_num
  isFinite_neg := fun _ => trivial
  value_neg := fun _ => rfl
  intLe_zero_one := by
    change decide ((0 : ℤ) ≤ ⌊(1 : ℝ)⌋) = true
    simp
  isSome_ofInt?_zero := rfl
  zero_le_fraction := by
    intro k _
    change (0 : ℝ) ≤ k / 2 ^ 53
    positivity
  fraction_lt_one := by
    intro k hk
    change (k : ℝ) / 2 ^ 53 < 1
    rw [div_lt_one (by positivity)]
    exact_mod_cast hk

theorem isExact_real : LawfulQuantity.IsExact ℝ := fun _ => rfl

end AssignmentSearch
