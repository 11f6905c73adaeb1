import AssignmentSearch.Solution.Basic
import Mathlib.Data.Real.Basic
import Mathlib.Tactic.Linarith

/-!
# Laws of quantities

A finite quantity has a value, and a difference is compared as if the exact one had been rounded by
a monotone function. Doubles obey these laws, and so do exact numbers, which are never rounded.
-/

namespace AssignmentSearch

/-- What the comparison of costs relies on. -/
class LawfulQuantity (α : Type) [Quantity α] where
  IsFinite : α → Prop
  value : α → ℝ
  round : ℝ → ℝ
  round_mono : Monotone round
  round_value : ∀ {x : α}, IsFinite x → round (value x) = value x
  le_iff : ∀ {x y : α}, IsFinite x → IsFinite y → (x ≤ y ↔ value x ≤ value y)
  le_of_lt : ∀ {x y : α}, x < y → x ≤ y
  le_sub_iff : ∀ {t x y : α}, IsFinite t → IsFinite x → IsFinite y →
    (t ≤ x - y ↔ value t ≤ round (value x - value y))
  sub_le_iff : ∀ {t x y : α}, IsFinite t → IsFinite x → IsFinite y →
    (x - y ≤ t ↔ round (value x - value y) ≤ value t)
  lt_sub_iff : ∀ {t x y : α}, IsFinite t → IsFinite x → IsFinite y →
    (t < x - y ↔ value t < round (value x - value y))
  isFinite_zero : IsFinite Quantity.zero
  value_zero : value Quantity.zero = 0
  isFinite_one : IsFinite Quantity.one
  value_one : value Quantity.one = 1
  isFinite_tolerance : IsFinite Quantity.tolerance
  tolerance_pos : 0 < value Quantity.tolerance
  isFinite_neg : ∀ {x : α}, IsFinite x → IsFinite (-x)
  value_neg : ∀ {x : α}, IsFinite x → value (-x) = -value x
  intLe_zero_one : Quantity.intLe 0 (Quantity.one : α) = true
  isSome_ofInt?_zero : (Quantity.ofInt? 0 : Option α).isSome
  zero_le_fraction : ∀ {k : Nat}, k < 2 ^ 53 → (Quantity.zero : α) ≤ Quantity.fraction k
  fraction_lt_one : ∀ {k : Nat}, k < 2 ^ 53 → (Quantity.fraction k : α) < Quantity.one

namespace LawfulQuantity

variable {α : Type} [Quantity α] [LawfulQuantity α]

/-- The difference of two values as it is compared. -/
def gap (α : Type) [Quantity α] [LawfulQuantity α] (x y : ℝ) : ℝ := round α (x - y)

def IsExact (α : Type) [Quantity α] [LawfulQuantity α] : Prop := ∀ x : ℝ, round α x = x

def slack (α : Type) [Quantity α] [LawfulQuantity α] : ℝ := value (Quantity.tolerance : α)

theorem gap_mono {x y z w : ℝ} (hxz : x ≤ z) (hwy : w ≤ y) : gap α x y ≤ gap α z w :=
  round_mono (by linarith)

theorem round_zero : round α 0 = 0 := by
  rw [← value_zero (α := α)]
  exact round_value isFinite_zero

theorem round_one : round α 1 = 1 := by
  rw [← value_one (α := α)]
  exact round_value isFinite_one

theorem gap_self (x : ℝ) : gap α x x = 0 := by
  rw [gap, sub_self, round_zero]

theorem gap_nonpos {x y : ℝ} (h : x ≤ y) : gap α x y ≤ 0 := by
  rw [← gap_self (α := α) y]
  exact gap_mono h le_rfl

theorem slack_pos : 0 < slack α := tolerance_pos

/-- Better by comparison means lower by more than the tolerance, as differences are compared. -/
theorem compareCosts_pos_iff {a b : α} (ha : IsFinite a) (hb : IsFinite b) :
    0 < Solution.compareCosts a b ↔ gap α (value a) (value b) < -slack α := by
  have ht := isFinite_tolerance (α := α)
  have hpos := slack_pos (α := α)
  have hgap : round α (value a - value b) = gap α (value a) (value b) := rfl
  have hslack : value (Quantity.tolerance : α) = slack α := rfl
  simp only [Solution.compareCosts, le_sub_iff (isFinite_neg ht) ha hb, value_neg ht,
    sub_le_iff ht ha hb, lt_sub_iff isFinite_zero ha hb, value_zero, hgap, hslack]
  generalize gap α (value a) (value b) = g
  by_cases hlow : -slack α ≤ g
  · have hnot : ¬ g < -slack α := not_lt.mpr hlow
    by_cases hhigh : g ≤ slack α
    · simp [hlow, hhigh]
    · have h0 : 0 < g := by linarith
      simp [hlow, hhigh, h0]
  · have h0 : ¬ 0 < g := by linarith
    simp [hlow, h0, not_le.mp hlow]

theorem add_slack_lt {x y : ℝ} (h : gap α x y < -slack α) : x + slack α < y := by
  have ht := isFinite_tolerance (α := α)
  by_contra hnot
  have hle : value (-Quantity.tolerance : α) ≤ x - y := by
    rw [value_neg ht]
    have hslack : value (Quantity.tolerance : α) = slack α := rfl
    linarith
  have hround := round_mono (α := α) hle
  rw [round_value (isFinite_neg ht), value_neg ht] at hround
  exact absurd h (not_lt.mpr hround)

theorem IsExact.gap_eq (hexact : IsExact α) (x y : ℝ) : gap α x y = x - y := hexact _

end LawfulQuantity

end AssignmentSearch
