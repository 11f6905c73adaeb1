import AssignmentSearch.Proofs.Quantity.Lawful
import AssignmentSearch.Proofs.Solution.Costs

/-!
# Levels

The level of a solution is the value of its cost. If costs are finite, levels decide which of two
solutions is better.
-/

namespace AssignmentSearch
namespace Solution

variable {α τ ρ : Type} [Quantity α] [LawfulQuantity α]

open LawfulQuantity

def HasFiniteCost (s : Solution α τ ρ) : Prop := ∃ c, s.costValue = .ok c ∧ IsFinite c

/-- The value of the cost; zero if there is none. -/
def level (s : Solution α τ ρ) : ℝ :=
  match s.costValue with
  | .ok c => value c
  | .error _ => 0

theorem level_of_cost {s : Solution α τ ρ} {c : α} (h : s.costValue = .ok c) : s.level = value c := by
  rw [level, h]

theorem value_of_cost {s : Solution α τ ρ} {c : α} (hs : s.HasFiniteCost)
    (hc : s.costValue = .ok c) : IsFinite c ∧ s.level = value c := by
  obtain ⟨d, hd, hfinite⟩ := hs
  rw [hc] at hd
  cases hd
  exact ⟨hfinite, level_of_cost hc⟩

theorem isBetterThan_iff {a b : Solution α τ ρ} (ha : a.HasFiniteCost) (hb : b.HasFiniteCost) :
    a.isBetterThan b = .ok true ↔ gap α a.level b.level < -slack α := by
  obtain ⟨c, hc, hcfinite⟩ := ha
  obtain ⟨d, hd, hdfinite⟩ := hb
  rw [isBetterThan_of_costs hc hd, level_of_cost hc, level_of_cost hd,
    ← compareCosts_pos_iff hcfinite hdfinite, Except.ok.injEq, decide_eq_true_iff]

theorem isNotBetterThan_iff {a b : Solution α τ ρ} (ha : a.HasFiniteCost) (hb : b.HasFiniteCost) :
    a.isBetterThan b = .ok false ↔ -slack α ≤ gap α a.level b.level := by
  obtain ⟨c, hc, hcfinite⟩ := ha
  obtain ⟨d, hd, hdfinite⟩ := hb
  rw [isBetterThan_of_costs hc hd, level_of_cost hc, level_of_cost hd, Except.ok.injEq,
    decide_eq_false_iff_not, compareCosts_pos_iff hcfinite hdfinite, not_lt]

theorem isBetterThan_or {a b : Solution α τ ρ} (ha : a.HasFiniteCost) (hb : b.HasFiniteCost) :
    a.isBetterThan b = .ok true ∨ a.isBetterThan b = .ok false := by
  rw [isBetterThan_iff ha hb, isNotBetterThan_iff ha hb]
  exact lt_or_ge _ _

theorem isNotBetterThan_of_cost_eq {a b : Solution α τ ρ} (hb : b.HasFiniteCost)
    (h : a.costValue = b.costValue) : a.isBetterThan b = .ok false := by
  have ha : a.HasFiniteCost := by
    rw [HasFiniteCost, h]
    exact hb
  have hlevel : a.level = b.level := by rw [level, level, h]
  rw [isNotBetterThan_iff ha hb, hlevel, gap_self]
  exact (neg_neg_of_pos slack_pos).le

theorem level_add_slack_lt {a b : Solution α τ ρ} (ha : a.HasFiniteCost) (hb : b.HasFiniteCost)
    (h : a.isBetterThan b = .ok true) : a.level + slack α < b.level :=
  add_slack_lt ((isBetterThan_iff ha hb).mp h)

theorem level_le_add_slack (hexact : IsExact α) {a b : Solution α τ ρ} (ha : a.HasFiniteCost)
    (hb : b.HasFiniteCost) (h : a.isBetterThan b = .ok false) : b.level ≤ a.level + slack α := by
  rw [isNotBetterThan_iff ha hb, hexact.gap_eq] at h
  linarith

end Solution
end AssignmentSearch
