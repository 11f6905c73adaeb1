import AssignmentSearch.Proofs.Attempts
import AssignmentSearch.Solution.Basic

/-!
# Costs of solutions

Computing a cost stores it and changes neither the cost nor the mapping. Comparisons depend on the
two costs alone.
-/

namespace AssignmentSearch
namespace Solution

variable {α τ ρ : Type}

theorem start_cost (s : Solution α τ ρ) :
    cost.start s =
      if s.cache.valid then (.ok s.cache.value, s)
      else match s.model.total s.mapping with
        | .ok c => (.ok c, { s with cache := .store c })
        | .error e => (.error e, s) := rfl

theorem costValue_eq (s : Solution α τ ρ) :
    s.costValue = if s.cache.valid then .ok s.cache.value else s.model.total s.mapping := by
  rw [costValue, start_cost]
  split
  · rfl
  · cases s.model.total s.mapping <;> rfl

theorem mapping_evaluated (s : Solution α τ ρ) : s.evaluated.mapping = s.mapping := by
  rw [evaluated, start_cost]
  split
  · rfl
  · cases s.model.total s.mapping <;> rfl

theorem model_evaluated (s : Solution α τ ρ) : s.evaluated.model = s.model := by
  rw [evaluated, start_cost]
  split
  · rfl
  · cases s.model.total s.mapping <;> rfl

theorem evaluated_of_error {s : Solution α τ ρ} {e : Fault} (h : s.costValue = .error e) :
    s.evaluated = s := by
  rw [costValue_eq] at h
  rw [evaluated, start_cost]
  split at h
  · cases h
  · rename_i hv
    rw [if_neg hv, h]

theorem costValue_evaluated (s : Solution α τ ρ) : s.evaluated.costValue = s.costValue := by
  rw [costValue_eq s, evaluated, start_cost]
  by_cases hv : s.cache.valid = true
  · rw [if_pos hv, if_pos hv, costValue_eq, if_pos hv]
  · rw [if_neg hv, if_neg hv]
    cases ht : s.model.total s.mapping with
    | error e => simp only [costValue_eq, if_neg hv, ht]
    | ok c => simp [costValue_eq, CostCache.store]

theorem evaluated_evaluated (s : Solution α τ ρ) : s.evaluated.evaluated = s.evaluated := by
  by_cases hv : s.cache.valid = true
  · have hsame : s.evaluated = s := by rw [evaluated, start_cost, if_pos hv]
    rw [hsame, hsame]
  · cases ht : s.model.total s.mapping with
    | error e =>
      have hfault : s.costValue = .error e := by rw [costValue_eq, if_neg hv, ht]
      rw [evaluated_of_error hfault, evaluated_of_error hfault]
    | ok c =>
      have hstored : s.evaluated = { s with cache := .store c } := by
        rw [evaluated, start_cost, if_neg hv, ht]
      rw [hstored, evaluated, start_cost]
      rfl

variable [Quantity α]

theorem isBetterThan_of_costs {a b : Solution α τ ρ} {x y : α} (ha : a.costValue = .ok x)
    (hb : b.costValue = .ok y) : a.isBetterThan b = .ok (decide (0 < compareCosts x y)) := by
  simp only [isBetterThan, compare, ha, hb]
  rfl

end Solution
end AssignmentSearch
