import AssignmentSearch.Proofs.Mapping.Pairs

/-!
# Transpositions

An exchange at two positions keeps the tasks and every other entry, so it changes two entries, or
none if one resource stands at both positions.
-/

namespace AssignmentSearch
namespace Mapping

variable {τ ρ : Type}

/-- The second mapping is the first one with the resources at two positions exchanged. -/
structure Transposed (i j : Nat) (m n : Mapping τ ρ) : Prop where
  tasks : n.tasks = m.tasks
  first : n.resources[i]? = m.resources[j]?
  second : n.resources[j]? = m.resources[i]?
  others : ∀ k, k ≠ i → k ≠ j → n.entries[k]? = m.entries[k]?

theorem transposed_swapAt {m : Mapping τ ρ} {i j : Nat} (hne : i ≠ j) (hi : i < m.size)
    (hj : j < m.size) : Transposed i j m (m.swapAt i j) where
  tasks := m.tasks_swapAt i j
  first := by
    have hi' : i < m.entries.length := hi
    have hj' : j < m.entries.length := hj
    rw [swapAt_eq hi hj]
    simp [resources, hne.symm, hi', hj']
    rfl
  second := by
    have hi' : i < m.entries.length := hi
    have hj' : j < m.entries.length := hj
    rw [swapAt_eq hi hj]
    simp [resources, hi', hj']
    rfl
  others := by
    intro k hki hkj
    rw [swapAt_eq hi hj]
    simp [hki.symm, hkj.symm]

def differences (m n : Mapping τ ρ) : Set Nat := {k | m.entries[k]? ≠ n.entries[k]?}

theorem getElem?_entries_eq {m n : Mapping τ ρ} {k : Nat} (htasks : m.tasks[k]? = n.tasks[k]?)
    (hresources : m.resources[k]? = n.resources[k]?) : m.entries[k]? = n.entries[k]? := by
  simp only [tasks, resources, List.getElem?_map] at htasks hresources
  cases hm : m.entries[k]? <;> cases hn : n.entries[k]? <;>
    simp_all [Prod.ext_iff]

namespace Transposed

variable {m n : Mapping τ ρ} {i j : Nat}

theorem symm (h : Transposed i j m n) : Transposed j i m n :=
  ⟨h.tasks, h.second, h.first, fun k hkj hki => h.others k hki hkj⟩

theorem resources_eq_of_entries_eq {k : Nat} (h : m.entries[k]? = n.entries[k]?) :
    m.resources[k]? = n.resources[k]? := by
  simp [resources, List.getElem?_map, h]

theorem differences_cases (h : Transposed i j m n) :
    m.differences n = ∅ ∨ m.differences n = {i, j} := by
  have hbetween : ∀ k ∈ m.differences n, k = i ∨ k = j := by
    intro k hk
    by_contra hnot
    rw [not_or] at hnot
    exact hk (h.others k hnot.1 hnot.2).symm
  by_cases hsame : m.resources[i]? = m.resources[j]?
  · left
    refine Set.eq_empty_of_forall_notMem fun k hk => hk ?_
    rcases hbetween k hk with rfl | rfl
    · exact getElem?_entries_eq (by rw [h.tasks]) (hsame.trans h.first.symm)
    · exact getElem?_entries_eq (by rw [h.tasks]) (hsame.symm.trans h.second.symm)
  · right
    refine Set.Subset.antisymm hbetween ?_
    rintro k (rfl | rfl) heq
    · exact hsame ((resources_eq_of_entries_eq heq).trans h.first)
    · exact hsame ((resources_eq_of_entries_eq heq).trans h.second).symm

end Transposed

def Near (m n : Mapping τ ρ) : Prop :=
  m.differences n = ∅ ∨ ∃ i j, i ≠ j ∧ m.differences n = {i, j}

theorem near_refl (m : Mapping τ ρ) : m.Near m := by
  left
  simp [differences]

theorem near_swapAt (m : Mapping τ ρ) (i j : Nat) : m.Near (m.swapAt i j) := by
  by_cases hrange : i < m.entries.length ∧ j < m.entries.length
  · obtain ⟨hi, hj⟩ := hrange
    by_cases hne : i = j
    · subst hne
      have hsame : m.swapAt i i = m := by
        rw [swapAt_eq hi hi]
        simp
      rw [hsame]
      exact near_refl m
    · rcases (transposed_swapAt hne hi hj).differences_cases with h | h
      · exact .inl h
      · exact .inr ⟨i, j, hne, h⟩
  · rw [swapAt_of_not_lt hrange]
    exact near_refl m

end Mapping
end AssignmentSearch
