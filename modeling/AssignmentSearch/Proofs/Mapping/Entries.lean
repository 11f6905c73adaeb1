import AssignmentSearch.Mapping.Selection
import AssignmentSearch.Proofs.Attempts
import Mathlib.Data.List.Perm.Basic

/-!
# Entries of mappings

Binding keeps each task once, and exchanging two entries keeps the tasks and only rearranges the
resources.
-/

namespace AssignmentSearch
namespace Mapping

variable {τ ρ : Type}

theorem nodup_tasks_bind [BEq τ] [LawfulBEq τ] {m : Mapping τ ρ} (h : m.tasks.Nodup) (t : τ)
    (r : ρ) : (m.bind t r).tasks.Nodup := by
  rw [tasks_bind]
  split
  · exact h
  · rename_i ht
    exact (List.perm_append_singleton t _).nodup_iff.mpr (List.nodup_cons.mpr ⟨ht, h⟩)

theorem nodup_tasks_ofPairs [BEq τ] [LawfulBEq τ] (pairs : List (τ × ρ)) :
    (ofPairs pairs).tasks.Nodup := by
  have hbound : ∀ m : Mapping τ ρ, m.tasks.Nodup →
      (pairs.foldl (fun m p => m.bind p.1 p.2) m).tasks.Nodup := by
    induction pairs with
    | nil => exact fun m h => h
    | cons p rest ih => exact fun m h => ih (m.bind p.1 p.2) (nodup_tasks_bind h p.1 p.2)
  exact hbound empty List.nodup_nil

theorem mem_tasks_bind [BEq τ] [LawfulBEq τ] {m : Mapping τ ρ} {t u : τ} {r : ρ} :
    u ∈ (m.bind t r).tasks ↔ u ∈ m.tasks ∨ u = t := by
  rw [tasks_bind]
  split
  · rename_i ht
    refine ⟨Or.inl, ?_⟩
    rintro (hu | rfl)
    · exact hu
    · exact ht
  · rw [List.mem_append, List.mem_singleton]

theorem mem_resources_bind [BEq τ] {m : Mapping τ ρ} {t : τ} {r q : ρ}
    (h : q ∈ (m.bind t r).resources) : q ∈ m.resources ∨ q = r := by
  obtain ⟨entries⟩ := m
  simp only [bind, resources] at h ⊢
  induction entries with
  | nil =>
    rw [bindEntry, List.map_singleton, List.mem_singleton] at h
    exact Or.inr h
  | cons e rest ih =>
    obtain ⟨u, p⟩ := e
    rw [bindEntry] at h
    split at h
    · rcases List.mem_cons.mp h with rfl | h
      · exact Or.inr rfl
      · exact Or.inl (List.mem_cons_of_mem _ h)
    · rcases List.mem_cons.mp h with rfl | h
      · exact Or.inl List.mem_cons_self
      · exact (ih h).imp_left (List.mem_cons_of_mem _)

theorem swapAt_eq {m : Mapping τ ρ} {i j : Nat} (hi : i < m.entries.length)
    (hj : j < m.entries.length) :
    m.swapAt i j =
      ⟨(m.entries.set i (m.entries[i].1, m.entries[j].2)).set j
        (m.entries[j].1, m.entries[i].2)⟩ := by
  rw [swapAt, List.getElem?_eq_getElem hi, List.getElem?_eq_getElem hj]

theorem swapAt_of_not_lt {m : Mapping τ ρ} {i j : Nat}
    (h : ¬ (i < m.entries.length ∧ j < m.entries.length)) : m.swapAt i j = m := by
  rw [swapAt]
  split
  · rename_i hi hj
    exact absurd ⟨(List.getElem?_eq_some_iff.mp hi).1, (List.getElem?_eq_some_iff.mp hj).1⟩ h
  · rfl

theorem tasks_swapAt (m : Mapping τ ρ) (i j : Nat) : (m.swapAt i j).tasks = m.tasks := by
  by_cases h : i < m.entries.length ∧ j < m.entries.length
  · obtain ⟨hi, hj⟩ := h
    have hset : ∀ k (hk : k < m.entries.length),
        m.tasks.set k m.entries[k].1 = m.tasks := by
      intro k hk
      have hk' : k < m.tasks.length := by simpa [tasks] using hk
      have hget : m.entries[k].1 = m.tasks[k] := by simp [tasks]
      rw [hget]
      exact List.set_getElem_self _
    rw [swapAt_eq hi hj, tasks, List.map_set, List.map_set]
    change (m.tasks.set i m.entries[i].1).set j m.entries[j].1 = m.tasks
    rw [hset i hi, hset j hj]
  · rw [swapAt_of_not_lt h]

theorem perm_resources_swapAt (m : Mapping τ ρ) (i j : Nat) :
    (m.swapAt i j).resources.Perm m.resources := by
  by_cases h : i < m.entries.length ∧ j < m.entries.length
  · obtain ⟨hi, hj⟩ := h
    have hi' : i < m.resources.length := by simpa [resources] using hi
    have hj' : j < m.resources.length := by simpa [resources] using hj
    have hset := List.set_set_perm hi' hj'
    rw [swapAt_eq hi hj, resources, List.map_set, List.map_set]
    simpa [resources] using hset
  · rw [swapAt_of_not_lt h]

theorem exists_swapAt_of_swapDrawn {σ ι : Type} [Draw ι] {index : Int → Attempt σ ι}
    {m n : Mapping τ ρ} {s t : σ} (h : (m.swapDrawn index).start s = (.ok (some n), t)) :
    ∃ i j, n = m.swapAt i j := by
  obtain ⟨positions, u, -, hn⟩ := Attempt.exists_of_start_bind h
  split at hn
  · rename_i i j
    rw [Attempt.start_pure] at hn
    cases hn
    exact ⟨i, j, rfl⟩
  · rw [Attempt.start_pure] at hn
    cases hn

end Mapping
end AssignmentSearch
