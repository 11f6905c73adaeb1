import AssignmentSearch.Mapping.Basic
import Mathlib.Data.List.Perm.Basic

/-!
# Groups of mappings

Every resource in use has one group, and every entry puts its task into one.
-/

namespace AssignmentSearch
namespace Mapping

variable {τ ρ : Type}

/-- Groups that the tasks of some entries are divided into. -/
structure Divides (entries : List (τ × ρ)) (groups : List (ρ × List τ)) : Prop where
  nodup : (groups.map (·.1)).Nodup
  keys : ∀ r, r ∈ groups.map (·.1) ↔ r ∈ entries.map (·.2)
  tasks : (groups.flatMap (·.2)).Perm (entries.map (·.1))

variable [BEq ρ]

theorem perm_addToGroup (t : τ) (r : ρ) (groups : List (ρ × List τ)) :
    ((addToGroup t r groups).flatMap (·.2)).Perm (groups.flatMap (·.2) ++ [t]) := by
  induction groups with
  | nil => exact .refl _
  | cons g rest ih =>
    obtain ⟨q, ts⟩ := g
    rw [addToGroup]
    split
    · simp only [List.flatMap_cons, List.append_assoc]
      exact List.perm_append_comm.append_left ts
    · simp only [List.flatMap_cons, List.append_assoc]
      exact ih.append_left ts

variable [LawfulBEq ρ]

theorem keys_addToGroup (t : τ) (r : ρ) (groups : List (ρ × List τ)) :
    (addToGroup t r groups).map (·.1) =
      if r ∈ groups.map (·.1) then groups.map (·.1) else groups.map (·.1) ++ [r] := by
  induction groups with
  | nil => rfl
  | cons g rest ih =>
    obtain ⟨q, ts⟩ := g
    by_cases hq : q = r
    · subst hq
      simp [addToGroup]
    · have hr : r ≠ q := fun h => hq h.symm
      rw [addToGroup, if_neg (by simpa using hq), List.map_cons, ih]
      by_cases hmem : r ∈ rest.map (·.1)
      · rw [if_pos hmem, List.map_cons, if_pos (List.mem_cons_of_mem _ hmem)]
      · rw [if_neg hmem, List.map_cons, if_neg, List.cons_append]
        rw [List.mem_cons, not_or]
        exact ⟨hr, hmem⟩

theorem Divides.add {entries : List (τ × ρ)} {groups : List (ρ × List τ)}
    (h : Divides entries groups) (t : τ) (r : ρ) :
    Divides (entries ++ [(t, r)]) (addToGroup t r groups) where
  nodup := by
    rw [keys_addToGroup]
    split
    · exact h.nodup
    · rename_i hr
      exact (List.perm_append_singleton r _).nodup_iff.mpr (List.nodup_cons.mpr ⟨hr, h.nodup⟩)
  keys := by
    intro q
    rw [keys_addToGroup, List.map_append, List.mem_append, ← h.keys]
    split
    · rename_i hr
      refine ⟨Or.inl, ?_⟩
      rintro (hq | hq)
      · exact hq
      · cases List.mem_singleton.mp hq
        exact hr
    · exact List.mem_append
  tasks := by
    rw [List.map_append]
    exact (perm_addToGroup t r groups).trans (h.tasks.append_right [t])

theorem Divides.foldl {entries : List (τ × ρ)} {groups : List (ρ × List τ)}
    (h : Divides entries groups) (more : List (τ × ρ)) :
    Divides (entries ++ more) (more.foldl (fun gs e => addToGroup e.1 e.2 gs) groups) := by
  induction more generalizing entries groups with
  | nil =>
    rw [List.append_nil]
    exact h
  | cons e rest ih =>
    rw [List.foldl_cons, ← List.singleton_append, ← List.append_assoc]
    exact ih (h.add e.1 e.2)

theorem divides_groups (m : Mapping τ ρ) : Divides m.entries m.groups := by
  have hnil : Divides ([] : List (τ × ρ)) [] := ⟨List.nodup_nil, fun _ => Iff.rfl, .refl _⟩
  exact hnil.foldl m.entries

end Mapping
end AssignmentSearch
