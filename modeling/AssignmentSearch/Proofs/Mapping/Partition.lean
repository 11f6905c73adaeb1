import AssignmentSearch.Proofs.Mapping.Groups
import Mathlib.Data.List.Induction
import Mathlib.Data.List.Nodup
import Mathlib.Data.List.Pairwise

/-!
# The groups of a mapping are a partition

Grouping goes through the entries once. What comes of it is said without going through them: each
resource in use, in the order of first use, with the tasks of all entries that use it. Of equality
nothing is asked but that it is an equivalence among the resources at hand.
-/

namespace AssignmentSearch

/-- Being equal is an equivalence among some values. -/
structure EquivAmong {ρ : Type} [BEq ρ] (rs : List ρ) : Prop where
  refl : ∀ {r}, r ∈ rs → r == r
  symm : ∀ {r q}, r ∈ rs → q ∈ rs → r == q → q == r
  trans : ∀ {r q p}, r ∈ rs → q ∈ rs → p ∈ rs → r == q → q == p → r == p

theorem EquivAmong.mono {ρ : Type} [BEq ρ] {rs qs : List ρ} (h : EquivAmong rs) (hsub : qs ⊆ rs) :
    EquivAmong qs where
  refl hr := h.refl (hsub hr)
  symm hr hq := h.symm (hsub hr) (hsub hq)
  trans hr hq hp := h.trans (hsub hr) (hsub hq) (hsub hp)

theorem equivAmong_of_lawful {ρ : Type} [BEq ρ] [LawfulBEq ρ] (rs : List ρ) : EquivAmong rs where
  refl _ := BEq.rfl
  symm _ _ := BEq.symm
  trans _ _ _ := BEq.trans

section FirstOccurrences

variable {ρ : Type} [BEq ρ]

theorem eraseDups_concat (rs : List ρ) (r : ρ) :
    (rs ++ [r]).eraseDups =
      if rs.eraseDups.any (r == ·) then rs.eraseDups else rs.eraseDups ++ [r] := by
  have hloop : ∀ seen : List ρ, List.eraseDupsBy.loop (· == ·) (rs ++ [r]) seen =
      if (List.eraseDupsBy.loop (· == ·) rs seen).any (r == ·) then
        List.eraseDupsBy.loop (· == ·) rs seen
      else List.eraseDupsBy.loop (· == ·) rs seen ++ [r] := by
    induction rs with
    | nil =>
      intro seen
      simp only [List.nil_append, List.eraseDupsBy.loop, List.any_reverse]
      cases seen.any (r == ·) <;> simp
    | cons q rest ih =>
      intro seen
      simp only [List.cons_append, List.eraseDupsBy.loop]
      rcases Bool.eq_false_or_eq_true (seen.any (q == ·)) with hseen | hseen <;> simp only [hseen]
      · exact ih seen
      · exact ih (q :: seen)
  exact hloop []

theorem eraseDups_subset (rs : List ρ) : rs.eraseDups ⊆ rs := by
  induction rs using List.reverseRecOn with
  | nil => exact List.Subset.refl _
  | append_singleton rs r ih =>
    rw [eraseDups_concat]
    split
    · exact List.subset_append_of_subset_left _ ih
    · exact List.append_subset.mpr ⟨List.subset_append_of_subset_left _ ih,
        List.subset_append_right _ _⟩

theorem pairwise_eraseDups (rs : List ρ) : rs.eraseDups.Pairwise fun q r => ¬ r == q := by
  induction rs using List.reverseRecOn with
  | nil => exact List.Pairwise.nil
  | append_singleton rs r ih =>
    rw [eraseDups_concat]
    split
    · exact ih
    · rename_i hnew
      rw [Bool.not_eq_true, List.any_eq_false] at hnew
      refine List.pairwise_append.mpr ⟨ih, List.pairwise_singleton _ _, fun q hq r' hr' => ?_⟩
      rw [List.mem_singleton.mp hr']
      exact hnew q hq

theorem EquivAmong.exists_eraseDups {rs : List ρ} (h : EquivAmong rs) {r : ρ} (hr : r ∈ rs) :
    ∃ q ∈ rs.eraseDups, r == q := by
  induction rs using List.reverseRecOn with
  | nil => cases hr
  | append_singleton rs p ih =>
    have hrest : EquivAmong rs := h.mono (List.subset_append_left _ _)
    rw [eraseDups_concat]
    rcases List.mem_append.mp hr with hr | hr
    · obtain ⟨q, hq, heq⟩ := ih hrest hr
      split
      · exact ⟨q, hq, heq⟩
      · exact ⟨q, List.mem_append_left _ hq, heq⟩
    · cases List.mem_singleton.mp hr
      split
      · rename_i hseen
        exact List.any_eq_true.mp hseen
      · exact ⟨r, List.mem_append_right _ (List.mem_singleton_self r),
          h.refl (List.mem_append_right _ (List.mem_singleton_self r))⟩

theorem EquivAmong.eq_of_eraseDups {rs : List ρ} (h : EquivAmong rs) {q r : ρ}
    (hq : q ∈ rs.eraseDups) (hr : r ∈ rs.eraseDups) (heq : q == r) : q = r := by
  have hapart : rs.eraseDups.Pairwise fun q r => ¬ (q == r ∨ r == q) := by
    refine (pairwise_eraseDups rs).imp_of_mem fun ha hb hne hor => hne ?_
    exact hor.elim (h.symm (eraseDups_subset rs ha) (eraseDups_subset rs hb)) id
  have hsymm : Std.Symm fun q r : ρ => ¬ (q == r ∨ r == q) := ⟨fun _ _ hne hor => hne hor.symm⟩
  by_contra hne
  exact hapart.forall hq hr hne (Or.inl heq)

end FirstOccurrences

namespace Mapping

variable {τ ρ : Type} [BEq ρ]

/-- The resources in use, each one where it is used first. -/
def used (m : Mapping τ ρ) : List ρ := m.resources.eraseDups

def tasksOf (m : Mapping τ ρ) (r : ρ) : List τ := (m.entries.filter fun e => e.2 == r).map (·.1)

theorem used_subset (m : Mapping τ ρ) : m.used ⊆ m.resources := eraseDups_subset m.resources

theorem exists_used {m : Mapping τ ρ} (h : EquivAmong m.resources) {r : ρ}
    (hr : r ∈ m.resources) : ∃ q ∈ m.used, r == q :=
  h.exists_eraseDups hr

theorem mem_tasksOf {m : Mapping τ ρ} {t : τ} {r : ρ} :
    t ∈ m.tasksOf r ↔ ∃ q, (t, q) ∈ m.entries ∧ q == r := by
  simp [tasksOf]

omit [BEq ρ] in
theorem mem_resources {m : Mapping τ ρ} {t : τ} {r : ρ} (h : (t, r) ∈ m.entries) :
    r ∈ m.resources :=
  List.mem_map_of_mem (f := (·.2)) h

theorem addToGroup_of_new {t : τ} {r : ρ} {groups : List (ρ × List τ)}
    (h : ∀ g ∈ groups, ¬ g.1 == r) : addToGroup t r groups = groups ++ [(r, [t])] := by
  induction groups with
  | nil => rfl
  | cons g rest ih =>
    rw [addToGroup, if_neg (h g List.mem_cons_self), ih fun g' hg' => h g' (List.mem_cons_of_mem _ hg')]
    rfl

theorem addToGroup_of_mem {t : τ} {r : ρ} {groups : List (ρ × List τ)}
    (hmem : ∃ g ∈ groups, g.1 == r) (hone : groups.Pairwise fun g h => ¬ (g.1 == r ∧ h.1 == r)) :
    addToGroup t r groups = groups.map fun g => (g.1, g.2 ++ if g.1 == r then [t] else []) := by
  induction groups with
  | nil =>
    obtain ⟨g, hg, -⟩ := hmem
    cases hg
  | cons g rest ih =>
    obtain ⟨hhead, hrest⟩ := List.pairwise_cons.mp hone
    rw [addToGroup, List.map_cons]
    by_cases hg : g.1 == r
    · have hsame : rest.map (fun g => (g.1, g.2 ++ if g.1 == r then [t] else [])) = rest := by
        refine (List.map_congr_left fun h hh => ?_).trans (List.map_id rest)
        rw [if_neg fun hr => hhead h hh ⟨hg, hr⟩, List.append_nil]
        rfl
      rw [if_pos hg, if_pos hg, hsame]
    · have hmem' : ∃ h ∈ rest, h.1 == r := by
        obtain ⟨h, hh, hr⟩ := hmem
        rcases List.mem_cons.mp hh with rfl | hh
        · exact absurd hr hg
        · exact ⟨h, hh, hr⟩
      rw [if_neg hg, if_neg hg, ih hmem' hrest, List.append_nil]

theorem groups_concat (l : List (τ × ρ)) (t : τ) (r : ρ) :
    (⟨l ++ [(t, r)]⟩ : Mapping τ ρ).groups = addToGroup t r (⟨l⟩ : Mapping τ ρ).groups := by
  rw [groups, groups, List.foldl_append]
  rfl

theorem tasksOf_concat (l : List (τ × ρ)) (t : τ) (r q : ρ) :
    (⟨l ++ [(t, r)]⟩ : Mapping τ ρ).tasksOf q =
      (⟨l⟩ : Mapping τ ρ).tasksOf q ++ if r == q then [t] else [] := by
  rw [tasksOf, tasksOf, List.filter_append, List.map_append]
  by_cases h : r == q <;> simp [h]

theorem used_concat (l : List (τ × ρ)) (t : τ) (r : ρ) :
    (⟨l ++ [(t, r)]⟩ : Mapping τ ρ).used =
      if (⟨l⟩ : Mapping τ ρ).used.any (r == ·) then (⟨l⟩ : Mapping τ ρ).used
      else (⟨l⟩ : Mapping τ ρ).used ++ [r] := by
  rw [used, used, resources, resources, List.map_append]
  exact eraseDups_concat _ r

/-- The groups of a mapping: each resource in use, in the order of first use, with its tasks. -/
theorem groups_eq {m : Mapping τ ρ} (h : EquivAmong m.resources) :
    m.groups = m.used.map fun r => (r, m.tasksOf r) := by
  obtain ⟨entries⟩ := m
  induction entries using List.reverseRecOn with
  | nil => rfl
  | append_singleton l e ih =>
    obtain ⟨t, r⟩ := e
    have hsub : (⟨l⟩ : Mapping τ ρ).resources ⊆ (⟨l ++ [(t, r)]⟩ : Mapping τ ρ).resources := by
      rw [resources, resources, List.map_append]
      exact List.subset_append_left _ _
    have hr : r ∈ (⟨l ++ [(t, r)]⟩ : Mapping τ ρ).resources := mem_resources (t := t) (by simp)
    have hold : ∀ {q}, q ∈ (⟨l⟩ : Mapping τ ρ).used →
        q ∈ (⟨l ++ [(t, r)]⟩ : Mapping τ ρ).resources :=
      fun hq => hsub (used_subset _ hq)
    have hflip : ∀ {q}, q ∈ (⟨l⟩ : Mapping τ ρ).used → (q == r) = (r == q) := fun hq =>
      Bool.eq_iff_iff.mpr ⟨h.symm (hold hq) hr, h.symm hr (hold hq)⟩
    rw [groups_concat, ih (h.mono hsub), used_concat]
    split
    · -- The resource has a group, and no other one's resource is equal to it.
      rename_i hseen
      obtain ⟨q, hq, hrq⟩ := List.any_eq_true.mp hseen
      rw [addToGroup_of_mem, List.map_map]
      · refine List.map_congr_left fun p hp => ?_
        rw [tasksOf_concat, Function.comp_apply, hflip hp]
      · exact ⟨_, List.mem_map_of_mem hq, (hflip hq).trans hrq⟩
      · refine List.pairwise_map.mpr ((pairwise_eraseDups _).imp_of_mem fun ha hb hne => ?_)
        rintro ⟨har, hbr⟩
        exact hne (h.trans (hold hb) hr (hold ha) hbr (h.symm (hold ha) hr har))
    · rename_i hnew
      rw [Bool.not_eq_true, List.any_eq_false] at hnew
      have hnone : (⟨l⟩ : Mapping τ ρ).tasksOf r = [] := by
        rw [List.eq_nil_iff_forall_not_mem]
        intro u hu
        obtain ⟨p, hp, hpr⟩ := mem_tasksOf.mp hu
        obtain ⟨q, hq, hpq⟩ := exists_used (h.mono hsub) (mem_resources hp)
        have hp' := hsub (mem_resources hp)
        exact hnew q hq (h.trans hr hp' (hold hq) (h.symm hp' hr hpr) hpq)
      rw [addToGroup_of_new, List.map_append, List.map_singleton, tasksOf_concat, hnone,
        if_pos (h.refl hr)]
      · congr 1
        refine List.map_congr_left fun p hp => ?_
        rw [tasksOf_concat, if_neg (hnew p hp), List.append_nil]
      · intro g hg
        obtain ⟨q, hq, rfl⟩ := List.mem_map.mp hg
        rw [hflip hq]
        exact hnew q hq

theorem perm_tasks_groups (m : Mapping τ ρ) : (m.groups.flatMap (·.2)).Perm m.tasks := by
  obtain ⟨entries⟩ := m
  induction entries using List.reverseRecOn with
  | nil => exact .refl _
  | append_singleton l e ih =>
    obtain ⟨t, r⟩ := e
    rw [groups_concat, tasks, List.map_append]
    exact (perm_addToGroup t r _).trans (ih.append_right _)

theorem tasksOf_ne_nil {m : Mapping τ ρ} (h : EquivAmong m.resources) {r : ρ} (hr : r ∈ m.used) :
    m.tasksOf r ≠ [] := by
  have hmem := used_subset m hr
  obtain ⟨⟨t, q⟩, ht, rfl⟩ := List.mem_map.mp hmem
  exact List.ne_nil_of_mem (mem_tasksOf.mpr ⟨q, ht, h.refl hmem⟩)

theorem existsUnique_group {m : Mapping τ ρ} (h : EquivAmong m.resources) (htasks : m.tasks.Nodup)
    {t : τ} {r : ρ} (he : (t, r) ∈ m.entries) :
    ∃ g ∈ m.groups, t ∈ g.2 ∧ r == g.1 ∧ ∀ g' ∈ m.groups, t ∈ g'.2 → g' = g := by
  have hr := mem_resources he
  obtain ⟨q, hq, hrq⟩ := exists_used h hr
  rw [groups_eq h]
  refine ⟨_, List.mem_map_of_mem hq, mem_tasksOf.mpr ⟨r, he, hrq⟩, hrq, fun g' hg' ht => ?_⟩
  obtain ⟨p, hp, rfl⟩ := List.mem_map.mp hg'
  obtain ⟨r', he', hrp⟩ := mem_tasksOf.mp ht
  have hsame : r' = r := by
    have hinj := List.inj_on_of_nodup_map htasks he' he rfl
    exact congrArg Prod.snd hinj
  rw [hsame] at hrp
  -- Two resources in use that are both equal to that of the task are one.
  have hq' := used_subset m hq
  have hp' := used_subset m hp
  have hpq : p == q := h.trans hp' hr hq' (h.symm hr hp' hrp) hrq
  rw [h.eq_of_eraseDups hp hq hpq]

end Mapping
end AssignmentSearch
