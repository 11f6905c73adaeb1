import AssignmentSearch.Proofs.Binary64.Whole
import AssignmentSearch.Proofs.Mapping.Groups
import AssignmentSearch.Solution.Cost
import Mathlib.Algebra.BigOperators.Group.List.Basic
import Mathlib.Algebra.Order.BigOperators.Group.List
import Mathlib.Tactic.Abel

/-!
# Costs made of integers

Demands and capacities that are integers add up exactly as long as their absolute values together
have at most 53 bits. The cost of a mapping is then what its resources offer, each counted once,
less what its tasks ask for, in whatever order the groups come.
-/

namespace AssignmentSearch
namespace CostModel

open Binary64

variable {β τ ρ : Type}

/-- Amounts that are the integers `n` as long as their weights `w` have few bits. -/
structure CountsAs (amount : β → Except Fault Float) (n : β → Int) (w : β → Nat) : Prop where
  natAbs_le : ∀ x, (n x).natAbs ≤ w x
  exists_whole : ∀ x, w x < 2 ^ 53 → ∃ q, amount x = .ok q ∧ IsWhole q (n x)

theorem natAbs_sum_le {n : β → Int} {w : β → Nat} (h : ∀ x, (n x).natAbs ≤ w x) (xs : List β) :
    ((xs.map n).sum).natAbs ≤ (xs.map w).sum := by
  induction xs with
  | nil => exact le_rfl
  | cons x xs ih =>
    have hx := h x
    rw [List.map_cons, List.map_cons, List.sum_cons, List.sum_cons]
    omega

namespace CountsAs

variable {amount : β → Except Fault Float} {n : β → Int} {w : β → Nat}

/-- Every partial sum is an integer whose weight is that of the summands so far. -/
theorem sum (h : CountsAs amount n w) (xs : List β) {acc : Float} {a : Int} (hacc : IsWhole acc a)
    (hbound : a.natAbs + (xs.map w).sum < 2 ^ 53) :
    ∃ q, CostModel.sum amount acc xs = .ok q ∧ IsWhole q (a + (xs.map n).sum) := by
  induction xs generalizing acc a with
  | nil => exact ⟨acc, rfl, by simpa using hacc⟩
  | cons x xs ih =>
    rw [List.map_cons, List.sum_cons] at hbound
    have hx := h.natAbs_le x
    obtain ⟨p, hp, hwhole⟩ := h.exists_whole x (by omega)
    obtain ⟨q, hq, hsum⟩ := ih (hacc.add hwhole (by omega)) (by omega)
    refine ⟨q, ?_, ?_⟩
    · rw [CostModel.sum, hp]
      exact hq
    · rw [List.map_cons, List.sum_cons, ← Int.add_assoc]
      exact hsum

theorem sum_zero (h : CountsAs amount n w) (xs : List β) (hbound : (xs.map w).sum < 2 ^ 53) :
    ∃ q, CostModel.sum amount Quantity.zero xs = .ok q ∧ IsWhole q (xs.map n).sum := by
  obtain ⟨q, hq, hwhole⟩ := h.sum xs isWhole_zero (by omega)
  rw [Int.zero_add] at hwhole
  exact ⟨q, hq, hwhole⟩

variable {demand : τ → Except Fault Float} {capacity : ρ → Except Fault Float} {d : τ → Int}
  {c : ρ → Int} {v : τ → Nat} {u : ρ → Nat}

theorem spareOf (hd : CountsAs demand d v) (hc : CountsAs capacity c u) :
    CountsAs (fun g : ρ × List τ => CostModel.spareOf demand capacity g.1 g.2)
      (fun g => c g.1 - (g.2.map d).sum) (fun g => u g.1 + (g.2.map v).sum) where
  natAbs_le g := by
    have hr := hc.natAbs_le g.1
    have hts := natAbs_sum_le hd.natAbs_le g.2
    omega
  exists_whole g hg := by
    have hr := hc.natAbs_le g.1
    have hts := natAbs_sum_le hd.natAbs_le g.2
    obtain ⟨p, hp, hpwhole⟩ := hc.exists_whole g.1 (by omega)
    obtain ⟨q, hq, hqwhole⟩ := hd.sum_zero g.2 (by omega)
    refine ⟨p - q, ?_, hpwhole.sub hqwhole (by omega)⟩
    rw [CostModel.spareOf, hp, hq]
    rfl

end CountsAs

section Groups

variable (groups : List (ρ × List τ))

theorem sum_spare {G : Type} [AddCommGroup G] (c : ρ → G) (d : τ → G) :
    (groups.map fun g => c g.1 - (g.2.map d).sum).sum =
      ((groups.map (·.1)).map c).sum - ((groups.flatMap (·.2)).map d).sum := by
  induction groups with
  | nil => simp
  | cons g rest ih =>
    simp only [List.map_cons, List.sum_cons, ih, List.flatMap_cons, List.map_append,
      List.sum_append]
    abel

theorem sum_weight (u : ρ → Nat) (v : τ → Nat) :
    (groups.map fun g => u g.1 + (g.2.map v).sum).sum =
      ((groups.map (·.1)).map u).sum + ((groups.flatMap (·.2)).map v).sum := by
  induction groups with
  | nil => rfl
  | cons g rest ih =>
    simp only [List.map_cons, List.sum_cons, ih, List.flatMap_cons, List.map_append,
      List.sum_append]
    omega

end Groups

theorem sum_le_of_nodup_subset {w : β → Nat} {xs ys : List β} (h : xs.Nodup) (hsub : xs ⊆ ys) :
    (xs.map w).sum ≤ (ys.map w).sum := by
  obtain ⟨zs, hperm, hsublist⟩ := List.subperm_of_subset h hsub
  rw [← (hperm.map w).sum_eq]
  exact (hsublist.map w).sum_le_sum fun _ _ => Nat.zero_le _

theorem sum_groups_eq [BEq ρ] [LawfulBEq ρ] (c : ρ → Int) (d : τ → Int) {m n : Mapping τ ρ}
    (htasks : m.tasks = n.tasks) (hresources : m.resources.Perm n.resources) :
    (m.groups.map fun g => c g.1 - (g.2.map d).sum).sum =
      (n.groups.map fun g => c g.1 - (g.2.map d).sum).sum := by
  have hm := m.divides_groups
  have hn := n.divides_groups
  have hkeys : (m.groups.map (·.1)).Perm (n.groups.map (·.1)) := by
    refine (List.perm_ext_iff_of_nodup hm.nodup hn.nodup).mpr fun r => ?_
    rw [hm.keys, hn.keys]
    exact hresources.mem_iff
  have hall : (m.groups.flatMap (·.2)).Perm (n.groups.flatMap (·.2)) := by
    refine hm.tasks.trans (.trans (.of_eq ?_) hn.tasks.symm)
    exact htasks
  rw [sum_spare, sum_spare, (hkeys.map c).sum_eq, (hall.map d).sum_eq]

theorem exists_whole_total [BEq ρ] [LawfulBEq ρ] [Key ρ] {demand : τ → Except Fault Float}
    {capacity : ρ → Except Fault Float} {d : τ → Int} {c : ρ → Int} {v : τ → Nat} {u : ρ → Nat}
    (hd : CountsAs demand d v) (hc : CountsAs capacity c u) (name : String)
    (hkey : ∀ r : ρ, Key.permit r = .ok ()) {m : Mapping τ ρ} {ts : List τ} {rs : List ρ}
    (hnodup : m.tasks.Nodup) (hts : m.tasks ⊆ ts) (hrs : m.resources ⊆ rs)
    (hbound : (ts.map v).sum + (rs.map u).sum < 2 ^ 53) :
    ∃ q, (spare name demand capacity).total m = .ok q ∧
      IsWhole q (m.groups.map fun g => c g.1 - (g.2.map d).sum).sum := by
  have hm := m.divides_groups
  have hkeys : ((m.groups.map (·.1)).map u).sum ≤ (rs.map u).sum :=
    sum_le_of_nodup_subset hm.nodup fun r hr => hrs ((hm.keys r).mp hr)
  have htasks : ((m.groups.flatMap (·.2)).map v).sum ≤ (ts.map v).sum := by
    rw [(hm.tasks.map v).sum_eq]
    exact sum_le_of_nodup_subset hnodup hts
  have hweight := sum_weight m.groups u v
  obtain ⟨q, hq, hwhole⟩ := (hd.spareOf hc).sum_zero m.groups (by omega)
  refine ⟨q, ?_, hwhole⟩
  change overGroups (CostModel.spareOf demand capacity) m = .ok q
  rw [overGroups, Mapping.groupsByKey_eq_ok m fun r _ => hkey r]
  exact hq

end CostModel
end AssignmentSearch
