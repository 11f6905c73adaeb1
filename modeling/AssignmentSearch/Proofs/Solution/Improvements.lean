import AssignmentSearch.Proofs.Solution.Comparisons
import AssignmentSearch.Proofs.Solution.Levels
import Mathlib.Logic.Relation

/-!
# Improvements

Whether a solution is better than another depends on the rounded difference of their costs, and
rounding is monotone. So an improvement lasts if the better solution gets cheaper or the worse one
dearer. Of this and irreflexivity the other laws of a semiorder follow, whatever the tolerance is.
-/

namespace AssignmentSearch

abbrev FiniteSolution (α τ ρ : Type) [Quantity α] [LawfulQuantity α] : Type :=
  { s : Solution α τ ρ // s.HasFiniteCost }

namespace FiniteSolution

open LawfulQuantity Solution

section Laws

variable {α τ ρ : Type} [Quantity α] [LawfulQuantity α] {a b c d : FiniteSolution α τ ρ}

def Improves (a b : FiniteSolution α τ ρ) : Prop := a.1.isBetterThan b.1 = .ok true

def CostsAtMost (a b : FiniteSolution α τ ρ) : Prop :=
  ∃ x y, a.1.costValue = .ok x ∧ b.1.costValue = .ok y ∧ x ≤ y

theorem CostsAtMost.level_le (h : CostsAtMost a b) : a.1.level ≤ b.1.level := by
  obtain ⟨x, y, hx, hy, hle⟩ := h
  obtain ⟨hxfinite, hxlevel⟩ := value_of_cost a.2 hx
  obtain ⟨hyfinite, hylevel⟩ := value_of_cost b.2 hy
  rw [hxlevel, hylevel]
  exact (le_iff hxfinite hyfinite).mp hle

theorem improves_iff : Improves a b ↔ gap α a.1.level b.1.level < -slack α :=
  isBetterThan_iff a.2 b.2

theorem isBetterThan_self (a : FiniteSolution α τ ρ) : a.1.isBetterThan a.1 = .ok false :=
  isNotBetterThan_of_cost_eq a.2 rfl

theorem not_improves_self (a : FiniteSolution α τ ρ) : ¬ Improves a a := by
  intro h
  rw [Improves, isBetterThan_self, Except.ok.injEq] at h
  exact Bool.false_ne_true h

/-- An improvement lasts if the better solution gets cheaper or the worse one dearer. -/
theorem Improves.mono (h : Improves a b) (hca : c.1.level ≤ a.1.level)
    (hbd : b.1.level ≤ d.1.level) : Improves c d :=
  improves_iff.mpr ((gap_mono hca hbd).trans_lt (improves_iff.mp h))

theorem Improves.level_lt (h : Improves a b) : a.1.level < b.1.level :=
  (lt_add_of_pos_right _ slack_pos).trans (level_add_slack_lt a.2 b.2 h)

theorem Improves.trans (hab : Improves a b) (hbc : Improves b c) : Improves a c :=
  hbc.mono hab.level_lt.le le_rfl

instance instIsTransImproves : IsTrans (FiniteSolution α τ ρ) Improves := ⟨fun _ _ _ => .trans⟩

theorem Improves.lt_of_not_right (h : Improves a b) (hnot : ¬ Improves a d) :
    d.1.level < b.1.level := by
  by_contra hle
  exact hnot (h.mono le_rfl (not_lt.mp hle))

theorem Improves.lt_of_not_left (h : Improves a b) (hnot : ¬ Improves d b) :
    a.1.level < d.1.level := by
  by_contra hle
  exact hnot (h.mono (not_lt.mp hle) le_rfl)

theorem Improves.exchange (hab : Improves a b) (hcd : Improves c d) :
    Improves a d ∨ Improves c b := by
  by_contra hnone
  rw [not_or] at hnone
  exact lt_asymm (hab.lt_of_not_right hnone.1) (hcd.lt_of_not_right hnone.2)

/-- Of three solutions that improve in turn the first improves on any fourth one, or that one on the
last. -/
theorem Improves.split (hab : Improves a b) (hbc : Improves b c) (d : FiniteSolution α τ ρ) :
    Improves a d ∨ Improves d c := by
  by_contra hnone
  rw [not_or] at hnone
  exact lt_asymm (hab.lt_of_not_right hnone.1) (hbc.lt_of_not_left hnone.2)

theorem improves_of_transGen (h : Relation.TransGen Improves a b) : Improves a b := by
  rwa [Relation.transGen_eq_self] at h

end Laws

/-- One task without demand on one resource, which costs what the capacity is. -/
def idle (capacity : Float)
    (hfinite : Binary64.IsFinite (0 + (capacity - 0)) := by decide +kernel) :
    FiniteSolution Float Int Int :=
  ⟨idleSolution capacity, 0 + (capacity - 0), rfl, hfinite⟩

section Idle

variable {x y : Float} {hx : Binary64.IsFinite (0 + (x - 0))} {hy : Binary64.IsFinite (0 + (y - 0))}

theorem compare_idle :
    (idle x hx).1.compare (idle y hy).1 = .ok (compareCosts (0 + (x - 0)) (0 + (y - 0))) :=
  compare_of_costs rfl rfl

theorem improves_idle (h : 0 < compareCosts (0 + (x - 0)) (0 + (y - 0))) :
    Improves (idle x hx) (idle y hy) := by
  rw [Improves, isBetterThan_of_costs rfl rfl, Except.ok.injEq, decide_eq_true_iff]
  exact h

end Idle

theorem exists_ties_not_transitive :
    ∃ p q r : FiniteSolution Float Int Int,
      p.1.compare q.1 = .ok 0 ∧ q.1.compare r.1 = .ok 0 ∧ Improves p r := by
  have hlow : compareCosts (0 + (0 - 0) : Float) (0 + (1e-4 - 0)) = 0 := by decide +kernel
  have hhigh : compareCosts (0 + (1e-4 - 0) : Float) (0 + (2e-4 - 0)) = 0 := by decide +kernel
  refine ⟨idle 0, idle 1e-4, idle 2e-4, ?_, ?_, improves_idle (by decide +kernel)⟩
  · rw [compare_idle, hlow]
  · rw [compare_idle, hhigh]

variable {τ ρ : Type}

/-- Improvement is a semiorder that is monotone in both costs, and no chain of improvements comes
back to where it began. Ties are not transitive. -/
theorem improvement_is_semiorder (a b c d : FiniteSolution Float τ ρ) :
    a.1.isBetterThan a.1 = .ok false ∧
    (Improves a b ∨ a.1.isBetterThan b.1 = .ok false) ∧
    (Improves a b → Improves b c → Improves a c) ∧
    (Improves a b → Improves c d → Improves a d ∨ Improves c b) ∧
    (Improves a b → Improves b c → Improves a d ∨ Improves d c) ∧
    (Improves a b → CostsAtMost c a → CostsAtMost b d → Improves c d) ∧
    (Relation.TransGen Improves a b → Improves a b) ∧
    ¬ Relation.TransGen Improves a a ∧
    ∃ p q r : FiniteSolution Float Int Int,
      p.1.compare q.1 = .ok 0 ∧ q.1.compare r.1 = .ok 0 ∧ Improves p r := by
  refine ⟨isBetterThan_self a, isBetterThan_or a.2 b.2, fun hab hbc => hab.trans hbc,
    fun hab hcd => hab.exchange hcd, fun hab hbc => hab.split hbc d,
    fun hab hca hbd => hab.mono hca.level_le hbd.level_le, improves_of_transGen, fun hcycle => ?_,
    exists_ties_not_transitive⟩
  exact not_improves_self a (improves_of_transGen hcycle)

/-- A fourth solution that is tied with its neighbours. -/
theorem improvement_is_semiorder_idle :
    Improves (idle 0) (idle 2e-4) ∧ Improves (idle 2e-4) (idle 4e-4) ∧
    Improves (idle 0) (idle 4e-4) ∧
    (Improves (idle 0) (idle 3e-4) ∨ Improves (idle 3e-4) (idle 4e-4)) ∧
    CostsAtMost (idle 4e-4) (idle 5e-4) ∧ Improves (idle 0) (idle 5e-4) := by
  have hlow : Improves (idle 0) (idle 2e-4) := improves_idle (by decide +kernel)
  have hhigh : Improves (idle 2e-4) (idle 4e-4) := improves_idle (by decide +kernel)
  have hself : CostsAtMost (idle 0) (idle 0) := ⟨_, _, rfl, rfl, by decide +kernel⟩
  have hdearer : CostsAtMost (idle 4e-4) (idle 5e-4) := ⟨_, _, rfl, rfl, by decide +kernel⟩
  obtain ⟨-, -, htrans, -, hsplit, -⟩ :=
    improvement_is_semiorder (idle 0) (idle 2e-4) (idle 4e-4) (idle 3e-4)
  obtain ⟨-, -, -, -, -, hmono, -⟩ :=
    improvement_is_semiorder (idle 0) (idle 4e-4) (idle 0) (idle 5e-4)
  exact ⟨hlow, hhigh, htrans hlow hhigh, hsplit hlow hhigh, hdearer,
    hmono (htrans hlow hhigh) hself hdearer⟩

end FiniteSolution
end AssignmentSearch
