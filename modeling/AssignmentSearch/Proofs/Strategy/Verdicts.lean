import AssignmentSearch.Proofs.Random.Samples
import AssignmentSearch.Proofs.Search.Meetings
import AssignmentSearch.Proofs.Solution.Levels
import AssignmentSearch.Proofs.Strategy.Schedules

/-!
# Verdicts of the strategies

Annealing takes every candidate that is no costlier, gravity only those that are better.
-/

namespace AssignmentSearch

open LawfulQuantity

variable {α τ ρ : Type} [Quantity α]

namespace Plan

def IsAnnealing (p : Plan α) : Prop := ∃ s, p = annealing s

def IsGravity (p : Plan α) : Prop := ∃ s, p = gravity s

/-- The number of samples that decide on a candidate of the same cost. -/
def decisions : Plan α → Nat
  | annealing _ => 1
  | gravity _ | constant _ => 0

variable [Printed α]

theorem IsAnnealing.age {p q : Plan α} (h : p.IsAnnealing) (hage : Strategy.age p = .ok q) :
    q.IsAnnealing := by
  obtain ⟨s, rfl⟩ := h
  change annealing <$> Strategy.age s = .ok q at hage
  cases ha : Strategy.age s with
  | error e =>
    rw [ha] at hage
    cases hage
  | ok t =>
    rw [ha] at hage
    cases hage
    exact ⟨t, rfl⟩

theorem IsGravity.age {p q : Plan α} (h : p.IsGravity) (hage : Strategy.age p = .ok q) :
    q.IsGravity := by
  obtain ⟨s, rfl⟩ := h
  cases hage
  exact ⟨_, rfl⟩

theorem kind_of_ages {n : Nat} {p q : Plan α} (hp : p.IsAnnealing ∨ p.IsGravity)
    (h : Strategy.Ages n p q) :
    (q.IsAnnealing ∨ q.IsGravity) ∧ q.decisions = p.decisions := by
  induction n generalizing p with
  | zero =>
    rw [← Strategy.ages_zero.mp h]
    exact ⟨hp, rfl⟩
  | succ n ih =>
    obtain ⟨r, hr, h⟩ := Strategy.ages_succ.mp h
    have hkind : (r.IsAnnealing ∨ r.IsGravity) ∧ r.decisions = p.decisions := by
      rcases hp with hp | hp
      · have hage := hp.age hr
        obtain ⟨a, rfl⟩ := hp
        obtain ⟨b, rfl⟩ := hage
        exact ⟨Or.inl ⟨b, rfl⟩, rfl⟩
      · have hage := hp.age hr
        obtain ⟨a, rfl⟩ := hp
        obtain ⟨b, rfl⟩ := hage
        exact ⟨Or.inr ⟨b, rfl⟩, rfl⟩
    obtain ⟨hq, hdecisions⟩ := ih hkind.1 h
    exact ⟨hq, hdecisions.trans hkind.2⟩

end Plan

variable {current candidate : Solution α τ ρ}

theorem annealing_acceptance (s : Annealing α) {a b : α} (ha : current.costValue = .ok a)
    (hb : candidate.costValue = .ok b) :
    Strategy.acceptance (Plan.annealing s) candidate current =
      .real <$> Annealing.chance s.temperature (b - a) := by
  change (do
    let y ← candidate.costValue
    let x ← current.costValue
    return .real (← Annealing.chance s.temperature (y - x)) : Except Fault (Scalar α)) = _
  rw [ha, hb]
  rfl

variable [LawfulQuantity α]

theorem not_one_le_zero : ¬ (Quantity.one : α) ≤ Quantity.zero := by
  rw [le_iff isFinite_one isFinite_zero, value_one, value_zero, not_le]
  exact one_pos

theorem weigh_one {sample : Scalar α} (h : sample.InUnit) :
    ∃ r, Search.weigh (.real Quantity.one) sample = .ok (.lucky Quantity.one r) := by
  obtain ⟨r, hr⟩ := h.exists_quantity
  refine ⟨r, ?_⟩
  rw [Search.weigh, Scalar.isAtMostZero_real, decide_eq_false not_one_le_zero, h.le_one, hr,
    Scalar.quantity_real]
  rfl

theorem weigh_zero (sample : Scalar α) :
    Search.weigh (.real Quantity.zero) sample = .ok .impossible := by
  have h : (Quantity.zero : α) ≤ Quantity.zero :=
    (le_iff isFinite_zero isFinite_zero).mpr le_rfl
  rw [Search.weigh, Scalar.isAtMostZero_real, decide_eq_true h]
  rfl

theorem annealing_chance (s : Annealing α) (hcurrent : current.HasFiniteCost)
    (hcandidate : candidate.HasFiniteCost) (hle : candidate.level ≤ current.level) :
    Strategy.acceptance (Plan.annealing s) candidate current =
      .ok (.real Quantity.one) := by
  obtain ⟨a, ha, hafinite⟩ := hcurrent
  obtain ⟨b, hb, hbfinite⟩ := hcandidate
  rw [Solution.level_of_cost ha, Solution.level_of_cost hb] at hle
  have hdelta : b - a ≤ Quantity.zero := by
    rw [sub_le_iff isFinite_zero hbfinite hafinite, value_zero]
    exact gap_nonpos hle
  rw [annealing_acceptance s ha hb, Annealing.chance, if_pos hdelta]
  rfl

theorem annealing_takes {p : Plan α} (hp : p.IsAnnealing) {sample : Scalar α}
    (hsample : sample.InUnit) (hcurrent : current.HasFiniteCost)
    (hcandidate : candidate.HasFiniteCost) (hle : candidate.level ≤ current.level)
    (hnot : candidate.isBetterThan current = .ok false) :
    ∃ r, Search.verdict p sample current candidate = .ok (.lucky Quantity.one r) := by
  obtain ⟨s, rfl⟩ := hp
  obtain ⟨r, hr⟩ := weigh_one hsample
  refine ⟨r, ?_⟩
  rw [Search.verdict_of_not_better hnot, annealing_chance s hcurrent hcandidate hle]
  exact hr

theorem gravity_leaves {p : Plan α} (hp : p.IsGravity) {sample : Scalar α}
    (hnot : candidate.isBetterThan current = .ok false) :
    Search.verdict p sample current candidate = .ok .impossible := by
  obtain ⟨s, rfl⟩ := hp
  rw [Search.verdict_of_not_better hnot]
  exact weigh_zero sample

end AssignmentSearch
