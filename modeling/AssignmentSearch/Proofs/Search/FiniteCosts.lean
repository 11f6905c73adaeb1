import AssignmentSearch.Proofs.Search.Confined
import AssignmentSearch.Proofs.Solution.Levels

/-!
# Runs with finite costs

A run computes the cost of the first solution and of each candidate. All of them are finite if the
landscape hands out nothing else.
-/

namespace AssignmentSearch

open LawfulQuantity Event

variable {α σ τ ρ : Type} [Quantity α] [LawfulQuantity α]

def FiniteCosts (l : List (Event α τ ρ)) : Prop :=
  ∀ m ∈ metIn l, m.candidate.solution.HasFiniteCost

theorem FiniteCosts.of_append {l k : List (Event α τ ρ)} (h : FiniteCosts (l ++ k)) :
    FiniteCosts l := by
  intro m hm
  exact h m (mem_metIn_append.mpr (Or.inl hm))

theorem Solution.HasFiniteCost.evaluated {s : Solution α τ ρ} (h : s.HasFiniteCost) :
    s.evaluated.HasFiniteCost := by
  obtain ⟨c, hc, hfinite⟩ := h
  exact ⟨c, (costValue_evaluated s).trans hc, hfinite⟩

/-- A landscape that gives solutions with finite costs, given those it gave before. -/
def Landscape.IsFinite (L : Landscape α τ ρ) : Prop :=
  L.Confines Solution.HasFiniteCost fun _ _ => True

theorem Landscape.isFinite_listed (name : String) {costs : List (Except Fault α)}
    (h : ∀ cost ∈ costs, ∃ c, cost = .ok c ∧ LawfulQuantity.IsFinite c) :
    (listed name costs : Landscape α τ ρ).IsFinite := by
  have hcandidate : ∀ i : Nat, (Solution.of (.fixed name
      ((costs[min i (costs.length - 1)]?).getD (.ok Quantity.zero))) .empty :
        Solution α τ ρ).HasFiniteCost := by
    intro i
    simp only [Solution.HasFiniteCost, Solution.costValue_eq, Solution.of, CostModel.fixed,
      Bool.false_eq_true, if_false]
    cases hget : costs[min i (costs.length - 1)]? with
    | none => exact ⟨_, rfl, isFinite_zero⟩
    | some cost => exact h cost (List.mem_of_getElem? hget)
  constructor
  · intro kept source first source' hkept hfirst
    cases kept with
    | none =>
      cases hfirst
      exact (hcandidate 0).evaluated
    | some x =>
      cases hfirst
      exact (hkept _ rfl).evaluated
  · intro n near source c source' _ hc
    cases hc
    exact ⟨(hcandidate n).evaluated, trivial⟩

variable [Strategy α σ] [Acceptance α σ (Solution α τ ρ)] [Printed α] [ToString τ] [ToString ρ]

/-- All costs that are computed in a run are finite: that of the first solution and those of the
candidates. -/
def FiniteRun (calls : List Call) (r : Running α σ τ ρ) : Prop :=
  (∀ first, (Call.after calls r).1.kept = some first → first.HasFiniteCost) ∧
    FiniteCosts (Call.logs calls r)

theorem FiniteRun.of_append {earlier later : List Call} {r : Running α σ τ ρ}
    (h : FiniteRun (earlier ++ later) r) {f : Found α τ ρ}
    (hf : (Call.after earlier r).1.progress.found? = some f) : FiniteRun earlier r := by
  refine ⟨fun first hkept => h.1 first (Call.begun_after_append later hf hkept).2, ?_⟩
  have hcosts := h.2
  rw [Call.logs_append] at hcosts
  exact hcosts.of_append

theorem finiteRun_of_landscape (calls : List Call) {r : Running α σ τ ρ}
    (h : r.1.landscape.IsFinite) (hfresh : r.1.progress = .fresh) (hkept : r.1.kept = none) :
    FiniteRun calls r := by
  have hrun := confined_of_landscape calls h hfresh hkept
  exact ⟨hrun.kept, fun m hm => (hrun.log m hm).candidate⟩

end AssignmentSearch
