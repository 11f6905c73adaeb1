import AssignmentSearch.Placement.Assembly
import AssignmentSearch.Proofs.Placement.Exchanges
import AssignmentSearch.Proofs.Search.Neutral
import AssignmentSearch.Proofs.Search.Steps

/-!
# Placement searches never change the cost

A search for placements exchanges hosts and nothing else. So its first placement stays the best one,
annealing takes whatever it meets, and gravity takes nothing.
-/

namespace AssignmentSearch

namespace Placement

variable {vms : List (Vm Int)} {hosts : List (Host Int)}

theorem Places.hasFiniteCost {s : Solution Float (Vm Int) (Host Int)} (h : Places vms hosts s)
    (hbound : elements vms hosts < 2 ^ 53) : s.HasFiniteCost := by
  obtain ⟨c, hc, hwhole⟩ := h.exists_cost hbound
  exact ⟨c, hc, hwhole.finite⟩

/-- Whatever a search for placements meets costs what the placement it is near costs. -/
theorem neutral_of_landscape (hbound : elements vms hosts < 2 ^ 53)
    {r : Running Float (Plan Float) (Vm Int) (Host Int)}
    (hlandscape : r.1.landscape = landscape vms hosts) (hfresh : r.1.progress = .fresh)
    (hkept : r.1.kept = none) (calls : List Call) :
    FiniteRun calls r ∧ ∀ m ∈ Call.meetings calls r, m.IsNeutral := by
  have hconfines := confines_landscape hbound
  rw [← hlandscape] at hconfines
  have hconfined := confined_of_landscape calls hconfines hfresh hkept
  refine ⟨⟨fun first hfirst => (hconfined.kept first hfirst).hasFiniteCost hbound,
    fun m hm => (hconfined.log m hm).candidate.hasFiniteCost hbound⟩, fun m hm => ?_⟩
  exact ⟨(hconfined.log m hm).current.hasFiniteCost hbound, (hconfined.log m hm).related⟩

/-- As long as all processing elements add up exactly, a search for placements by annealing or by
gravity stays at the cost of its first placement, which remains the best one. Annealing takes every
candidate, at whatever temperature, and gravity none. -/
theorem search_is_cost_neutral {plan : Plan Float} {source : Source Float} {searches : Datum}
    {recorder : Option Recorder} {s : PlacementSearch}
    (hs : Search.ofDatum plan (landscape vms hosts) source searches recorder = .ok s)
    (hsource : source.InUnit) (hbound : elements vms hosts < 2 ^ 53) (w : Surroundings Float)
    (calls : List Call) :
    ((Call.after calls (s, w)).1.progress.found? = none ∧ Call.logs calls (s, w) = []) ∨
      ∃ f first c, (Call.after calls (s, w)).1.progress.found? = some f ∧
        (Call.after calls (s, w)).1.kept = some first ∧ first.costValue = .ok c ∧
        f.best = ⟨0, first⟩ ∧ f.current.solution.costValue = .ok c ∧
        (∀ m ∈ Call.meetings calls (s, w),
          m.candidate.solution.costValue = .ok c ∧ m.after.best = ⟨0, first⟩ ∧
            (plan.IsAnnealing → m.isAccepted = true) ∧
            (plan.IsGravity → m.isAccepted = false)) ∧
        ∀ o ∈ Call.outcomes calls (s, w),
          (o.costBefore = c ∧ o.candidateCost = c ∧ o.cost = c ∧ o.bestCost = c) ∧
            (plan.IsAnnealing → o.accepted = true) ∧ (plan.IsGravity → o.accepted = false) := by
  obtain ⟨n, -, hn, rfl⟩ := Search.exists_count_of_ofDatum hs
  obtain ⟨hfinite, hneutral⟩ := neutral_of_landscape hbound
    (r := (.fresh plan (landscape vms hosts) source (.int n) recorder, w)) rfl rfl rfl calls
  have hrounds : Search.rounds (.int n) = .ok n.toNat := rfl
  have hpos : 0 < n.toNat := by omega
  have htaken : plan.IsAnnealing → ∀ m ∈ Call.meetings calls
      (Search.fresh plan (landscape vms hosts) source (.int n) recorder, w),
        m.isAccepted = true :=
    fun hplan => taken_in_run hplan hneutral
      (inUnit_of_source calls hsource (keepsUnit_landscape vms hosts))
  have hleft : plan.IsGravity → ∀ m ∈ Call.meetings calls
      (Search.fresh plan (landscape vms hosts) source (.int n) recorder, w),
        m.isAccepted = false :=
    fun hplan => left_in_run hplan hneutral
  rcases steady_of_neutral rfl hfinite hneutral with hnone | ⟨f, first, c, hf, hkept, hc, hsteady⟩
  · exact Or.inl hnone
  · refine Or.inr ⟨f, first, c, hf, hkept, hc, hsteady.best, hsteady.current.trans hc,
      fun m hm => ?_, fun o ho => ?_⟩
    · obtain ⟨hcost, hbest⟩ := hsteady.met m hm
      exact ⟨hcost.trans hc, hbest, fun hplan => htaken hplan m hm, fun hplan => hleft hplan m hm⟩
    · exact ⟨hsteady.told o ho c hc,
        fun hplan => accepted_of_meetings hrounds hpos (htaken hplan) o ho,
        fun hplan => accepted_of_meetings hrounds hpos (hleft hplan) o ho⟩

def smallSearch (plan : Plan Float) : Running Float (Plan Float) (Vm Int) (Host Int) :=
  (.fresh plan (landscape [⟨1, 2⟩, ⟨2, 3⟩, ⟨3, 1⟩] [⟨1, 8⟩, ⟨2, 4⟩])
    (.repeating ([0.25, 0.75, 0.5, 0.125, 0.875].map .real)) (.int 2) none, ⟨0, 0, .empty, []⟩)

theorem search_is_cost_neutral_small :
    ((Call.outcomes [.step, .step] (smallSearch (.annealing ⟨.real 100, 1, 0.5⟩))).map fun o =>
      (o.bestCost, o.accepted)) = [(6, true), (6, true)] ∧
    ∃ c, ∀ m ∈ Call.meetings [.step, .step] (smallSearch (.annealing ⟨.real 100, 1, 0.5⟩)),
      m.candidate.solution.costValue = .ok c ∧ m.isAccepted = true := by
  have hs : Search.ofDatum (.annealing ⟨.real 100, 1, 0.5⟩)
      (landscape [⟨1, 2⟩, ⟨2, 3⟩, ⟨3, 1⟩] [⟨1, 8⟩, ⟨2, 4⟩])
      (.repeating ([0.25, 0.75, 0.5, 0.125, 0.875].map .real)) (.int 2) none =
        .ok (smallSearch (.annealing ⟨.real 100, 1, 0.5⟩)).1 := rfl
  have hsource :
      (Source.repeating ([(0.25 : Float), 0.75, 0.5, 0.125, 0.875].map .real)).InUnit := by
    have hall : ∀ x ∈ [(0.25 : Float), 0.75, 0.5, 0.125, 0.875], 0 ≤ x ∧ x < 1 := by
      decide +kernel
    refine Source.inUnit_repeating (by simp) fun x hx => ?_
    obtain ⟨y, hy, rfl⟩ := List.mem_map.mp hx
    exact hall y hy
  have htold : ((Call.outcomes [.step, .step]
      (smallSearch (.annealing ⟨.real 100, 1, 0.5⟩))).map fun o => (o.bestCost, o.accepted)) =
        [(6, true), (6, true)] := by
    decide +kernel
  refine ⟨htold, ?_⟩
  rcases search_is_cost_neutral hs hsource (by decide) ⟨0, 0, .empty, []⟩ [.step, .step] with
    ⟨-, hnil⟩ | ⟨f, first, c, -, -, -, -, -, hmet, -⟩
  · have hlogs : Call.logs [.step, .step] (smallSearch (.annealing ⟨.real 100, 1, 0.5⟩)) = [] :=
      hnil
    rw [Call.outcomes, hlogs] at htold
    cases htold
  · exact ⟨c, fun m hm => ⟨(hmet m hm).1, (hmet m hm).2.2.1 ⟨_, rfl⟩⟩⟩

end Placement
end AssignmentSearch
