import AssignmentSearch.Proofs.Placement.Complete
import AssignmentSearch.Proofs.Solution.Summands

/-!
# Which mappings have a cost

A mapping has a cost as soon as its resources are keys, each of them has a capacity and each task a
demand; where squares are charged, they must be in range, too. So an exchange of resources neither
gives nor takes a cost, but that squares may leave their range.
-/

namespace AssignmentSearch

namespace CostModel

variable {α τ ρ : Type} [Quantity α] {excused : Fault → Prop} {demand : τ → Except Fault α}
  {capacity : ρ → Except Fault α}

/-- The resources of a mapping are keys with capacities, and its tasks have demands. -/
structure Chargeable [Key ρ] (demand : τ → Except Fault α) (capacity : ρ → Except Fault α)
    (m : Mapping τ ρ) : Prop where
  keys : ∀ r ∈ m.resources, Key.permit r = .ok ()
  capacities : ∀ r ∈ m.resources, Succeeds (capacity r)
  demands : ∀ t ∈ m.tasks, Succeeds (demand t)

variable [BEq ρ] [LawfulBEq ρ] [Key ρ] {cost : ρ → List τ → Except Fault α} {m n : Mapping τ ρ}

theorem Chargeable.of_succeeds (h : Needs excused cost demand capacity)
    (hm : Succeeds (overGroups cost m)) : Chargeable demand capacity m := by
  obtain ⟨hkeys, hgroups⟩ := parts_of_overGroups hm
  refine ⟨hkeys, fun r hr => ?_, fun t ht => ?_⟩
  · obtain ⟨g, hg, rfl⟩ := List.mem_map.mp ((m.divides_groups.keys r).mpr hr)
    exact (h.needed (hgroups g hg)).1
  · obtain ⟨g, hg, htg⟩ := Mapping.mem_tasks_iff_groups.mp ht
    exact (h.needed (hgroups g hg)).2 t htg

theorem Chargeable.failsOnly (hm : Chargeable demand capacity m)
    (h : Needs excused cost demand capacity) : FailsOnly excused (overGroups cost m) := by
  refine failsOnly_overGroups hm.keys fun g hg => h.enough (hm.capacities g.1 ?_) fun t ht =>
    hm.demands t (Mapping.mem_tasks_iff_groups.mpr ⟨g, hg, ht⟩)
  exact (m.divides_groups.keys g.1).mp (List.mem_map_of_mem hg)

omit [Quantity α] [BEq ρ] [LawfulBEq ρ] in
theorem Chargeable.rearranged (h : Chargeable demand capacity m) (hn : m.Rearranges n) :
    Chargeable demand capacity n where
  keys r hr := h.keys r (hn.resources.mem_iff.mp hr)
  capacities r hr := h.capacities r (hn.resources.mem_iff.mp hr)
  demands t ht := h.demands t (hn.tasks ▸ ht)

/-- A model under which a mapping has a cost, but for excused faults, whenever its tasks and resources
have one in another arrangement. -/
def Rearrangeable (excused : Fault → Prop) (model : CostModel α τ ρ) : Prop :=
  ∀ m n : Mapping τ ρ, m.Rearranges n → Succeeds (model.total m) → FailsOnly excused (model.total n)

theorem rearrangeable_of_needs (h : Needs excused cost demand capacity) {name : String} :
    Rearrangeable excused ⟨name, cost, overGroups cost⟩ :=
  fun _ _ hn hm => ((Chargeable.of_succeeds h hm).rearranged hn).failsOnly h

theorem rearrangeable_spare (name : String) :
    Rearrangeable excused (spare name demand capacity : CostModel α τ ρ) :=
  rearrangeable_of_needs needs_spareOf

theorem rearrangeable_squared (name : String) :
    Rearrangeable (· = .squareTooLarge) (squared name demand capacity : CostModel α τ ρ) :=
  rearrangeable_of_needs needs_squareOf

end CostModel

namespace Landscape

variable {α τ ρ : Type}

/-- Candidates near a solution with a cost have a cost, too, but for excused faults. The solutions to
come form a class. -/
def KeepsCosts (excused : Fault → Prop) (L : Landscape α τ ρ) : Prop :=
  ∃ I, L.Confines I fun near candidate =>
    Succeeds near.costValue → FailsOnly excused candidate.costValue

variable [Quantity α] {excused : Fault → Prop} {model : CostModel α τ ρ}

/-- Exchanges of resources keep costs if the model does not mind the arrangement. -/
theorem failsOnly_cost_swapped (hmodel : model.Rearrangeable excused) {s t : Solution α τ ρ}
    {source source' : Source α} (hs : s.model = model) (hcoherent : s.IsCoherent)
    (h : (swapped s).start source = (.ok t, source')) :
    (t.model = model ∧ t.IsCoherent) ∧
      (Succeeds s.costValue → FailsOnly excused t.costValue) := by
  have hrearranges := Mapping.Rearranges.swapped h
  obtain ⟨htmodel, htcoherent⟩ : t.model = model ∧ t.IsCoherent := by
    rw [swapped, Attempt.start_map] at h
    rcases hx : (s.swap Source.index).start source with ⟨_ | ⟨b, u⟩, d⟩
    · rw [hx] at h
      cases h
    · rw [hx] at h
      cases h
      refine ⟨?_, Solution.isCoherent_of_start_swap hcoherent hx⟩
      rcases Solution.swap_cases hx with ⟨-, rfl⟩ | ⟨-, i, j, rfl⟩ <;> exact hs
  refine ⟨⟨htmodel, htcoherent⟩, ?_⟩
  rw [hcoherent.costValue_eq_total, htcoherent.costValue_eq_total, hs, htmodel]
  exact hmodel _ _ hrearranges

/-- A landscape that begins with coherent solutions of a model and exchanges resources. -/
theorem keepsCosts_of_swapped (hmodel : model.Rearrangeable excused) {L : Landscape α τ ρ}
    (hinitial : ∀ {kept source first source'},
      (∀ x, kept = some x → x.model = model ∧ x.IsCoherent) →
        (L.initial kept).start source = (.ok first, source') →
          first.model = model ∧ first.IsCoherent)
    (hneighbor : ∀ n, L.neighbor n = swapped) : L.KeepsCosts excused := by
  refine ⟨fun s => s.model = model ∧ s.IsCoherent, fun hkept hfirst => ?_, fun hnear hc => ?_⟩
  · obtain ⟨hfirstmodel, hcoherent⟩ := hinitial hkept hfirst
    exact ⟨(Solution.model_evaluated _).trans hfirstmodel, hcoherent.evaluated⟩
  · rw [hneighbor] at hc
    obtain ⟨⟨hcmodel, hcoherent⟩, hcost⟩ := failsOnly_cost_swapped hmodel hnear.1 hnear.2 hc
    rw [Solution.costValue_evaluated]
    exact ⟨⟨(Solution.model_evaluated _).trans hcmodel, hcoherent.evaluated⟩, hcost⟩

theorem keepsCosts_exchanging (hmodel : model.Rearrangeable excused) (m : Mapping τ ρ) :
    (exchanging (.of model m)).KeepsCosts excused := by
  refine keepsCosts_of_swapped hmodel (fun {kept} source first source' hkept hfirst => ?_) fun _ => rfl
  cases kept with
  | none =>
    cases hfirst
    exact ⟨rfl, Solution.isCoherent_of_stale rfl⟩
  | some x =>
    cases hfirst
    exact hkept x rfl

end Landscape

theorem Placement.keepsCosts_landscape {excused : Fault → Prop} (vms : List (Vm Int))
    (hosts : List (Host Int)) :
    (landscape vms hosts : Landscape Float (Vm Int) (Host Int)).KeepsCosts excused := by
  refine ⟨Places vms hosts, fun hkept hfirst => (Places.initial hkept hfirst).evaluated,
    fun hnear hc => ?_⟩
  obtain ⟨-, hcost⟩ := Landscape.failsOnly_cost_swapped
    (CostModel.rearrangeable_spare "VmToHostMappingSolution") hnear.model hnear.coherent hc
  rw [Solution.costValue_evaluated]
  exact ⟨(hnear.swapped hc).1.evaluated, hcost⟩

end AssignmentSearch
