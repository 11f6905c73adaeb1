import AssignmentSearch.Placement.Landscape
import AssignmentSearch.Proofs.Search.Confined
import AssignmentSearch.Proofs.Search.UnitSamples
import AssignmentSearch.Proofs.Solution.Coherence
import AssignmentSearch.Proofs.Solution.WholeCosts

/-!
# Exchanges of hosts

An exchange of hosts between two machines leaves the hosts in use as they are, so it changes no
cost. This needs counts of processing elements that add up exactly.
-/

namespace AssignmentSearch
namespace Placement

open Binary64 CostModel

section Samples

variable {α κ : Type} [Quantity α]

theorem keepsUnit_randomHost (hosts : List (Host κ)) :
    KeepsUnit (randomHost hosts : Attempt (Source α) (Host κ)) :=
  (Source.keepsUnit_index _).bind fun _ => .lift _

variable [BEq κ] [Key κ]

theorem keepsUnit_bindAll (hosts : List (Host κ)) (vms : List (Vm κ))
    (s : Solution α (Vm κ) (Host κ)) : KeepsUnit (bindAll hosts vms s) := by
  induction vms generalizing s with
  | nil => exact .pure _
  | cons vm rest ih =>
    exact (keepsUnit_randomHost hosts).bind fun host => (KeepsUnit.lift _).bind fun _ => ih _

variable [Count α κ] [Written κ]

theorem keepsUnit_landscape (vms : List (Vm κ)) (hosts : List (Host κ)) :
    (landscape vms hosts : Landscape α (Vm κ) (Host κ)).KeepsUnit where
  initial := by
    intro kept
    change KeepsUnit (initial vms hosts kept)
    rw [initial]
    split
    · exact keepsUnit_bindAll hosts vms nothing
    · exact .pure _
  neighbor _ near := Landscape.keepsUnit_swapped near

end Samples

theorem mem_of_elementAt {κ : Type} {hosts : List (Host κ)} {i : Int} {host : Host κ}
    (h : elementAt hosts i = .ok host) : host ∈ hosts := by
  simp only [elementAt] at h
  generalize (if i < 0 then i + hosts.length else i) = j at h
  by_cases hj : j < 0
  · rw [if_pos hj] at h
    cases h
  · rw [if_neg hj] at h
    cases hget : hosts[j.toNat]? with
    | none =>
      rw [hget] at h
      cases h
    | some found =>
      rw [hget] at h
      cases h
      exact List.mem_of_getElem? hget

theorem mem_of_randomHost {α κ : Type} [Quantity α] {hosts : List (Host κ)}
    {source source' : Source α} {host : Host κ}
    (h : (randomHost hosts).start source = (.ok host, source')) : host ∈ hosts := by
  obtain ⟨i, u, -, hi⟩ := Attempt.exists_of_start_bind h
  rw [Attempt.start_lift, Prod.mk.injEq] at hi
  exact mem_of_elementAt hi.1

theorem countsAs_peCount {β : Type} (peCount : β → Int) :
    CountsAs (fun x => Count.quantity (peCount x)) peCount fun x => (peCount x).natAbs where
  natAbs_le _ := le_rfl
  exists_whole x hx := by
    obtain ⟨q, hq, hwhole⟩ := ofInt?_isWhole hx
    refine ⟨q, ?_, hwhole⟩
    have hquantity : (Quantity.ofInt? (peCount x) : Option Float) = some q := hq
    change quantityOfInt (peCount x) = .ok q
    rw [quantityOfInt, hquantity]

/-- How many processing elements all machines and hosts count together, whatever their signs. -/
def elements (vms : List (Vm Int)) (hosts : List (Host Int)) : Nat :=
  (vms.map (·.peCount.natAbs)).sum + (hosts.map (·.peCount.natAbs)).sum

def surplus (m : Mapping (Vm Int) (Host Int)) : Int :=
  (m.groups.map fun g => g.1.peCount - (g.2.map (·.peCount)).sum).sum

/-- A placement of machines on hosts of two lists whose cost, if it is known, is the right one. -/
structure Places (vms : List (Vm Int)) (hosts : List (Host Int))
    (s : Solution Float (Vm Int) (Host Int)) : Prop where
  model : s.model = costModel
  coherent : s.IsCoherent
  nodup : s.mapping.tasks.Nodup
  tasks : s.mapping.tasks ⊆ vms
  resources : s.mapping.resources ⊆ hosts

variable {vms : List (Vm Int)} {hosts : List (Host Int)} {s t : Solution Float (Vm Int) (Host Int)}

theorem places_nothing : Places vms hosts nothing where
  model := rfl
  coherent := Solution.isCoherent_of_stale rfl
  nodup := List.nodup_nil
  tasks := List.nil_subset _
  resources := List.nil_subset _

namespace Places

theorem evaluated (h : Places vms hosts s) : Places vms hosts s.evaluated where
  model := s.model_evaluated.trans h.model
  coherent := h.coherent.evaluated
  nodup := s.mapping_evaluated ▸ h.nodup
  tasks := s.mapping_evaluated ▸ h.tasks
  resources := s.mapping_evaluated ▸ h.resources

theorem bind (h : Places vms hosts s) {vm : Vm Int} (hvm : vm ∈ vms) {host : Host Int}
    (hhost : host ∈ hosts) : Places vms hosts (s.bind vm host) where
  model := h.model
  coherent := Solution.isCoherent_of_stale rfl
  nodup := Mapping.nodup_tasks_bind h.nodup vm host
  tasks := by
    intro u hu
    rcases Mapping.mem_tasks_bind.mp hu with hu | rfl
    · exact h.tasks hu
    · exact hvm
  resources := by
    intro q hq
    rcases Mapping.mem_resources_bind hq with hq | rfl
    · exact h.resources hq
    · exact hhost

theorem bindAll (h : Places vms hosts s) {rest : List (Vm Int)} (hrest : rest ⊆ vms)
    {source source' : Source Float}
    (hs : (bindAll hosts rest s).start source = (.ok t, source')) : Places vms hosts t := by
  induction rest generalizing s source with
  | nil =>
    cases hs
    exact h
  | cons vm rest ih =>
    obtain ⟨host, u, hhost, hs⟩ := Attempt.exists_of_start_bind hs
    obtain ⟨_, w, -, hs⟩ := Attempt.exists_of_start_bind hs
    have hbind := h.bind (hrest List.mem_cons_self) (mem_of_randomHost hhost)
    exact ih hbind (fun x hx => hrest (List.mem_cons_of_mem _ hx)) hs

theorem initial {kept : Option (Solution Float (Vm Int) (Host Int))}
    (hkept : ∀ x, kept = some x → Places vms hosts x) {source source' : Source Float}
    (hs : (initial vms hosts kept).start source = (.ok t, source')) : Places vms hosts t := by
  rw [Placement.initial] at hs
  split at hs
  · exact places_nothing.bindAll (List.Subset.refl vms) hs
  · cases hs
    cases kept with
    | none => exact places_nothing
    | some x => exact hkept x rfl

theorem exists_cost (hbound : elements vms hosts < 2 ^ 53) (h : Places vms hosts s) :
    ∃ c, s.costValue = .ok c ∧ IsWhole c (surplus s.mapping) := by
  obtain ⟨c, hc, hwhole⟩ := exists_whole_total (countsAs_peCount fun vm : Vm Int => vm.peCount)
    (countsAs_peCount fun host : Host Int => host.peCount) "VmToHostMappingSolution" permit_host
    h.nodup h.tasks h.resources hbound
  refine ⟨c, ?_, hwhole⟩
  rw [h.coherent.costValue_eq_total, h.model]
  exact hc

theorem swapped (h : Places vms hosts s) {source source' : Source Float}
    (hs : (Landscape.swapped s).start source = (.ok t, source')) :
    Places vms hosts t ∧ surplus t.mapping = surplus s.mapping := by
  rw [Landscape.swapped, Attempt.start_map] at hs
  rcases hx : (s.swap Source.index).start source with ⟨_ | ⟨b, u⟩, d⟩
  · rw [hx] at hs
    cases hs
  · rw [hx] at hs
    cases hs
    rcases Solution.swap_cases hx with ⟨-, rfl⟩ | ⟨-, i, j, rfl⟩
    · exact ⟨h, rfl⟩
    · have htasks := s.mapping.tasks_swapAt i j
      have hresources := s.mapping.perm_resources_swapAt i j
      refine ⟨⟨h.model, Solution.isCoherent_of_stale rfl, ?_, ?_, ?_⟩, ?_⟩
      · rw [htasks]
        exact h.nodup
      · rw [htasks]
        exact h.tasks
      · exact fun q hq => h.resources (hresources.mem_iff.mp hq)
      · exact sum_groups_eq (·.peCount) (·.peCount) htasks hresources

theorem costValue_eq (hbound : elements vms hosts < 2 ^ 53) (hs : Places vms hosts s)
    (ht : Places vms hosts t) (h : surplus t.mapping = surplus s.mapping) :
    t.costValue = s.costValue := by
  obtain ⟨c, hc, hcwhole⟩ := hs.exists_cost hbound
  obtain ⟨d, hd, hdwhole⟩ := ht.exists_cost hbound
  rw [h] at hdwhole
  rw [hc, hd, hdwhole.unique hcwhole]

end Places

/-- All placements that a search comes to cost the same as the one before. -/
theorem confines_landscape (hbound : elements vms hosts < 2 ^ 53) :
    (landscape vms hosts : Landscape Float (Vm Int) (Host Int)).Confines (Places vms hosts)
      fun near c => c.costValue = near.costValue where
  initial hkept hs := (Places.initial hkept hs).evaluated
  neighbor := by
    intro n near source c source' hnear hc
    obtain ⟨hplaces, hsurplus⟩ := hnear.swapped hc
    refine ⟨hplaces.evaluated, ?_⟩
    rw [c.costValue_evaluated]
    exact hnear.costValue_eq hbound hplaces hsurplus

end Placement
end AssignmentSearch
