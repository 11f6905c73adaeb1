import AssignmentSearch.Placement.Assembly
import AssignmentSearch.Proofs.Placement.Exchanges
import AssignmentSearch.Proofs.Placement.Labels
import AssignmentSearch.Proofs.Search.Steps

/-!
# Placements stay complete

The first placement puts each machine on a host, in the order of the machines. Whatever a search
comes to rearranges the hosts of its first placement and leaves the machines where they are.
-/

namespace AssignmentSearch

/-- The mapping `n` has the tasks of `m` in their order, and the resources of `m` in some order. -/
structure Mapping.Rearranges {τ ρ : Type} (m n : Mapping τ ρ) : Prop where
  tasks : n.tasks = m.tasks
  resources : n.resources.Perm m.resources

namespace Mapping.Rearranges

variable {τ ρ : Type} {k m n : Mapping τ ρ}

theorem refl (m : Mapping τ ρ) : m.Rearranges m := ⟨rfl, .refl _⟩

theorem trans (hm : k.Rearranges m) (hn : m.Rearranges n) : k.Rearranges n :=
  ⟨hn.tasks.trans hm.tasks, hn.resources.trans hm.resources⟩

theorem swapAt (m : Mapping τ ρ) (i j : Nat) : m.Rearranges (m.swapAt i j) :=
  ⟨m.tasks_swapAt i j, m.perm_resources_swapAt i j⟩

theorem swapped {α : Type} [Quantity α] {s t : Solution α τ ρ} {source source' : Source α}
    (h : (Landscape.swapped s).start source = (.ok t, source')) :
    s.mapping.Rearranges t.mapping := by
  rw [Landscape.swapped, Attempt.start_map] at h
  rcases hx : (s.swap Source.index).start source with ⟨_ | ⟨b, u⟩, d⟩
  · rw [hx] at h
    cases h
  · rw [hx] at h
    cases h
    rcases Solution.swap_cases hx with ⟨-, rfl⟩ | ⟨-, i, j, rfl⟩
    · exact refl _
    · exact swapAt _ i j

end Mapping.Rearranges

namespace Placement

/-- The machines that are placed: all of them, unless there are no hosts. -/
def placed (vms : List (Vm Int)) (hosts : List (Host Int)) : List (Vm Int) :=
  if vms = [] ∨ hosts = [] then [] else vms

/-- A placement of all machines, in their order, on hosts of a list. -/
structure Fills (vms : List (Vm Int)) (hosts : List (Host Int)) (m : Mapping (Vm Int) (Host Int)) :
    Prop where
  tasks : m.tasks = placed vms hosts
  resources : m.resources ⊆ hosts

variable {vms : List (Vm Int)} {hosts : List (Host Int)}

theorem Fills.rearranged {m n : Mapping (Vm Int) (Host Int)} (h : Fills vms hosts m)
    (hn : m.Rearranges n) : Fills vms hosts n :=
  ⟨hn.tasks.trans h.tasks, fun _ hq => h.resources (hn.resources.mem_iff.mp hq)⟩

theorem writes_iff {m : Mapping (Vm Int) (Host Int)} :
    writes m = true ↔ (∀ vm ∈ m.tasks, Written.isLong vm.id = false) ∧
      ∀ host ∈ m.resources, Written.isLong host.id = false := by
  simp only [writes, Mapping.tasks, Mapping.resources, List.all_eq_true, Bool.and_eq_true,
    Bool.not_eq_true', List.forall_mem_map]
  exact forall₂_and

theorem writes_of_rearranges {m n : Mapping (Vm Int) (Host Int)} (hn : m.Rearranges n)
    (h : writes m = true) : writes n = true := by
  rw [writes_iff] at h ⊢
  rw [hn.tasks]
  exact ⟨h.1, fun host hhost => h.2 host (hn.resources.mem_iff.mp hhost)⟩

theorem bindAll_ok {rest : List (Vm Int)} {s t : Solution Float (Vm Int) (Host Int)}
    {source source' : Source Float} (hnodup : (s.mapping.tasks ++ rest).Nodup)
    (hresources : s.mapping.resources ⊆ hosts)
    (h : (bindAll hosts rest s).start source = (.ok t, source')) :
    t.mapping.tasks = s.mapping.tasks ++ rest ∧ t.mapping.resources ⊆ hosts := by
  induction rest generalizing s source with
  | nil =>
    cases h
    exact ⟨(List.append_nil _).symm, hresources⟩
  | cons vm rest ih =>
    obtain ⟨host, u, hhost, h⟩ := Attempt.exists_of_start_bind h
    obtain ⟨_, w, -, h⟩ := Attempt.exists_of_start_bind h
    have hvm : vm ∉ s.mapping.tasks := by
      intro hmem
      exact (List.nodup_append.mp hnodup).2.2 vm hmem vm List.mem_cons_self rfl
    have htasks : (s.bind vm host).mapping.tasks = s.mapping.tasks ++ [vm] := by
      rw [Solution.bind, Mapping.tasks_bind, if_neg hvm]
    have hbound : (s.bind vm host).mapping.resources ⊆ hosts := by
      intro q hq
      rcases Mapping.mem_resources_bind hq with hq | rfl
      · exact hresources hq
      · exact mem_of_randomHost hhost
    obtain ⟨ht, hrest⟩ := ih (by simpa [htasks] using hnodup) hbound h
    exact ⟨by simpa [htasks] using ht, hrest⟩

theorem fills_initial (hnodup : vms.Nodup) {first : Solution Float (Vm Int) (Host Int)}
    {source source' : Source Float}
    (h : (initial vms hosts none).start source = (.ok first, source')) :
    Fills vms hosts first.mapping := by
  by_cases hempty : vms = [] ∨ hosts = []
  · have hkept : first = nothing := by
      rw [initial_of_kept (Or.inr hempty)] at h
      cases h
      rfl
    rw [hkept]
    exact ⟨by rw [placed, if_pos hempty]; rfl, List.nil_subset _⟩
  · rw [not_or] at hempty
    rw [initial_of_ready rfl hempty.1 hempty.2] at h
    obtain ⟨htasks, hresources⟩ := bindAll_ok (by simpa [nothing, Solution.of, Mapping.empty,
      Mapping.tasks] using hnodup) (List.nil_subset _) h
    refine ⟨?_, hresources⟩
    rw [htasks, placed, if_neg (by simpa using hempty)]
    rfl

/-- A search for placements that has not begun, or one whose first placement is complete and whose
other placements rearrange it. -/
structure Settled (vms : List (Vm Int)) (hosts : List (Host Int)) (s : PlacementSearch) : Prop where
  landscape : s.landscape = Placement.landscape vms hosts
  fresh : s.progress = .fresh → s.kept = none
  found : ∀ f, s.progress.found? = some f → ∃ first, s.kept = some first ∧
    Fills vms hosts first.mapping ∧ first.mapping.Rearranges f.current.solution.mapping ∧
      first.mapping.Rearranges f.best.solution.mapping

theorem Settled.met {s : PlacementSearch} (h : Settled vms hosts s)
    {m : Meeting Float (Vm Int) (Host Int)} (hm : Search.meeting? s = some m) :
    ∃ first, s.kept = some first ∧ Fills vms hosts first.mapping ∧
      first.mapping.Rearranges m.after.current.solution.mapping ∧
        first.mapping.Rearranges m.after.best.solution.mapping := by
  obtain ⟨first, hkept, hfills, hcurrent, hbest⟩ := h.found _ (Search.found_of_meeting hm)
  obtain ⟨c, source, hc, hcandidate, -⟩ := Search.candidate_of_meeting hm
  rw [h.landscape] at hc
  have hnear : first.mapping.Rearranges m.candidate.solution.mapping := by
    rw [hcandidate, Solution.mapping_evaluated]
    exact hcurrent.trans (Mapping.Rearranges.swapped hc)
  refine ⟨first, hkept, hfills, ?_, ?_⟩
  · rcases m.after_current with hafter | hafter
    · rw [hafter]
      exact hnear
    · rw [hafter]
      exact hcurrent
  · rcases m.after_best with hafter | hafter
    · rw [hafter]
      exact hnear
    · rw [hafter]
      exact hbest

theorem kept_settled (hnodup : vms.Nodup) :
    Kept fun (_ : List (Event Float (Vm Int) (Host Int))) s => Settled vms hosts s where
  fault h _ _ := ⟨h.landscape, h.fresh, h.found⟩
  begin := by
    intro l s first source h hfresh hfirst
    rw [h.landscape, h.fresh hfresh] at hfirst
    have hfills : Fills vms hosts first.evaluated.mapping := by
      rw [first.mapping_evaluated]
      exact fills_initial hnodup hfirst
    refine ⟨h.landscape, fun hp => (nomatch hp), fun f hf => ?_⟩
    cases hf
    exact ⟨_, rfl, hfills, .refl _, .refl _⟩
  trial := by
    intro l s b h
    obtain ⟨source, trials, ht, -⟩ := Search.start_trial_state b s
    rw [ht, Search.progressAfter]
    cases hm : Search.meeting? s with
    | none => exact ⟨h.landscape, h.fresh, h.found⟩
    | some m =>
      have hholding := Progress.found?_holding (Search.found_of_meeting hm) m.after
      refine ⟨h.landscape, fun hp => h.fresh (Progress.fresh_of_holding hp), fun f hf => ?_⟩
      change (s.progress.holding m.after).found? = some f at hf
      rw [hholding] at hf
      cases hf
      exact h.met hm
  count h := ⟨h.landscape, h.fresh, h.found⟩
  age h _ := ⟨h.landscape, h.fresh, h.found⟩
  told _ _ h _ := h
  finish := by
    intro l s h
    refine ⟨h.landscape, fun hp => h.fresh (Progress.fresh_of_finish hp), fun f hf => h.found f ?_⟩
    rwa [Progress.found?_finish] at hf
  time _ h := ⟨h.landscape, h.fresh, h.found⟩

/-- Written entries that tell a host for each machine: each machine of the list has one entry, in the
order of the list, and there are no others. Without machines or without hosts there are none. -/
structure Complete (vms : List (Vm Int)) (hosts : List (Host Int))
    (labels : List (String × String)) : Prop where
  machines : labels.map (·.1) = (placed vms hosts).map toString
  nodup : (labels.map (·.1)).Nodup
  hosts : ∀ e ∈ labels, ∃ host ∈ hosts, e.2 = toString host

/-- An answer that is a complete placement on the hosts of the first one, in some order. -/
def Rehouses (vms : List (Vm Int)) (hosts : List (Host Int)) (initial answer : Datum) : Prop :=
  ∃ first labels, initial = .ofLabels first ∧ answer = .ofLabels labels ∧
    Complete vms hosts first ∧ Complete vms hosts labels ∧
      (labels.map (·.2)).Perm (first.map (·.2))

theorem nodup_placed (hids : (vms.map (·.id)).Nodup) : ((placed vms hosts).map toString).Nodup := by
  rw [placed]
  split
  · exact List.nodup_nil
  · rw [List.Nodup, List.pairwise_map] at hids ⊢
    exact hids.imp fun hne heq => hne (toString_vm_injective heq)

namespace Fills

variable {m n : Mapping (Vm Int) (Host Int)}

theorem nodup (h : Fills vms hosts m) (hids : (vms.map (·.id)).Nodup) :
    (m.tasks.map toString).Nodup := by
  rw [h.tasks]
  exact nodup_placed hids

theorem complete (h : Fills vms hosts m) (hids : (vms.map (·.id)).Nodup) :
    Complete vms hosts m.labels := by
  have hmachines : m.labels.map (·.1) = m.tasks.map toString := by
    simp [Mapping.labels, Mapping.tasks]
  refine ⟨by rw [hmachines, h.tasks], by rw [hmachines]; exact h.nodup hids, fun e he => ?_⟩
  obtain ⟨x, hx, rfl⟩ := List.mem_map.mp he
  exact ⟨x.2, h.resources (List.mem_map_of_mem hx), rfl⟩

theorem rehouses (h : Fills vms hosts m) (hids : (vms.map (·.id)).Nodup) (hn : m.Rearranges n) :
    Rehouses vms hosts (.dict (Search.mappingEntries m)) (.dict (Search.mappingEntries n)) := by
  have hfills := h.rearranged hn
  refine ⟨m.labels, n.labels, Mapping.mappingEntries_eq (h.nodup hids),
    Mapping.mappingEntries_eq (hfills.nodup hids), h.complete hids, hfills.complete hids, ?_⟩
  have hlabels : ∀ k : Mapping (Vm Int) (Host Int),
      k.labels.map (·.2) = k.resources.map toString := by
    intro k
    simp [Mapping.labels, Mapping.resources]
  rw [hlabels, hlabels]
  exact hn.resources.map toString

end Fills

theorem Settled.rehouses {s : PlacementSearch} (h : Settled vms hosts s)
    (hids : (vms.map (·.id)).Nodup) {f : Found Float (Vm Int) (Host Int)}
    (hf : s.progress.found? = some f) :
    ∃ first, s.kept = some first ∧
      Rehouses vms hosts (.dict (Search.mappingEntries first.mapping)) s.currentMapping ∧
        Rehouses vms hosts (.dict (Search.mappingEntries first.mapping)) s.bestMapping := by
  obtain ⟨first, hkept, hfills, hcurrent, hbest⟩ := h.found f hf
  refine ⟨first, hkept, ?_, ?_⟩
  · rw [Search.currentMapping, hf]
    exact hfills.rehouses hids hcurrent
  · rw [Search.bestMapping, hf]
    exact hfills.rehouses hids hbest

end Placement
end AssignmentSearch
