import AssignmentSearch.Proofs.Attempts
import AssignmentSearch.Scenario.Source
import AssignmentSearch.Search.Run
import Mathlib.Data.List.Nodup
import Std.Data.String.ToInt

/-!
# Written placements

A mapping is answered by the written forms of its entries. The form of a machine tells its identifier
and nothing else, so the entries of a scenario stay apart: a scenario is refused if an identifier
occurs twice.
-/

namespace AssignmentSearch

theorem toString_vm_injective {a b : Vm Int} (h : toString a = toString b) : a.id = b.id := by
  change "Vm" ++ toString a.id = "Vm" ++ toString b.id at h
  exact Int.repr_injective (String.append_right_inj _ |>.mp h)

namespace Scenario

theorem nodup_of_repeated {ids : List Int} (h : repeated ids = []) : ids.Nodup := by
  have hperm := List.mergeSort_perm (ids.filter fun i => 1 < ids.count i).eraseDups (· ≤ ·)
  rw [repeated] at h
  rw [h] at hperm
  have herased := List.nil_perm.mp hperm
  rw [List.nodup_iff_count_le_one]
  intro i
  by_contra hi
  have hmem : i ∈ (ids.filter fun i => 1 < ids.count i).eraseDups := by
    rw [List.mem_eraseDups, List.mem_filter]
    refine ⟨List.count_pos_iff.mp (by omega), by simpa using hi⟩
  rw [herased] at hmem
  cases hmem

theorem nodup_of_checkUnique {list : String} {ids : List Int} {u : Unit}
    (h : checkUnique list ids = .ok u) : ids.Nodup := by
  rw [checkUnique] at h
  split at h
  · rename_i hempty
    exact nodup_of_repeated (List.isEmpty_iff.mp hempty)
  · split at h <;> cases h

theorem nodup_of_checkRules {s : Scenario} {u : Unit} (h : checkRules s = .ok u) :
    (s.vms.map (·.id)).Nodup := by
  obtain ⟨_, -, h⟩ := exists_of_bind_ok h
  obtain ⟨_, hvms, -⟩ := exists_of_bind_ok h
  exact nodup_of_checkUnique hvms

theorem nodup_of_ofEntries {entries : List (Datum × Datum)} {s : Scenario}
    (h : ofEntries entries = .ok s) : (s.vms.map (·.id)).Nodup := by
  rw [ofEntries] at h
  split at h
  · cases h
  · cases hfields : fields entries with
    | error flaws =>
      rw [hfields] at h
      cases h
    | ok t =>
      cases hrules : checkRules t with
      | error e =>
        rw [hfields] at h
        simp only [hrules] at h
        cases h
      | ok u =>
        rw [hfields] at h
        simp only [hrules] at h
        cases h
        exact nodup_of_checkRules hrules

theorem nodup_of_check {d : Datum} {s : Scenario} (h : check d = .ok s) :
    (s.vms.map (·.id)).Nodup := by
  cases d with
  | dict entries => exact nodup_of_ofEntries h
  | _ => cases h

theorem nodup_of_parse {d : Datum} {s : Scenario} (h : parse d = .ok s) :
    (s.vms.map (·.id)).Nodup := by
  cases d with
  | str text =>
    obtain ⟨data, -, hcheck⟩ := exists_of_bind_ok h
    exact nodup_of_check hcheck
  | dict entries => exact nodup_of_check (d := .dict entries) h
  | _ => cases h

end Scenario

namespace Datum

def ofLabels (labels : List (String × String)) : Datum :=
  .dict (labels.map fun e => (.str e.1, .str e.2))

end Datum

namespace Mapping

variable {τ ρ : Type} [ToString τ] [ToString ρ]

def labels (m : Mapping τ ρ) : List (String × String) :=
  m.entries.map fun e => (toString e.1, toString e.2)

theorem foldl_put_labels {entries : List (τ × ρ)} (done : List (String × String))
    (h : (done.map (·.1) ++ entries.map fun e => toString e.1).Nodup) :
    entries.foldl (fun acc e => Datum.put acc (.str (toString e.1)) (Datum.str (toString e.2)))
        (done.map fun e => (Datum.str e.1, Datum.str e.2)) =
      (done ++ entries.map fun e => (toString e.1, toString e.2)).map
        fun e => (Datum.str e.1, Datum.str e.2) := by
  induction entries generalizing done with
  | nil => simp
  | cons e rest ih =>
    have hfresh : ∀ d ∈ done.map fun e => (Datum.str e.1, Datum.str e.2),
        d.1.sameKey (.str (toString e.1)) = false := by
      intro d hd
      obtain ⟨x, hx, rfl⟩ := List.mem_map.mp hd
      have hne : x.1 ≠ toString e.1 :=
        List.nodup_append.mp h |>.2.2 x.1 (List.mem_map_of_mem hx) (toString e.1)
          (List.mem_map_of_mem (f := fun e : τ × ρ => toString e.1) List.mem_cons_self)
      simpa [Datum.sameKey] using hne
    rw [List.foldl_cons, Datum.put_of_fresh _ hfresh]
    have ih' := ih (done ++ [(toString e.1, toString e.2)]) (by simpa using h)
    simpa using ih'

theorem mappingEntries_eq {m : Mapping τ ρ} (h : (m.tasks.map toString).Nodup) :
    Datum.dict (Search.mappingEntries m) = Datum.ofLabels m.labels := by
  have hnodup : (m.entries.map fun e => toString e.1).Nodup := by
    rwa [tasks, List.map_map] at h
  exact congrArg Datum.dict (foldl_put_labels [] hnodup)

end Mapping
end AssignmentSearch
