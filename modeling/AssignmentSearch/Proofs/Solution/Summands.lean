import AssignmentSearch.Proofs.Attempts
import AssignmentSearch.Proofs.Mapping.Partition
import AssignmentSearch.Solution.Cost

/-!
# When a cost comes about

A cost is a sum of sums, and it comes about if all that is added does. What is spare of a resource
needs its capacity and the demands of its tasks; the square of it may be out of range besides.
-/

namespace AssignmentSearch

section

variable {β γ : Type} {excused : Fault → Prop} {x : Except Fault β} {f : β → Except Fault γ}

def Succeeds (x : Except Fault β) : Prop := ∃ a, x = .ok a

theorem succeeds_bind_iff : Succeeds (x >>= f) ↔ ∃ a, x = .ok a ∧ Succeeds (f a) := by
  constructor
  · rintro ⟨c, hc⟩
    obtain ⟨a, ha, hrest⟩ := exists_of_bind_ok hc
    exact ⟨a, ha, c, hrest⟩
  · rintro ⟨a, rfl, hrest⟩
    exact hrest

/-- Whether nothing goes wrong but what is excused. -/
def FailsOnly (excused : Fault → Prop) (x : Except Fault β) : Prop := ∀ e, x = .error e → excused e

theorem FailsOnly.bind (hx : FailsOnly excused x) (hf : ∀ a, x = .ok a → FailsOnly excused (f a)) :
    FailsOnly excused (x >>= f) := by
  cases x with
  | error e =>
    rintro _ ⟨⟩
    exact hx e rfl
  | ok a => exact hf a rfl

theorem Succeeds.failsOnly (h : Succeeds x) : FailsOnly excused x := by
  obtain ⟨a, rfl⟩ := h
  exact nofun

theorem failsOnly_false_iff : FailsOnly (fun _ => False) x ↔ Succeeds x := by
  refine ⟨fun h => ?_, Succeeds.failsOnly⟩
  cases x with
  | ok a => exact ⟨a, rfl⟩
  | error e => exact (h e rfl).elim

end

theorem Key.permitAll_eq_ok_iff {β : Type} [Key β] {xs : List β} :
    permitAll xs = .ok () ↔ ∀ x ∈ xs, permit x = .ok () := by
  refine ⟨fun h => ?_, permitAll_eq_ok xs⟩
  induction xs with
  | nil => exact fun x hx => absurd hx List.not_mem_nil
  | cons y rest ih =>
    obtain ⟨u, hy, hrest⟩ := exists_of_bind_ok h
    exact List.forall_mem_cons.mpr ⟨hy, ih hrest⟩

theorem Mapping.mem_tasks_iff_groups {τ ρ : Type} [BEq ρ] {m : Mapping τ ρ} {t : τ} :
    t ∈ m.tasks ↔ ∃ g ∈ m.groups, t ∈ g.2 :=
  m.perm_tasks_groups.mem_iff.symm.trans List.mem_flatMap

namespace CostModel

variable {α β τ ρ : Type} [Quantity α] {excused : Fault → Prop}

/-! ## Sums -/

theorem failsOnly_sum {amount : β → Except Fault α} {xs : List β} {acc : α}
    (h : ∀ x ∈ xs, FailsOnly excused (amount x)) : FailsOnly excused (CostModel.sum amount acc xs) := by
  induction xs generalizing acc with
  | nil => exact nofun
  | cons x rest ih =>
    obtain ⟨hx, hrest⟩ := List.forall_mem_cons.mp h
    rw [CostModel.sum]
    exact hx.bind fun a _ => ih hrest

theorem succeeds_sum_iff {amount : β → Except Fault α} {xs : List β} {acc : α} :
    Succeeds (CostModel.sum amount acc xs) ↔ ∀ x ∈ xs, Succeeds (amount x) := by
  refine ⟨fun h => ?_, fun h => failsOnly_false_iff.mp (failsOnly_sum fun x hx => (h x hx).failsOnly)⟩
  induction xs generalizing acc with
  | nil => exact fun x hx => absurd hx List.not_mem_nil
  | cons y rest ih =>
    rw [CostModel.sum, succeeds_bind_iff] at h
    obtain ⟨a, ha, hrest⟩ := h
    exact List.forall_mem_cons.mpr ⟨⟨a, ha⟩, ih hrest⟩

section Groups

variable [BEq ρ] [Key ρ] {cost : ρ → List τ → Except Fault α} {m : Mapping τ ρ}

theorem parts_of_overGroups (h : Succeeds (overGroups cost m)) :
    (∀ r ∈ m.resources, Key.permit r = .ok ()) ∧ ∀ g ∈ m.groups, Succeeds (cost g.1 g.2) := by
  rw [overGroups, succeeds_bind_iff] at h
  obtain ⟨groups, hgroups, hsum⟩ := h
  obtain ⟨u, hkeys, hsame⟩ := exists_of_bind_ok hgroups
  cases hsame
  exact ⟨Key.permitAll_eq_ok_iff.mp hkeys, succeeds_sum_iff.mp hsum⟩

theorem failsOnly_overGroups (hkeys : ∀ r ∈ m.resources, Key.permit r = .ok ())
    (h : ∀ g ∈ m.groups, FailsOnly excused (cost g.1 g.2)) : FailsOnly excused (overGroups cost m) := by
  rw [overGroups, Mapping.groupsByKey_eq_ok m hkeys]
  exact failsOnly_sum h

end Groups

/-! ## Costs of one resource -/

variable {demand : τ → Except Fault α} {capacity : ρ → Except Fault α}

/-- A cost of groups for which the resource must have a capacity and each of its tasks a demand, and
which then comes about, but for excused faults. -/
structure Needs (excused : Fault → Prop) (cost : ρ → List τ → Except Fault α)
    (demand : τ → Except Fault α) (capacity : ρ → Except Fault α) : Prop where
  needed : ∀ {r ts}, Succeeds (cost r ts) → Succeeds (capacity r) ∧ ∀ t ∈ ts, Succeeds (demand t)
  enough : ∀ {r ts}, Succeeds (capacity r) → (∀ t ∈ ts, Succeeds (demand t)) →
    FailsOnly excused (cost r ts)

theorem succeeds_spareOf_iff {r : ρ} {ts : List τ} : Succeeds (spareOf demand capacity r ts) ↔
    Succeeds (capacity r) ∧ ∀ t ∈ ts, Succeeds (demand t) := by
  rw [spareOf, succeeds_bind_iff]
  constructor
  · rintro ⟨c, hc, hrest⟩
    obtain ⟨d, hd, -⟩ := succeeds_bind_iff.mp hrest
    exact ⟨⟨c, hc⟩, succeeds_sum_iff.mp ⟨d, hd⟩⟩
  · rintro ⟨⟨c, hc⟩, hdemands⟩
    obtain ⟨d, hd⟩ := succeeds_sum_iff.mpr hdemands
    exact ⟨c, hc, succeeds_bind_iff.mpr ⟨d, hd, c - d, rfl⟩⟩

theorem needs_spareOf : Needs excused (spareOf demand capacity) demand capacity where
  needed := succeeds_spareOf_iff.mp
  enough hcapacity hdemands := (succeeds_spareOf_iff.mpr ⟨hcapacity, hdemands⟩).failsOnly

theorem needs_squareOf :
    Needs (· = .squareTooLarge) (squareOf demand capacity) demand capacity where
  needed := by
    intro r ts h
    obtain ⟨c, hc, -⟩ := succeeds_bind_iff.mp h
    exact succeeds_spareOf_iff.mp ⟨c, hc⟩
  enough := by
    intro r ts hcapacity hdemands
    have hspare := succeeds_spareOf_iff.mpr ⟨hcapacity, hdemands⟩
    refine hspare.failsOnly.bind fun c _ e he => ?_
    cases hsquare : Quantity.square? c <;> rw [hsquare] at he <;> cases he
    rfl

end CostModel

end AssignmentSearch
