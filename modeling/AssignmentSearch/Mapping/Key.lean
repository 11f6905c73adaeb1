import AssignmentSearch.Datum.Convert
import AssignmentSearch.Mapping.Basic

/-!
# Keys

Not every value can be told apart by equality for good. One that can is a key; another is a fault as
soon as it is looked up or grouped by.
-/

namespace AssignmentSearch

/-- Values of which some may be keys. -/
class Key (β : Type) where
  /-- A fault if the value cannot be a key. -/
  permit : β → Except Fault Unit

instance instKeyInt : Key Int := ⟨fun _ => .ok ()⟩

namespace Key

variable {β : Type} [Key β]

/-- The first of several values that cannot be a key is the fault. -/
def permitAll : List β → Except Fault Unit
  | [] => .ok ()
  | x :: rest => do
    permit x
    permitAll rest

theorem permitAll_eq_ok (xs : List β) (h : ∀ x ∈ xs, permit x = .ok ()) :
    permitAll xs = .ok () := by
  induction xs with
  | nil => rfl
  | cons x rest ih =>
    simp only [permitAll, h x (by simp)]
    exact ih fun y hy => h y (by simp [hy])

end Key

namespace Mapping

variable {τ ρ : Type}

/-- The groups of a mapping, unless a resource cannot be a key. -/
def groupsByKey [BEq ρ] [Key ρ] (m : Mapping τ ρ) : Except Fault (List (ρ × List τ)) := do
  Key.permitAll m.resources
  return m.groups

theorem groupsByKey_eq_ok [BEq ρ] [Key ρ] (m : Mapping τ ρ)
    (h : ∀ r ∈ m.resources, Key.permit r = .ok ()) : m.groupsByKey = .ok m.groups := by
  simp only [groupsByKey, Key.permitAll_eq_ok _ h]
  rfl

/-- Pairs bound one after the other, unless a task cannot be a key. -/
def ofKeyedPairs [BEq τ] [Key τ] (pairs : List (τ × ρ)) : Except Fault (Mapping τ ρ) := do
  Key.permitAll (pairs.map (·.1))
  return ofPairs pairs

end Mapping

end AssignmentSearch
