import AssignmentSearch.Placement.Machine
import AssignmentSearch.Search.Landscape

/-!
# Placements as a landscape

The first placement puts every machine on a host drawn at random; candidates exchange the hosts of
two machines.
-/

namespace AssignmentSearch

namespace Placement

variable {α κ : Type} [Quantity α] [Count α κ] [BEq κ] [Key κ]

def leastIndex : Int := -(Nat.pow 2 63 : Nat)

/-- The element at an index; indices below zero count from the end. -/
def elementAt (hosts : List (Host κ)) (i : Int) : Except Fault (Host κ) :=
  let j := if i < 0 then i + hosts.length else i
  match if j < 0 then none else hosts[j.toNat]? with
  | some host => .ok host
  | none => .error (if i < leastIndex then .positionTooLarge else .noSuchPosition)

def randomHost (hosts : List (Host κ)) : Attempt (Source α) (Host κ) := do
  let i ← Source.index hosts.length
  Attempt.lift (elementAt hosts i)

/-- Binds machines in order, each to a random host that is drawn first. -/
def bindAll (hosts : List (Host κ)) :
    List (Vm κ) → Solution α (Vm κ) (Host κ) → Attempt (Source α) (Solution α (Vm κ) (Host κ))
  | [], s => return s
  | vm :: rest, s => do
    let host ← randomHost hosts
    Attempt.lift (Key.permit vm)
    bindAll hosts rest (s.bind vm host)

def nothing : Solution α (Vm κ) (Host κ) := .of costModel .empty

/-- The first placement: drawn once, as soon as there are machines and hosts, and kept from then on.
Before that it is empty. -/
def initial (vms : List (Vm κ)) (hosts : List (Host κ))
    (kept : Option (Solution α (Vm κ) (Host κ))) :
    Attempt (Source α) (Solution α (Vm κ) (Host κ)) :=
  let present := kept.getD nothing
  if present.mapping.isEmpty && !vms.isEmpty && !hosts.isEmpty then bindAll hosts vms nothing
  else pure present

section Initial

variable {vms : List (Vm κ)} {hosts : List (Host κ)} {kept : Option (Solution α (Vm κ) (Host κ))}

/-- Nothing is drawn without machines or hosts, nor when there is a placement. -/
theorem initial_of_kept
    (h : (kept.getD nothing).mapping.isEmpty = false ∨ vms = [] ∨ hosts = []) :
    initial vms hosts kept = pure (kept.getD nothing) := by
  rw [initial, if_neg]
  rcases h with h | rfl | rfl
  · simp [h]
  · simp
  · simp

theorem initial_of_ready (hkept : (kept.getD nothing).mapping.isEmpty = true) (hvms : vms ≠ [])
    (hhosts : hosts ≠ []) : initial vms hosts kept = bindAll hosts vms nothing := by
  rw [initial, if_pos (by simp [hkept, hvms, hhosts])]

end Initial

/-- A placement is written by the identifiers of its machines and hosts. -/
def writes [Written κ] (m : Mapping (Vm κ) (Host κ)) : Bool :=
  m.entries.all fun e => !Written.isLong e.1.id && !Written.isLong e.2.id

def landscape [Written κ] (vms : List (Vm κ)) (hosts : List (Host κ)) :
    Landscape α (Vm κ) (Host κ) :=
  ⟨initial vms hosts, fun _ => Landscape.swapped, writes⟩

end Placement

end AssignmentSearch
