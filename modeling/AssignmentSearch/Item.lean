import AssignmentSearch.Mapping.Figure
import AssignmentSearch.Solution.Cost

/-!
# Named items

Tasks with demands and resources with capacities, for mappings whose amounts may be any data.
-/

namespace AssignmentSearch

/-- The two sides of a mapping. -/
inductive Role where
  | task
  | resource
  deriving DecidableEq, Repr

structure Item (role : Role) where
  name : String
  amount : Figure

namespace Item

variable {role : Role} {α : Type}

instance : BEq (Item role) where
  beq a b := a.name = b.name && a.amount == b.amount

instance : Key (Item role) := ⟨fun a => Key.permit a.amount⟩

instance : ToString (Item .task) where
  toString t := "Task(name=" ++ quoted t.name ++ ", demand=" ++ t.amount.value.text ++ ")"

instance : ToString (Item .resource) where
  toString r := "Resource(name=" ++ quoted r.name ++ ", capacity=" ++ r.amount.value.text ++ ")"

/-- Items made of names and amounts, numbered in order. -/
def ofAmounts (amounts : List (String × Datum)) : List (Item role) :=
  amounts.mapIdx fun i (name, amount) => ⟨name, ⟨i, amount⟩⟩

def size (item : Item role) : Except Fault Float := item.amount.size

/-- Charges each resource in use what is spare of it. -/
def costModel : CostModel Float (Item .task) (Item .resource) :=
  .spare "MappingSolution" size size

def squaredCostModel : CostModel Float (Item .task) (Item .resource) :=
  .squared "SquaredSolution" size size

end Item

end AssignmentSearch
