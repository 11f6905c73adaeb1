import AssignmentSearch.Strategy.Annealing
import AssignmentSearch.Strategy.Gravity

/-!
# Plans

The strategies a search can be given, as one type.
-/

namespace AssignmentSearch

/-- A strategy with one probability for all candidates and a fixed number of steps, both as they
were entered. -/
structure Constant (α : Type) where
  probability : Scalar α
  limit : Scalar α
  steps : Nat

def Constant.isDone {α : Type} [Quantity α] (s : Constant α) : Except Fault Bool :=
  match s.limit.numeral? with
  | some m => .ok (m.le (.whole s.steps))
  | none => .error (.notOrdered ">=" "int" s.limit.kind)

instance {α β : Type} : Acceptance α (Constant α) β where
  acceptance := fun s _ _ => .ok s.probability

instance {α : Type} [Quantity α] : Strategy α (Constant α) where
  name := fun _ => "const"
  stops := Constant.isDone
  age := fun s => .ok { s with steps := s.steps + 1 }
  note := fun _ => none
  state := fun _ => []

inductive Plan (α : Type) where
  | annealing (s : Annealing α)
  | gravity (s : GravityOver α)
  | constant (s : Constant α)

namespace Plan

variable {α : Type} [Quantity α] [Printed α]

instance {β : Type} [Costed α β] : Acceptance α (Plan α) β where
  acceptance
    | annealing s => Strategy.acceptance s
    | gravity s => Strategy.acceptance s
    | constant s => Strategy.acceptance s

instance : Strategy α (Plan α) where
  name
    | annealing s => Strategy.name s
    | gravity s => Strategy.name s
    | constant s => Strategy.name s
  stops
    | annealing s => Strategy.stops s
    | gravity s => Strategy.stops s
    | constant s => Strategy.stops s
  age
    | annealing s => annealing <$> Strategy.age s
    | gravity s => gravity <$> Strategy.age s
    | constant s => constant <$> Strategy.age s
  note
    | annealing s => Strategy.note s
    | gravity s => Strategy.note s
    | constant s => Strategy.note s
  state
    | annealing s => Strategy.state s
    | gravity s => Strategy.state s
    | constant s => Strategy.state s

omit [Quantity α] [Printed α]

def setTemperature (t : Scalar α) : Plan α → Plan α
  | annealing s => annealing { s with temperature := t }
  | p => p

def scalar : Plan α → Datum
  | annealing s => s.temperature.datum
  | gravity s => .int s.gravity.iteration
  | constant s => .int s.steps

end Plan

end AssignmentSearch
