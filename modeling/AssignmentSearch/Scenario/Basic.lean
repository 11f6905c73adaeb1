import AssignmentSearch.Datum.Convert
import AssignmentSearch.Placement.Machine

/-!
# Scenarios

The complete input of one placement search. Parameters that a scenario leaves out are taken from the
settings.
-/

namespace AssignmentSearch

inductive Algorithm where
  | annealing
  | gravity
  deriving DecidableEq, Repr

namespace Algorithm

def name : Algorithm → String
  | annealing => "sa"
  | gravity => "gravity"

def ofName? (s : String) : Option Algorithm :=
  if s = "sa" then some annealing else if s = "gravity" then some gravity else none

end Algorithm

structure AnnealingChoice where
  initial : Option Float
  cold : Option Float
  rate : Option Float

/-- A checked scenario. -/
structure Scenario where
  name : Option String
  algorithm : Algorithm
  hosts : List (Host Int)
  vms : List (Vm Int)
  annealing : AnnealingChoice
  /-- The limit on steps under gravity. -/
  iterations : Option Int
  searches : Option Int
  seed : Option Int

namespace Scenario

def given {β : Type} (write : β → Datum) : Option β → Datum
  | none => .null
  | some x => write x

def machine (id peCount : Int) : Datum := .object [("id", .int id), ("pe_count", .int peCount)]

/-- A scenario as data, every field written out. -/
def dump (s : Scenario) : List (String × Datum) :=
  [("name", given .str s.name), ("algo", .str s.algorithm.name),
    ("hosts", .list (s.hosts.map fun h => machine h.id h.peCount)),
    ("vms", .list (s.vms.map fun v => machine v.id v.peCount)),
    ("annealing", .object [("initial_temperature", given .float s.annealing.initial),
      ("cold_temperature", given .float s.annealing.cold),
      ("cooling_rate", given .float s.annealing.rate)]),
    ("gravity", .object [("max_iterations", given .int s.iterations)]),
    ("neighborhood_searches", given .int s.searches), ("seed", given .int s.seed)]

end Scenario

end AssignmentSearch
