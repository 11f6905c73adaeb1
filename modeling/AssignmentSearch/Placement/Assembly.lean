import AssignmentSearch.Placement.Landscape
import AssignmentSearch.Scenario.Basic
import AssignmentSearch.Search.Run
import AssignmentSearch.Settings
import AssignmentSearch.Strategy.Plan

/-!
# Assembling a placement search

What a scenario gives counts before the settings.
-/

namespace AssignmentSearch

abbrev PlacementSearch := Search Float (Plan Float) (Vm Int) (Host Int)

namespace Placement

/-- A value of a scenario, or else the one of the settings. -/
def chosen {β : Type} (write : β → Datum) (given : Option β) (otherwise : Datum) : Datum :=
  match given with
  | some x => write x
  | none => otherwise

/-- A count of a scenario, or else the one of the settings. A count of zero is as good as none. -/
def chosenCount (given : Option Int) (otherwise : Datum) : Datum :=
  match given with
  | some n => if n = 0 then otherwise else .int n
  | none => otherwise

def plan (s : Scenario) (cfg : Settings) : Except Fault (Plan Float) :=
  match s.algorithm with
  | .gravity => do
    return .gravity ⟨← Gravity.ofDatum (chosenCount s.iterations cfg.iterations)⟩
  | .annealing => do
    return .annealing (← Annealing.ofData (chosen .float s.annealing.initial cfg.initial)
      (chosen .float s.annealing.cold cfg.cold) (chosen .float s.annealing.rate cfg.rate))

def seed (s : Scenario) (cfg : Settings) : Datum := chosen .int s.seed cfg.seed

def build (s : Scenario) (cfg : Settings) (source : Source Float) (recorder : Option Recorder) :
    Except Fault PlacementSearch := do
  Search.ofDatum (← plan s cfg) (landscape s.vms s.hosts) source
    (chosenCount s.searches cfg.searches) recorder

end Placement

end AssignmentSearch
