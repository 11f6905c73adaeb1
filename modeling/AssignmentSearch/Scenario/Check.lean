import AssignmentSearch.Journal
import AssignmentSearch.Scenario.Basic
import AssignmentSearch.Scenario.Field
import AssignmentSearch.Strategy.Annealing

/-!
# Checking a scenario

First every field on its own, with all flaws in one fault; then the rules between fields, of which
the first broken one is the fault: identifiers are unique, given numbers are finite, and the cold
temperature is below the initial one.
-/

namespace AssignmentSearch

namespace Scenario

open Checked FieldValue

/-- The fields of a machine or host; `count` reads a missing count. -/
def machineFields (count : Checked Int) (entries : List (Datum × Datum)) : Checked (Int × Int) :=
  (named entries "id" (flaw .missing) int).both
    (named entries "pe_count" count (intFrom 1 .greaterThan))

def hostField (d : Datum) : Checked (Host Int) :=
  (model (machineFields (flaw .missing)) d).map fun (id, count) => ⟨id, count⟩

/-- A virtual machine; it asks for one processing element unless it says otherwise. -/
def vmField (d : Datum) : Checked (Vm Int) :=
  (model (machineFields (.ok 1)) d).map fun (id, count) => ⟨id, count⟩

def annealingFields (entries : List (Datum × Datum)) : Checked AnnealingChoice :=
  (((named entries "initial_temperature" (.ok none) (optional positive)).both
    (named entries "cold_temperature" (.ok none) (optional positive))).both
    (named entries "cooling_rate" (.ok none) (optional fraction))).map
    fun ((initial, cold), rate) => ⟨initial, cold, rate⟩

def gravityFields (entries : List (Datum × Datum)) : Checked (Option Int) :=
  named entries "max_iterations" (.ok none) (optional (intFrom 1 .greaterThanEqual))

def algorithmField : Datum → Checked Algorithm
  | .str s => match Algorithm.ofName? s with
    | some a => .ok a
    | none => flaw .literalError
  | _ => flaw .literalError

def fields (entries : List (Datum × Datum)) : Checked Scenario :=
  (((((((named entries "name" (.ok none) (optional text)).both
    (named entries "algo" (.ok .annealing) algorithmField)).both
    (named entries "hosts" (.ok []) (list hostField))).both
    (named entries "vms" (.ok []) (list vmField))).both
    (named entries "annealing" (.ok ⟨none, none, none⟩) (model annealingFields))).both
    (named entries "gravity" (.ok none) (model gravityFields))).both
    ((named entries "neighborhood_searches" (.ok none)
      (optional (intFrom 1 .greaterThanEqual))).both
      (named entries "seed" (.ok none) (optional int)))).map
    fun ((((((name, algorithm), hosts), vms), annealing), iterations), (searches, seed)) =>
      ⟨name, algorithm, hosts, vms, annealing, iterations, searches, seed⟩

/-- The numbers that occur more than once, in increasing order. -/
def repeated (ids : List Int) : List Int :=
  ((ids.filter fun i => 1 < ids.count i).eraseDups).mergeSort (· ≤ ·)

def checkUnique (list : String) (ids : List Int) : Except Fault Unit :=
  if (repeated ids).isEmpty then .ok ()
  else if (repeated ids).any fun i => (Datum.int i).isLong then .error .unwritable
  else .error (.duplicateIds list (repeated ids))

def checkFinite (field : String) : Option Float → Except Fault Unit
  | some x => if Annealing.isFinite x then .ok () else .error (.fieldNotFinite field x)
  | none => .ok ()

def checkRules (s : Scenario) : Except Fault Unit := do
  checkUnique "hosts" (s.hosts.map (·.id))
  checkUnique "vms" (s.vms.map (·.id))
  checkFinite "initial_temperature" s.annealing.initial
  checkFinite "cold_temperature" s.annealing.cold
  checkFinite "cooling_rate" s.annealing.rate
  match s.annealing.initial, s.annealing.cold with
  | some initial, some cold => if initial ≤ cold then throw .fieldColdNotBelow
  | _, _ => return

def isText : Datum → Bool
  | .str _ => true
  | _ => false

def ofEntries (entries : List (Datum × Datum)) : Except Fault Scenario := do
  if !entries.all fun e => isText e.1 then throw .keyNotText
  match fields entries with
  | .error flaws => throw (.schema flaws)
  | .ok s =>
    checkRules s
    return s

def check : Datum → Except Fault Scenario
  | .dict entries => ofEntries entries
  | d => .error (.notMapping none d.kind)

/-- What is reported of a failing check: the broken rules on single fields. -/
def checkReport : Except Fault Scenario → List Entry
  | .error (.schema flaws) =>
    [⟨.error, "vm_placement.schema", "场景配置不符合要求：" ++ Flaw.summary flaws⟩]
  | _ => []

end Scenario

end AssignmentSearch
