import AssignmentSearch.Datum.Json
import AssignmentSearch.Search.Reason
import AssignmentSearch.Storage.Csv
import AssignmentSearch.Surroundings

/-!
# Recorders

A recorder adds a row to a table for every step of a search and writes the best result when the
search is over. Refused accesses are reported and do not disturb the search.
-/

namespace AssignmentSearch

/-- The folder of the records and the name of the search. -/
structure Recorder where
  folder : FilePath
  id : String
  deriving DecidableEq, Repr

namespace Recorder

variable {α : Type} [Printed α]

def historyPath (r : Recorder) : FilePath := r.folder.join (r.id ++ "_history.csv")

def bestPath (r : Recorder) : FilePath := r.folder.join (r.id ++ "_best.json")

def part : String := "vm_placement.heuristics.history"

def header : List String :=
  ["iter", "accepted", "reason", "current_cost_in", "candidate_cost", "current_cost_out",
    "best_cost", "strategy_state", "done"]

def flag (b : Bool) : String := if b then "1" else "0"

def columns (state : List (String × Datum)) (o : Outcome α) : List String :=
  [toString o.iteration, flag o.accepted, o.reason.text, (Printed.datum o.costBefore).text,
    (Printed.datum o.candidateCost).text, (Printed.datum o.cost).text,
    (Printed.datum o.bestCost).text, Json.compact (.object state), flag o.done]

/-- Adds the row of a step; the names of the columns come first in an empty table. -/
def appendStep (r : Recorder) (state : List (String × Datum)) (o : Outcome α) : Access Unit := do
  Files.makeFolder r.folder
  let blank ← Files.isBlankFile r.historyPath
  Files.append r.historyPath
    ((if blank then Csv.row header else "") ++ Csv.row (columns state o))

def writeBest (r : Recorder) (result : List (String × Datum)) : Access Unit :=
  Files.write r.bestPath (Json.indented (.object (("session_id", .str r.id) :: result)))

/-- Records a step. There is no fault for a state with an integer too long to be written, as there is
for such a result: the strategies that searches are given never come to one. -/
def recordStep (r : Recorder) (state : List (String × Datum)) (o : Outcome α) :
    Attempt (Surroundings α) Unit := do
  let _ ← Surroundings.tryAccess
    ⟨.error, part, "写入搜索迭代历史 CSV 时出错（已忽略）。"⟩ (r.appendStep state o)

def bestTrouble : Entry := ⟨.error, part, "写入搜索最优结果 JSON 时出错（已忽略）。"⟩

/-- Records the best result. A result that cannot be told is a fault, once its folder is there. -/
def recordBest (r : Recorder) (result : Except Fault (List (String × Datum))) :
    Attempt (Surroundings α) Unit := do
  if ← Surroundings.tryAccess bestTrouble (Files.makeFolder r.folder) then
    let fields ← Attempt.lift result
    if ← Surroundings.tryAccess bestTrouble (r.writeBest fields) then
      Surroundings.report ⟨.info, part, "已写入搜索最优结果：" ++ r.bestPath.text⟩

end Recorder

end AssignmentSearch
