import AssignmentSearch.Markup.Value
import AssignmentSearch.Scenario.Check
import AssignmentSearch.Surroundings

/-!
# Where scenarios come from

A scenario is given as data, as text, or as a file with text.
-/

namespace AssignmentSearch

namespace Scenario

/-- The data of a text; `source` names the text. -/
def dataOfText (source text : String) : Except Fault Datum :=
  match Markup.read text with
  | .ok (.dict entries) => .ok (.dict entries)
  | .ok d => .error (.notMapping (some source) d.kind)
  | .error .malformed => .error (.malformedScenario source)
  | .error (.fault f) => .error f

/-- A scenario as text or data. -/
def parse : Datum → Except Fault Scenario
  | .str text => dataOfText "<text>" text >>= check
  | .dict entries => check (.dict entries)
  | d => .error (.scenarioKind d.kind)

/-- Line breaks of all systems as line feeds. -/
def plainLines : List Char → List Char
  | '\r' :: '\n' :: rest => '\n' :: plainLines rest
  | '\r' :: rest => '\n' :: plainLines rest
  | c :: rest => c :: plainLines rest
  | [] => []

/-- The text in a file. -/
def textOf (path : FilePath) (files : Files) : Except Fault String :=
  match files.locate path with
  | .error .missing | .error .notFolder | .error .nullByte => .error (.missingScenario path.text)
  | .error obstacle => .error (Denial.fault ⟨obstacle, path⟩)
  | .ok place =>
    match files.node? place with
    | none => .error (.missingScenario path.text)
    | some .folder => .error (.isDirectory path.text)
    | some (.file text) => .ok (String.ofList (plainLines text.toList))
    | some (.bytes bytes) =>
      match Utf8.decode bytes with
      | .ok text => .ok (String.ofList (plainLines text.toList))
      | .error flaw => .error (.malformedText flaw)

variable {α : Type}

/-- Takes the result of a check and reports broken rules on fields. -/
def accept (r : Except Fault Scenario) : Attempt (Surroundings α) Scenario := do
  for e in checkReport r do Surroundings.report e
  Attempt.lift r

/-- The part that reports on scenario files. -/
def part : String := "vm_placement.scenario"

/-- The scenario in a file. -/
def load (path : FilePath) : Attempt (Surroundings α) Scenario := do
  match textOf path (← get).files with
  | .error (.missingScenario name) =>
    Surroundings.report ⟨.error, part, "场景文件不存在：" ++ name⟩
    throw (.missingScenario name)
  | .error f => throw f
  | .ok text =>
    let s ← accept (dataOfText path.text text >>= check)
    Surroundings.report ⟨.info, part, "成功加载场景：path=" ++ path.text ++ ", algo=" ++
      s.algorithm.name ++ ", hosts=" ++ toString s.hosts.length ++ ", vms=" ++
      toString s.vms.length⟩
    return s

end Scenario

end AssignmentSearch
