import AssignmentSearch.CommandLine.Program
import Std.Time.Zoned

/-!
# The command

Runs the program on the files, the environment and the clock of the system. The program itself is a
function; this module looks up what it reads, and carries out what it changed.
-/

namespace AssignmentSearch

namespace Command

def settingNames : List String :=
  ["VMPLACE_INITIAL_TEMPERATURE", "VMPLACE_COLD_TEMPERATURE", "VMPLACE_COOLING_RATE",
    "VMPLACE_MAX_ITERATIONS", "VMPLACE_NEIGHBORHOOD_SEARCHES", "VMPLACE_SEED",
    "VMPLACE_HISTORY_DIR", "VMPLACE_LOG_DIR"]

def usage : String :=
  "usage: vmplace [-h] [--algo \x7bsa,gravity\x7d] [--seed SEED] [--history-dir HISTORY_DIR]\n" ++
  "               [--log-dir LOG_DIR] [--json] [-v]\n" ++
  "               scenario\n"

/-- More steps than any search is given time for. -/
def stepLimit : Nat := 1000000000000

def environment : IO Environment :=
  settingNames.filterMapM fun name => do return (← IO.getEnv name).map fun value => (name, value)

def placeText : List String → String
  | "/" :: names => "/" ++ "/".intercalate names
  | "//" :: names => "//" ++ "/".intercalate names
  | names => "/".intercalate names

def look (place : List String) : IO (Option Node) := do
  let path := placeText place
  if ← ((← IO.currentDir) / path).isDir then return some .folder
  try return some (.bytes (← IO.FS.readBinFile path).toList)
  catch _ => return none

/-- The places that a path leads over. -/
def stations (path : FilePath) : List (List String) :=
  (List.range path.parts.length).map fun i => FilePath.place ⟨path.root, path.parts.take (i + 1)⟩

/-- Looks up a path and the folders that lead to it. -/
def survey (files : Files) (path : FilePath) : IO Files :=
  (stations path).foldlM (fun f place => do
    return match ← look place with
      | some node => f.set place node
      | none => f) files

/-- Looks up the logs in a folder, with the times of their last change in nanoseconds. -/
def surveyLogs (files : Files) (folder : FilePath) : IO Files := do
  let found ← try ((← IO.currentDir) / folder.text).readDir catch _ => pure #[]
  found.foldlM (fun f entry => do
    if LogFolder.isLogName entry.fileName then
      let place := folder.place ++ [entry.fileName]
      let time := (← entry.path.metadata).modified
      let nanoseconds := time.sec * 1000000000 + (time.nsec.toNat : Int)
      let node := if ← entry.path.isDir then Node.folder else .bytes []
      return { f.set place node with
        changed := fun p => if p = place then nanoseconds else f.changed p }
    else return f) files

/-- The files that a run may look at. -/
def filesFor (root : String) (env : Environment) (texts : List String) : IO Files := do
  match Arguments.ofTexts texts, Settings.ofEnvironment root env with
  | .ok a, .ok cfg =>
    let files ← survey .empty a.scenario
    let history := (Program.historyFolder a).getD cfg.historyFolder
    let files ← survey files (FilePath.ofText history.plain)
    let folder := Program.logFolder a cfg
    surveyLogs (← survey files folder) folder
  | _, _ => return .empty

/-- Carries out what became of the files. -/
def carryOut (before after : Files) : IO Unit := do
  for (place, node) in after.nodes do
    if before.node? place ≠ some node then
      match node with
      | .folder => IO.FS.createDirAll (placeText place)
      | .file text => IO.FS.writeFile (placeText place) text
      | .bytes content => IO.FS.writeBinFile (placeText place) ⟨content.toArray⟩
  for (place, _) in before.nodes do
    if (after.node? place).isNone then IO.FS.removeFile (placeText place)

def padded (count : Nat) (n : Int) : String :=
  let digits := toString n.toNat
  String.ofList (List.replicate (count - digits.length) '0') ++ digits

/-- A time as it stands in the names of logs. -/
def nameTime (t : Std.Time.PlainDateTime) : String :=
  padded 4 t.year.toInt ++ padded 2 t.month.val ++ padded 2 t.day.val ++ "_" ++
    padded 2 t.hour.val ++ padded 2 t.minute.val ++ padded 2 t.second.val

/-- A time as it stands before the lines of logs. -/
def lineTime (t : Std.Time.PlainDateTime) : String :=
  padded 4 t.year.toInt ++ "-" ++ padded 2 t.month.val ++ "-" ++ padded 2 t.day.val ++ " " ++
    padded 2 t.hour.val ++ ":" ++ padded 2 t.minute.val ++ ":" ++ padded 2 t.second.val ++ "," ++
    padded 3 (t.nanosecond.val / 1000000)

def randomNumber : IO Nat := do
  return (← IO.getRandomBytes 8).toList.foldl (fun n b => n * 256 + b.toNat) 0

def writeLog (r : Program.Result) : IO Unit := do
  match r.log with
  | none => return
  | some log =>
    let time := lineTime (← Std.Time.PlainDateTime.now)
    let lines := r.entries.map fun e => time ++ " " ++ Log.line e ++ "\n"
    IO.FS.writeFile (placeText log.file.place) (String.join lines)

/-- Shows how a run ended, and gives its exit code. -/
def conclude (ending : Ending) : IO UInt32 := do
  match ending with
  | .stopped .help => IO.print usage; return 0
  | .stopped (.refused r) => IO.eprint (usage ++ "vmplace: error: " ++ r.message ++ "\n"); return 2
  | .shown s => IO.print s.output; IO.eprint s.errors; return s.code.toUInt32
  | .failed f => IO.eprintln f.message; return 1
  | .unfinished => return 1

/-- The run of a command line at a time, and the seconds it took. The clock of the program moves by
`tick`. -/
def timed (name : String) (texts : List String) (service : Service) (tick : Float) :
    IO ((Program.Result × Service) × Float) := do
  let begun ← IO.monoNanosNow
  let surroundings := { service.surroundings with tick }
  let r ← IO.lazyPure fun _ => Program.run stepLimit name texts { service with surroundings }
  let ended ← IO.monoNanosNow
  return (r, (ended - begun).toFloat / 1e9)

/-- Runs a command line. A first run measures the time of a step, of which the second is told. -/
def run (texts : List String) : IO UInt32 := do
  let root := ((← IO.appDir).parent.getD ".").toString
  let env ← environment
  let files ← filesFor root env texts
  let number ← randomNumber
  let name := nameTime (← Std.Time.PlainDateTime.now)
  let ids := fun n => String.ofList (hexDigits 8 ((number + n) % 0x100000000))
  let service : Service := ⟨[], ids, fun _ => number, 0, root, env, ⟨0, 1, files, []⟩⟩
  let ((_, trial), seconds) ← timed name texts service 1
  let steps := trial.surroundings.now / 2
  let tick := if 0 < steps then seconds / steps else 0
  let ((r, after), _) ← timed name texts service tick
  carryOut files after.surroundings.files
  writeLog r
  conclude r.ending

end Command

end AssignmentSearch

def main (texts : List String) : IO UInt32 := AssignmentSearch.Command.run texts
