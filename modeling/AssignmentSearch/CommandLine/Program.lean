import AssignmentSearch.CommandLine.Arguments
import AssignmentSearch.CommandLine.LogFolder
import AssignmentSearch.Datum.Json
import AssignmentSearch.Session.Service

/-!
# The program

Reads a scenario, runs its search to the end and shows the best placement.
-/

namespace AssignmentSearch

/-- What a run shows: its exit code and what it prints. -/
structure Display where
  code : Nat
  output : String
  errors : String
  deriving DecidableEq, Repr

inductive Ending where
  /-- The command line was turned down, or asked for the usage. -/
  | stopped (stop : Stop)
  | shown (display : Display)
  /-- A fault that the program does not handle. -/
  | failed (fault : Fault)
  /-- The limit on steps came first. -/
  | unfinished

namespace Program

structure Result where
  ending : Ending
  log : Option Log
  entries : List Entry

def part : String := "vm_placement.cli"

def failure (code : Nat) (message : String) : Display := ⟨code, "", "[错误] " ++ message ++ "\n"⟩

def report (level : Level) (message : String) : Attempt Service Unit :=
  Service.onSurroundings (Surroundings.report ⟨level, part, message⟩)

/-- Whether the program shows a fault of the scenario and goes no further. -/
def isHandled (f : Fault) : Bool := f.kind = .missingFile ∨ f.kind = .configuration

/-- An entry of a scenario, with the value that the arguments put in its place. -/
def override (a : Arguments) : String × Datum → String × Datum
  | (name, value) =>
    if name = "algo" then (name, (a.algorithm.value?.map fun x => Datum.str x.name).getD value)
    else if name = "seed" then
      match a.seed with
      | .absent => (name, value)
      | .blank => (name, .list [])
      | .given n => (name, .int n)
    else (name, value)

def overridden (a : Arguments) (s : Scenario) : Datum := .object (s.dump.map (override a))

def logFolder (a : Arguments) (cfg : Settings) : FilePath :=
  a.logFolder.value?.getD (FilePath.ofText cfg.logFolder)

/-- The folder for records that the arguments name; a blank one stands for no records. -/
def historyFolder (a : Arguments) : Option Datum :=
  match a.historyFolder with
  | .absent => none
  | .blank => some (.str "")
  | .given folder => some (.str folder)

def threshold (a : Arguments) : Nat := if a.verbose then Level.debug.number else Level.info.number

def field (d : Datum) (name : String) : Datum :=
  match d with
  | .dict entries => (Datum.get? entries name).getD .null
  | _ => .null

/-- A double in a form of its own, other data as they are written. -/
def real (write : Float → String) : Datum → String
  | .float x => write x
  | d => d.text

def mappingLines : Datum → List String
  | .dict entries => entries.map fun (vm, host) => "  " ++ vm.plain ++ " -> " ++ host.plain
  | _ => []

def summary (reply : Datum) : List String :=
  let state := field reply "state"
  ["算法          : " ++ (field reply "algo").plain,
    "迭代次数      : " ++ (field state "search_steps").plain,
    "耗时          : " ++ real (fixedText 4) (field state "solve_time") ++ " 秒",
    "最优代价      : " ++ real (generalText 6) (field reply "best_cost"),
    "最优映射      :"] ++ mappingLines (field reply "best_mapping")

def display (a : Arguments) (reply : Reply) : Display :=
  let data := Datum.object reply.dump
  if reply.success then
    if a.json then ⟨0, Json.indented data ++ "\n", ""⟩
    else ⟨0, String.join ((summary data).map (· ++ "\n")), ""⟩
  else failure 1 ((field data "error").plain)

def search (limit : Nat) (a : Arguments) (cfg : Settings) (s : Scenario) :
    Attempt Service Ending := do
  match ← Service.run limit (overridden a s) (historyFolder a) (some cfg) with
  | some reply => return .shown (display a reply)
  | none => return .unfinished

def body (limit : Nat) (a : Arguments) (cfg : Settings) (log : Log) : Attempt Service Ending := do
  report .info ("=== 新运行启动，日志文件：" ++ log.file.name ++ " ===")
  match ← Attempt.outcome (Service.onSurroundings (Scenario.load a.scenario)) with
  | .ok s => search limit a cfg s
  | .error f =>
    if isHandled f then
      report .error ("加载场景失败：" ++ f.message)
      return .shown (failure 2 f.message)
    else throw f

def ending : Except Fault Ending → Ending
  | .ok e => e
  | .error f => .failed f

/-- The reports that came after the given number of them, in order. -/
def since (count : Nat) (journal : Journal) : List Entry :=
  (journal.take (journal.length - count)).reverse

def logged (limit : Nat) (a : Arguments) (cfg : Settings) (log : Log) (s : Service) :
    Result × Service :=
  let count := s.surroundings.journal.length
  let (r, s) := (body limit a cfg log).start s
  (⟨ending r, some log, log.taken (since count s.surroundings.journal)⟩, s)

def withSettings (limit : Nat) (time : String) (a : Arguments) (cfg : Settings) (s : Service) :
    Result × Service :=
  let opening := LogFolder.openLog (logFolder a cfg) time (threshold a)
  match (Service.onSurroundings opening).start s with
  | (.ok log, s) => logged limit a cfg log s
  | (.error f, s) => (⟨.failed f, none, []⟩, s)

/-- Runs the program on a command line. -/
def run (limit : Nat) (time : String) (texts : List String) (s : Service) :
    Result × Service :=
  match Arguments.ofTexts texts with
  | .error stop => (⟨.stopped stop, none, []⟩, s)
  | .ok a =>
    match Settings.ofEnvironment s.root s.environment with
    | .error f =>
      (⟨.shown (failure 2 ("环境变量配置不合法：" ++ f.message)), none, []⟩, s)
    | .ok cfg => withSettings limit time a cfg s

end Program

end AssignmentSearch
