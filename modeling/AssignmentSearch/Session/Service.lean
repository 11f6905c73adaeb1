import AssignmentSearch.Scenario.Source
import AssignmentSearch.Session.Registry

/-!
# The session service

Calls that create, step, inspect, run and close searches by identifier. A call answers with a reply
that says whether it succeeded, and reports what went wrong.
-/

namespace AssignmentSearch

structure Reply where
  success : Bool
  fields : List (String × Datum)

def Reply.dump (r : Reply) : List (String × Datum) := ("success", .bool r.success) :: r.fields

/-- The registry with all that calls draw on: fresh identifiers, seeds for searches without one, and
the environment for calls without settings. -/
structure Service where
  registry : Registry
  ids : Nat → String
  entropy : Nat → Nat
  issued : Nat
  root : String
  environment : Environment
  surroundings : Surroundings Float

namespace Service

variable {β : Type}

def part : String := "vm_placement.tools"

def onSurroundings (x : Attempt (Surroundings Float) β) : Attempt Service β :=
  Attempt.zoom (·.surroundings) (fun w s => { s with surroundings := w }) x

def log (level : Level) (message : String) : Attempt Service Unit :=
  onSurroundings (Surroundings.report ⟨level, part, message⟩)

def freshId : Attempt Service String := do
  modify fun s => { s with issued := s.issued + 1 }
  let s ← get
  return s.ids s.issued

/-- Runs an attempt on the search of a session, which is registered with what becomes of it. -/
def onSearch (session : Session) (x : Attempt (Running Float (Plan Float) (Vm Int) (Host Int)) β) :
    Attempt Service β := Attempt.of fun s =>
  let search := ((s.registry.get? session.id).getD session).search
  let (r, (search, w)) := x.start (search, s.surroundings)
  (r, { s with registry := s.registry.put { session with search }, surroundings := w })

def search (session : Session) : Attempt Service PlacementSearch := do
  return (((← get).registry.get? session.id).getD session).search

def snapshot (session : Session) : Attempt Service Datum := do
  let s ← search session
  return .object (← Attempt.lift s.snapshot)

def failure (fields : List (String × Datum)) (error : String) : Reply :=
  ⟨false, fields ++ [("error", .str error)]⟩

def unknown (id : String) : Reply :=
  failure [] ("未找到 session_id=" ++ id ++ " 对应的搜索会话。")

/-- The settings of a call, or those of the environment. -/
def settingsFor (given : Option Settings) : Attempt Service Settings := do
  match given with
  | some cfg => return cfg
  | none =>
    let s ← get
    Attempt.lift (Settings.ofEnvironment s.root s.environment)

/-- The recorder for a folder; none without one. -/
def recorderIn (folder : Datum) (id : String) : Except Fault (Option Recorder) :=
  match folder with
  | .str path => .ok (if path = "" then none else some ⟨FilePath.ofText path, id⟩)
  | d => if d.isTrue then .error (.notPath d.kind) else .ok none

/-- Registers a new session for a scenario; the search has not begun. -/
def register (scenario : Datum) (history : Option Datum) (given : Option Settings) :
    Attempt Service Session := do
  let cfg ← settingsFor given
  let parsed ← onSurroundings (Scenario.accept (Scenario.parse scenario))
  let id ← freshId
  let recorder ← Attempt.lift (recorderIn (history.getD cfg.historyFolder) id)
  let s ← get
  let source ← Attempt.lift (Source.seeded (Placement.seed parsed cfg) (s.entropy s.issued))
  let search ← Attempt.lift (Placement.build parsed cfg source recorder)
  let session : Session :=
    ⟨id, parsed.algorithm.name, [("name", Scenario.given .str parsed.name)], parsed.vms,
      parsed.hosts, search⟩
  modify fun s => { s with registry := s.registry.put session }
  return session

/-- Registers a session and begins its search. -/
def begin (scenario : Datum) (history : Option Datum) (given : Option Settings) :
    Attempt Service (Session × Reply) := do
  let session ← register scenario history given
  onSearch session Search.start
  log .info ("搜索会话创建成功：session_id=" ++ session.id ++ ", algo=" ++ session.algorithm ++
    ", vms=" ++ toString session.vms.length ++ ", hosts=" ++ toString session.hosts.length)
  let state ← snapshot session
  let current ← search session
  let initial ← Attempt.lift current.tellCurrent
  return (session, ⟨true, [("session_id", .str session.id), ("algo", .str session.algorithm),
    ("state", state), ("initial_mapping", initial)]⟩)

/-- Creates a session; the answer names it unless the call failed. -/
def create (scenario : Datum) (history : Option Datum) (given : Option Settings) :
    Attempt Service (Option Session × Reply) := do
  match ← Attempt.outcome (begin scenario history given) with
  | .ok (session, reply) => return (some session, reply)
  | .error f =>
    log .error ("搜索会话创建失败：" ++ f.message)
    return (none, failure [] ("搜索会话创建失败: " ++ f.message))

def inspect (id : String) : Attempt Service Reply := do
  match (← get).registry.get? id with
  | none => return unknown id
  | some session =>
    let state ← snapshot session
    let best ← Attempt.lift session.search.tellBest
    return ⟨true, [("session_id", .str session.id), ("algo", .str session.algorithm),
      ("state", state), ("best_mapping", best)]⟩

/-- One step of a session that is not over. -/
def step (id : String) : Attempt Service Reply := do
  match (← get).registry.get? id with
  | none => return unknown id
  | some session =>
    if session.search.progress.stage = .terminated then
      let state ← snapshot session
      return ⟨false, [("session_id", .str id), ("error", .str ("会话 " ++ id ++ " 的搜索已经结束。")),
        ("state", state)]⟩
    match ← Attempt.outcome (onSearch session Search.step) with
    | .error f =>
      log .error ("搜索迭代失败：session_id=" ++ id)
      return failure [("session_id", .str id)] ("搜索迭代失败: " ++ f.message)
    | .ok o =>
      let state ← snapshot session
      return ⟨true, [("session_id", .str id)] ++ o.fields ++ [("state", state)]⟩

def release (id : String) : Attempt Service Unit :=
  modify fun s => { s with registry := s.registry.remove id }

/-- Runs a session to its end and releases it; no reply if the limit comes first. -/
def finish (limit : Nat) (session : Session) (created : Reply) :
    Attempt Service (Option Reply) := do
  let r ← Attempt.outcome (onSearch session (Search.solve limit))
  let search ← search session
  match r with
  | .error f =>
    log .error ("搜索失败：session_id=" ++ session.id)
    release session.id
    return some (failure [("session_id", .str session.id)] ("搜索失败: " ++ f.message))
  | .ok none =>
    release session.id
    return none
  | .ok (some best) =>
    release session.id
    let cost ← Attempt.lift best.costValue
    let mapping ← Attempt.lift (search.tell best.mapping)
    let initial := ((created.fields.lookup "initial_mapping").getD .null)
    let state ← Attempt.lift search.snapshot
    return some ⟨true, [("session_id", .str session.id), ("algo", .str session.algorithm),
      ("best_cost", .float cost), ("best_mapping", mapping), ("initial_mapping", initial),
      ("state", .object state)]⟩

/-- Creates a session and runs it to its end; no reply if the limit on steps comes first. -/
def run (limit : Nat) (scenario : Datum) (history : Option Datum) (given : Option Settings) :
    Attempt Service (Option Reply) := do
  match ← create scenario history given with
  | (none, reply) => return some reply
  | (some session, reply) => finish limit session reply

def close (id : String) : Attempt Service Reply := do
  match (← get).registry.get? id with
  | none => return unknown id
  | some _ =>
    release id
    return ⟨true, [("session_id", .str id)]⟩

end Service

end AssignmentSearch
