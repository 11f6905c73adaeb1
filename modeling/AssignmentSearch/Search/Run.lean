import AssignmentSearch.Search.Basic

/-!
# Running a search

A search starts once, makes steps until its strategy says stop, and is over for good. Clock, records
and reports belong to the surroundings; they do not influence where the search goes.
-/

namespace AssignmentSearch

/-- A search in its surroundings. -/
abbrev Running (α σ τ ρ : Type) := Search α σ τ ρ × Surroundings α

namespace Search

variable {α σ τ ρ β : Type} [Quantity α] [Printed α] [Strategy α σ]
  [Acceptance α σ (Solution α τ ρ)]

def onSearch (x : Attempt (Search α σ τ ρ) β) : Attempt (Running α σ τ ρ) β :=
  Attempt.zoom (·.1) (fun s r => (s, r.2)) x

def onSurroundings (x : Attempt (Surroundings α) β) : Attempt (Running α σ τ ρ) β :=
  Attempt.zoom (·.2) (fun w r => (r.1, w)) x

def part : String := "vm_placement.heuristics"

def log (level : Level) (message : String) : Attempt (Running α σ τ ρ) Unit :=
  onSurroundings (Surroundings.report ⟨level, part, message⟩)

def costDatum : Option α → Datum
  | none => .null
  | some c => Printed.datum c

def snapshot (s : Search α σ τ ρ) : Except Fault (List (String × Datum)) := do
  let current ← s.currentCost?
  let best ← s.bestCost?
  return [("strategy", .str (Strategy.name s.strategy)), ("state", .str s.progress.stage.name),
    ("search_steps", .int s.steps), ("solve_time", Printed.datum s.solveTime),
    ("neighborhood_searches", s.searches), ("current_cost", costDatum current),
    ("best_cost", costDatum best)] ++ Strategy.state s.strategy

/-- The entries of a mapping by their written forms; of equal forms the last counts. -/
def mappingEntries [ToString τ] [ToString ρ] (m : Mapping τ ρ) : List (Datum × Datum) :=
  m.entries.foldl (fun acc e => Datum.put acc (.str (toString e.1)) (.str (toString e.2))) []

/-- The best mapping as data; empty before the search has begun. -/
def bestMapping [ToString τ] [ToString ρ] (s : Search α σ τ ρ) : Datum :=
  .dict ((s.progress.found?.map fun f => mappingEntries f.best.solution.mapping).getD [])

def currentMapping [ToString τ] [ToString ρ] (s : Search α σ τ ρ) : Datum :=
  .dict ((s.progress.found?.map fun f => mappingEntries f.current.solution.mapping).getD [])

variable [ToString τ] [ToString ρ]

/-- A mapping as data, unless its labels cannot be written. -/
def tell (s : Search α σ τ ρ) (m : Mapping τ ρ) : Except Fault Datum :=
  if s.landscape.writes m then .ok (.dict (mappingEntries m)) else .error .unwritable

def tellBest (s : Search α σ τ ρ) : Except Fault Datum :=
  match s.progress.found? with
  | none => .ok (.dict [])
  | some f => s.tell f.best.solution.mapping

def tellCurrent (s : Search α σ τ ρ) : Except Fault Datum :=
  match s.progress.found? with
  | none => .ok (.dict [])
  | some f => s.tell f.current.solution.mapping

def result (s : Search α σ τ ρ) : Except Fault (List (String × Datum)) := do
  let fields ← s.snapshot
  let best ← s.tellBest
  if fields.any fun e => e.2.isLong then throw .unwritable
  return fields ++ [("best_mapping", best)]

/-- Ends the search and records the best result. -/
def terminate : Attempt (Running α σ τ ρ) Unit := do
  onSearch (modify fun s => { s with progress := s.progress.finish })
  let (s, _) ← get
  match s.recorder with
  | none => pure ()
  | some r => onSurroundings (r.recordBest s.result)
  let best ← Attempt.lift s.bestCost?
  log .info ("搜索结束：strategy=" ++ Strategy.name s.strategy ++ ", steps=" ++ toString s.steps ++
    ", best_cost=" ++ (costDatum best).text)

/-- Begins a search that has not begun; else nothing happens. -/
def start : Attempt (Running α σ τ ρ) Unit := do
  match (← get).1.progress with
  | .searching _ | .finished _ => return
  | .fresh =>
    let (first, cost) ← onSearch begin
    let strategy := (← get).1.strategy
    log .info ("搜索开始：strategy=" ++ Strategy.name strategy ++ ", entries=" ++
      toString first.mapping.size ++ ", initial_cost=" ++ (Printed.datum cost).text)
    if ← Attempt.lift (Strategy.stops strategy) then terminate

def settle (o : Outcome α) : Attempt (Running α σ τ ρ) Unit := do
  let (s, _) ← get
  let state := Strategy.state s.strategy
  match Strategy.note s.strategy with
  | none => pure ()
  | some e => onSurroundings (Surroundings.report e)
  match s.recorder with
  | none => pure ()
  | some r => onSurroundings (r.recordStep state o)
  log .debug ("step：iter=" ++ toString o.iteration ++ ", accept=" ++ (Datum.bool o.accepted).text ++
    ", reason=" ++ o.reason.text ++ ", candidate_cost=" ++ (Printed.datum o.candidateCost).text ++
    ", best_cost=" ++ (Printed.datum o.bestCost).text ++ ", state=" ++ (Datum.object state).text)

/-- One step of a search, which begins if it has not begun. -/
def step : Attempt (Running α σ τ ρ) (Outcome α) := do
  start
  match (← get).1.progress with
  | .fresh | .finished _ => throw .terminated
  | .searching f =>
    let started ← onSurroundings Surroundings.readClock
    let o ← onSearch (advance f)
    settle o
    let ended ← onSurroundings Surroundings.readClock
    onSearch (modify fun s => { s with solveTime := s.solveTime + (ended - started) })
    if o.done then terminate
    return o

/-- Makes steps until the search is over, but no more than the limit; tells whether it is over. -/
def drive : Nat → Attempt (Running α σ τ ρ) Bool
  | 0 => return (← get).1.progress.stage = .terminated
  | n + 1 => do
    if (← get).1.progress.stage = .searching then
      let _ ← step
      drive n
    else return true

/-- Runs a search to its end and answers the best solution; none if the limit comes first. -/
def solve (limit : Nat) : Attempt (Running α σ τ ρ) (Option (Solution α τ ρ)) := do
  start
  if ← drive limit then
    return (← get).1.progress.found?.map (·.best.solution)
  else return none

end Search

end AssignmentSearch
