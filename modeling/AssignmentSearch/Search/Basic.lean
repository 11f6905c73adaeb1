import AssignmentSearch.Search.Landscape
import AssignmentSearch.Search.Reason
import AssignmentSearch.Search.Recorder
import AssignmentSearch.Strategy.Basic

/-!
# Searches

A search holds a current solution and the best one met so far. A trial meets one candidate, takes or
leaves it, and keeps it as the best one if it is strictly better; a step is a batch of trials under
one state of the strategy, which ages once.
-/

namespace AssignmentSearch

/-- A solution that the search has reached and the trial that met it; the first one has number
zero. -/
structure Candidate (α τ ρ : Type) where
  trial : Nat
  solution : Solution α τ ρ

/-- The solutions a running search holds. -/
structure Found (α τ ρ : Type) where
  current : Candidate α τ ρ
  best : Candidate α τ ρ

inductive Progress (α τ ρ : Type) where
  | fresh
  | searching (found : Found α τ ρ)
  | finished (found : Found α τ ρ)

inductive Stage where
  | uninitialized
  | searching
  | terminated
  deriving DecidableEq, Repr

def Stage.name : Stage → String
  | uninitialized => "uninitialized"
  | searching => "searching"
  | terminated => "terminated"

namespace Progress

variable {α τ ρ : Type}

def stage : Progress α τ ρ → Stage
  | fresh => .uninitialized
  | searching _ => .searching
  | finished _ => .terminated

def found? : Progress α τ ρ → Option (Found α τ ρ)
  | fresh => none
  | searching f | finished f => some f

def finish : Progress α τ ρ → Progress α τ ρ
  | searching f => finished f
  | p => p

/-- The same stage with other solutions; a search that has not begun holds none. -/
def holding (f : Found α τ ρ) : Progress α τ ρ → Progress α τ ρ
  | fresh => fresh
  | searching _ => searching f
  | finished _ => finished f

end Progress

/-- A search with its strategy, its landscape and its random source. -/
structure Search (α σ τ ρ : Type) where
  strategy : σ
  landscape : Landscape α τ ρ
  source : Source α
  /-- The number of trials in a step, as it was entered. -/
  searches : Datum
  recorder : Option Recorder
  /-- The initial solution that was handed out last. -/
  kept : Option (Solution α τ ρ)
  progress : Progress α τ ρ
  steps : Nat
  trials : Nat
  solveTime : α

structure Batch (α : Type) where
  accepted : Bool
  reason : Reason α
  candidateCost : α

namespace Search

variable {α σ τ ρ : Type} [Quantity α] [Strategy α σ] [Acceptance α σ (Solution α τ ρ)]

def fresh (strategy : σ) (landscape : Landscape α τ ρ) (source : Source α) (searches : Datum)
    (recorder : Option Recorder) : Search α σ τ ρ :=
  ⟨strategy, landscape, source, searches, recorder, none, .fresh, 0, 0, Quantity.zero⟩

def ofDatum (strategy : σ) (landscape : Landscape α τ ρ) (source : Source α) (searches : Datum)
    (recorder : Option Recorder) : Except Fault (Search α σ τ ρ) := do
  let count ← searches.toInt
  if count < 1 then throw (if searches.isLong then .unwritable else .searches searches)
  return fresh strategy landscape source (.int count) recorder

def withSource {β : Type} (x : Attempt (Source α) β) : Attempt (Search α σ τ ρ) β :=
  Attempt.zoom (·.source) (fun source s => { s with source }) x

def initial : Attempt (Search α σ τ ρ) (Solution α τ ρ) := do
  let s ← get
  let first ← withSource (s.landscape.initial s.kept)
  modify fun s => { s with kept := some first }
  return first

def neighbor (near : Solution α τ ρ) : Attempt (Search α σ τ ρ) (Candidate α τ ρ) := do
  modify fun s => { s with trials := s.trials + 1 }
  let s ← get
  return ⟨s.trials, ← withSource (s.landscape.neighbor s.trials near)⟩

/-- Decides on a candidate. A sample is drawn only if the candidate is no better and its probability
is above zero. -/
def assess (current candidate : Solution α τ ρ) : Attempt (Search α σ τ ρ) (Reason α) := do
  if ← Attempt.lift (candidate.isBetterThan current) then return .better
  let s ← get
  let p ← Attempt.lift (Strategy.acceptance s.strategy candidate current)
  if ← Attempt.lift p.isAtMostZero then return .impossible
  let r ← withSource Source.draw
  let isLucky ← Attempt.lift (r.le p)
  let p ← Attempt.lift p.quantity
  let r ← Attempt.lift r.quantity
  return if isLucky then .lucky p r else .unlucky p r

/-- Takes a candidate, and keeps it as the best one if it is better. -/
def take (f : Found α τ ρ) (c : Candidate α τ ρ) : Attempt (Search α σ τ ρ) Unit := do
  modify fun s => { s with progress := s.progress.holding { f with current := c } }
  if ← Attempt.lift (c.solution.isBetterThan f.best.solution) then
    modify fun s => { s with progress := s.progress.holding ⟨c, c⟩ }

def trial (b : Batch α) : Attempt (Search α σ τ ρ) (Batch α) := do
  match (← get).progress.found? with
  | none => return b
  | some f =>
    let c ← neighbor f.current.solution
    let cost ← Attempt.lift c.solution.costValue
    let c : Candidate α τ ρ := { c with solution := c.solution.evaluated }
    let reason ← assess f.current.solution c.solution
    if reason.accepts then take f c
    return ⟨b.accepted || reason.accepts, reason, cost⟩

def batch : Nat → Batch α → Attempt (Search α σ τ ρ) (Batch α)
  | 0, b => return b
  | n + 1, b => do batch n (← trial b)

def currentCost? (s : Search α σ τ ρ) : Except Fault (Option α) :=
  match s.progress.found? with
  | none => .ok none
  | some f => some <$> f.current.solution.costValue

def bestCost? (s : Search α σ τ ρ) : Except Fault (Option α) :=
  match s.progress.found? with
  | none => .ok none
  | some f => some <$> f.best.solution.costValue

/-- The number of trials that a value stands for; below zero there are none. -/
def rounds : Datum → Except Fault Nat
  | .int n => .ok n.toNat
  | .bool b => .ok (Datum.ofBool b).toNat
  | d => .error (.notCount d.kind)

/-- A batch of trials and one ageing of the strategy. -/
def advance (f : Found α τ ρ) : Attempt (Search α σ τ ρ) (Outcome α) := do
  let before ← Attempt.lift f.current.solution.costValue
  let count ← Attempt.lift (rounds (← get).searches)
  let b ← batch count ⟨false, .untried, before⟩
  modify fun s => { s with steps := s.steps + 1 }
  let aged ← Attempt.lift (Strategy.age (← get).strategy)
  modify fun s => { s with strategy := aged }
  let s ← get
  let done ← Attempt.lift (Strategy.stops s.strategy)
  let f := s.progress.found?.getD f
  return {
    iteration := s.steps
    accepted := b.accepted
    reason := b.reason
    costBefore := before
    candidateCost := b.candidateCost
    cost := ← Attempt.lift f.current.solution.costValue
    bestCost := ← Attempt.lift f.best.solution.costValue
    done := done }

/-- Makes the initial solution the current and the best one and computes its cost. -/
def begin : Attempt (Search α σ τ ρ) (Solution α τ ρ × α) := do
  let first ← initial
  let hold (x : Solution α τ ρ) : Attempt (Search α σ τ ρ) Unit :=
    modify fun s => { s with kept := some x, progress := .searching ⟨⟨0, x⟩, ⟨0, x⟩⟩ }
  hold first
  let cost ← Attempt.lift first.costValue
  hold first.evaluated
  return (first, cost)

end Search

end AssignmentSearch
