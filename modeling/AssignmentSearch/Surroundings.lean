import AssignmentSearch.Attempt
import AssignmentSearch.Journal
import AssignmentSearch.Number.Quantity
import AssignmentSearch.Storage.Files

/-!
# Surroundings

What a program works in: a clock, files and a journal.
-/

namespace AssignmentSearch

def Denial.fault (d : Denial) : Fault :=
  match d.obstacle with
  | .refused => .denied d.path.text
  | .nullByte => .nullByte
  | .missing => .nothingThere d.path.text
  | .notFolder => .notDirectory d.path.text
  | .tooLong => .nameTooLong d.path.text
  | .taken => .fileExists d.path.text
  | .isFolder => .isDirectory d.path.text

/-- The clock shows `now` and moves by `tick` with each reading. -/
structure Surroundings (α : Type) where
  now : α
  tick : α
  files : Files
  journal : Journal

namespace Surroundings

variable {α β : Type}

def readClock [Quantity α] : Attempt (Surroundings α) α := do
  modify fun s => { s with now := s.now + s.tick }
  return (← get).now

def report (e : Entry) : Attempt (Surroundings α) Unit :=
  modify fun s => { s with journal := e :: s.journal }

def access (x : Access β) : Attempt (Surroundings α) β := do
  let s ← get
  let (r, files) := x s.files
  set { s with files }
  match r with
  | .ok a => return a
  | .error d => throw d.fault

/-- Runs a computation on the files and tells whether it was carried out. A path with a zero
character is a fault; another denial is reported as `trouble` and goes no further. -/
def tryAccess (trouble : Entry) (x : Access Unit) : Attempt (Surroundings α) Bool := do
  let s ← get
  let (r, files) := x s.files
  set { s with files }
  match r with
  | .ok () => return true
  | .error d =>
    if d.obstacle = .nullByte then throw .nullByte
    report trouble
    return false

end Surroundings

end AssignmentSearch
