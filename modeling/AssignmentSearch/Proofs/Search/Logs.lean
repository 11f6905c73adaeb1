import AssignmentSearch.Proofs.Search.Meetings
import AssignmentSearch.Search.Run

/-!
# Runs and their logs

A run is any sequence of calls on a search, each of which may fail. Its log holds every candidate
that was met and every outcome of a step, in order.
-/

namespace AssignmentSearch

inductive Event (α τ ρ : Type) where
  | met (m : Meeting α τ ρ)
  | told (o : Outcome α)

namespace Event

variable {α τ ρ : Type}

def metIn (l : List (Event α τ ρ)) : List (Meeting α τ ρ) :=
  l.filterMap fun
    | met m => some m
    | told _ => none

def toldIn (l : List (Event α τ ρ)) : List (Outcome α) :=
  l.filterMap fun
    | met _ => none
    | told o => some o

@[simp] theorem metIn_append (l k : List (Event α τ ρ)) :
    metIn (l ++ k) = metIn l ++ metIn k := List.filterMap_append

@[simp] theorem toldIn_append (l k : List (Event α τ ρ)) :
    toldIn (l ++ k) = toldIn l ++ toldIn k := List.filterMap_append

@[simp] theorem metIn_nil : metIn ([] : List (Event α τ ρ)) = [] := rfl

@[simp] theorem toldIn_nil : toldIn ([] : List (Event α τ ρ)) = [] := rfl

@[simp] theorem metIn_map_met (ms : List (Meeting α τ ρ)) : metIn (ms.map met) = ms := by
  induction ms with
  | nil => rfl
  | cons m ms ih => exact congrArg (m :: ·) ih

@[simp] theorem toldIn_map_met (ms : List (Meeting α τ ρ)) : toldIn (ms.map met) = [] := by
  induction ms with
  | nil => rfl
  | cons m ms ih => exact ih

@[simp] theorem metIn_told (o : Outcome α) : metIn [(told o : Event α τ ρ)] = [] := rfl

@[simp] theorem toldIn_told (o : Outcome α) : toldIn [(told o : Event α τ ρ)] = [o] := rfl

variable {l k : List (Event α τ ρ)} {m n : Meeting α τ ρ} {o p : Outcome α}

theorem mem_metIn_append : m ∈ metIn (l ++ k) ↔ m ∈ metIn l ∨ m ∈ metIn k := by
  rw [metIn_append, List.mem_append]

theorem mem_metIn_snoc : n ∈ metIn (l ++ [met m]) ↔ n ∈ metIn l ∨ n = m := by
  rw [mem_metIn_append]
  exact or_congr_right List.mem_singleton

theorem metIn_snoc_told (l : List (Event α τ ρ)) (o : Outcome α) :
    metIn (l ++ [told o]) = metIn l := by
  rw [metIn_append, metIn_told, List.append_nil]

theorem toldIn_snoc_met (l : List (Event α τ ρ)) (m : Meeting α τ ρ) :
    toldIn (l ++ [met m]) = toldIn l := by
  rw [toldIn_append]
  exact List.append_nil _

theorem mem_toldIn_snoc : p ∈ toldIn (l ++ [told o]) ↔ p ∈ toldIn l ∨ p = o := by
  rw [toldIn_append, List.mem_append]
  exact or_congr_right List.mem_singleton

end Event

/-- What a caller may ask of a search. -/
inductive Call where
  | start
  | step
  | solve (limit : Nat)
  deriving DecidableEq, Repr

namespace Search

variable {α σ τ ρ : Type} [Quantity α] [Strategy α σ] [Acceptance α σ (Solution α τ ρ)]

def batchMeetings : Nat → Batch α → Search α σ τ ρ → List (Meeting α τ ρ)
  | 0, _, _ => []
  | n + 1, b, s =>
    (meeting? s).toList ++
      match (trial b).start s with
      | (.ok c, t) => batchMeetings n c t
      | (.error _, _) => []

def turnMeetings (f : Found α τ ρ) (s : Search α σ τ ρ) : List (Meeting α τ ρ) :=
  match f.current.solution.costValue, rounds s.searches with
  | .ok before, .ok count => batchMeetings count ⟨false, .untried, before⟩ s
  | _, _ => []

def turnLog (f : Found α τ ρ) (s : Search α σ τ ρ) : List (Event α τ ρ) :=
  (turnMeetings f s).map .met ++
    match (advance f).start s with
    | (.ok o, _) => [.told o]
    | (.error _, _) => []

variable [Printed α] [ToString τ] [ToString ρ]

def stepLog (r : Running α σ τ ρ) : List (Event α τ ρ) :=
  match start.start r with
  | (.error _, _) => []
  | (.ok _, t) =>
    match t.1.progress with
    | .searching f => turnLog f t.1
    | .fresh | .finished _ => []

def driveLog : Nat → Running α σ τ ρ → List (Event α τ ρ)
  | 0, _ => []
  | n + 1, r =>
    if r.1.progress.stage = .searching then
      stepLog r ++
        match step.start r with
        | (.ok _, t) => driveLog n t
        | (.error _, _) => []
    else []

end Search

namespace Call

variable {α σ τ ρ : Type} [Quantity α] [Strategy α σ]
  [Acceptance α σ (Solution α τ ρ)] [Printed α] [ToString τ] [ToString ρ]

def run : Call → Attempt (Running α σ τ ρ) Unit
  | start => Search.start
  | step => do let _ ← Search.step
  | solve limit => do let _ ← Search.solve limit

def log : Call → Running α σ τ ρ → List (Event α τ ρ)
  | start, _ => []
  | step, r => Search.stepLog r
  | solve limit, r =>
    match Search.start.start r with
    | (.ok _, t) => Search.driveLog limit t
    | (.error _, _) => []

def after : List Call → Running α σ τ ρ → Running α σ τ ρ
  | [], r => r
  | c :: rest, r => after rest (c.run.start r).2

def logs : List Call → Running α σ τ ρ → List (Event α τ ρ)
  | [], _ => []
  | c :: rest, r => c.log r ++ logs rest (c.run.start r).2

def meetings (calls : List Call) (r : Running α σ τ ρ) : List (Meeting α τ ρ) :=
  Event.metIn (logs calls r)

def outcomes (calls : List Call) (r : Running α σ τ ρ) : List (Outcome α) :=
  Event.toldIn (logs calls r)

theorem after_append (calls later : List Call) (r : Running α σ τ ρ) :
    after (calls ++ later) r = after later (after calls r) := by
  induction calls generalizing r with
  | nil => rfl
  | cons c rest ih => exact ih _

theorem logs_append (calls later : List Call) (r : Running α σ τ ρ) :
    logs (calls ++ later) r = logs calls r ++ logs later (after calls r) := by
  induction calls generalizing r with
  | nil => rfl
  | cons c rest ih =>
    rw [List.cons_append, logs, logs, ih, List.append_assoc]
    rfl

end Call

end AssignmentSearch
