/-!
# Mappings

Assignments of tasks to resources that keep the order in which tasks were first bound.
-/

namespace AssignmentSearch

/-- Tasks with their resources, each task once, in the order of their first binding. -/
structure Mapping (τ ρ : Type) where
  entries : List (τ × ρ)
  deriving DecidableEq, Repr

namespace Mapping

variable {τ ρ : Type}

def empty : Mapping τ ρ := ⟨[]⟩

def size (m : Mapping τ ρ) : Nat := m.entries.length

def tasks (m : Mapping τ ρ) : List τ := m.entries.map (·.1)

def resources (m : Mapping τ ρ) : List ρ := m.entries.map (·.2)

def isEmpty (m : Mapping τ ρ) : Bool := m.entries.isEmpty

/-- Binds a task in a list of entries: in its place if it is there, else at the end. -/
def bindEntry [BEq τ] (t : τ) (r : ρ) : List (τ × ρ) → List (τ × ρ)
  | [] => [(t, r)]
  | (u, q) :: rest => if u == t then (u, r) :: rest else (u, q) :: bindEntry t r rest

/-- Binds a task to a resource; a bound task keeps its place. -/
def bind [BEq τ] (m : Mapping τ ρ) (t : τ) (r : ρ) : Mapping τ ρ := ⟨bindEntry t r m.entries⟩

def ofPairs [BEq τ] (pairs : List (τ × ρ)) : Mapping τ ρ :=
  pairs.foldl (fun m p => m.bind p.1 p.2) empty

/-- A first binding goes to the end, a later one keeps all tasks in place. -/
theorem tasks_bind [BEq τ] [LawfulBEq τ] (m : Mapping τ ρ) (t : τ) (r : ρ) :
    (m.bind t r).tasks = if t ∈ m.tasks then m.tasks else m.tasks ++ [t] := by
  obtain ⟨entries⟩ := m
  simp only [bind, tasks]
  induction entries with
  | nil => simp [bindEntry]
  | cons e rest ih =>
    obtain ⟨u, q⟩ := e
    by_cases h : u = t
    · subst h; simp [bindEntry]
    · have h' : t ≠ u := fun e => h e.symm
      by_cases hm : t ∈ rest.map (·.1)
      · simp only [hm, if_true] at ih
        simp [bindEntry, h, h', ih, hm]
      · simp only [hm, if_false] at ih
        simp only [bindEntry, h, h', ih, hm, List.map_cons, List.mem_cons, or_self, if_false,
          beq_iff_eq, List.cons_append]

def swapAt (m : Mapping τ ρ) (i j : Nat) : Mapping τ ρ :=
  match m.entries[i]?, m.entries[j]? with
  | some (t, r), some (u, q) => ⟨(m.entries.set i (t, q)).set j (u, r)⟩
  | _, _ => m

@[simp] theorem size_swapAt (m : Mapping τ ρ) (i j : Nat) : (m.swapAt i j).size = m.size := by
  simp only [swapAt]
  split <;> simp [size]

/-- Adds a task to the group of its resource; a new resource opens a group at the end. -/
def addToGroup [BEq ρ] (t : τ) (r : ρ) : List (ρ × List τ) → List (ρ × List τ)
  | [] => [(r, [t])]
  | (q, ts) :: rest => if q == r then (q, ts ++ [t]) :: rest else (q, ts) :: addToGroup t r rest

/-- The tasks of each resource in use, in the order of first use. -/
def groups [BEq ρ] (m : Mapping τ ρ) : List (ρ × List τ) :=
  m.entries.foldl (fun gs e => addToGroup e.1 e.2 gs) []

end Mapping

end AssignmentSearch
