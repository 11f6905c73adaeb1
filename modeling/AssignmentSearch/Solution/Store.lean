import AssignmentSearch.Solution.Family

/-!
# Stores

Solutions as objects that refer to a cell with their mapping and a cell with their cache. Cells are
written in place, so two objects that share a cell see each other's changes; a copy is an object
with new cells.
-/

namespace AssignmentSearch

/-- An object: its model and the addresses of its two cells. -/
structure Handle (α τ ρ : Type) where
  model : CostModel α τ ρ
  mapping : Nat
  cache : Nat

/-- Cells with mappings, cells with caches, and the objects that names stand for. -/
structure Store (α τ ρ : Type) where
  mappings : List (Mapping τ ρ)
  caches : List (CostCache α)
  names : String → Option (Handle α τ ρ)

namespace Store

variable {α τ ρ β : Type}

def empty : Store α τ ρ := ⟨[], [], fun _ => none⟩

def rename (s : Store α τ ρ) (name : String) (h : Handle α τ ρ) : Store α τ ρ :=
  { s with names := fun n => if n = name then some h else s.names n }

/-- Makes an object with new cells and gives it a name. -/
def make (s : Store α τ ρ) (name : String) (t : Solution α τ ρ) : Store α τ ρ :=
  rename ⟨s.mappings ++ [t.mapping], s.caches ++ [t.cache], s.names⟩ name
    ⟨t.model, s.mappings.length, s.caches.length⟩

/-- Writes both cells of an object in place. -/
def write (s : Store α τ ρ) (h : Handle α τ ρ) (t : Solution α τ ρ) : Store α τ ρ :=
  { s with mappings := s.mappings.set h.mapping t.mapping, caches := s.caches.set h.cache t.cache }

variable [Quantity α]

def read (s : Store α τ ρ) (h : Handle α τ ρ) : Solution α τ ρ :=
  ⟨h.model, s.mappings.getD h.mapping .empty, s.caches.getD h.cache ⟨Quantity.zero, false⟩⟩

def get? (s : Store α τ ρ) (name : String) : Option (Solution α τ ρ) := (s.names name).map s.read

/-- Runs an attempt on the cells of a name's object. A name without one gets a new object, which
begins as `fresh`. -/
def on (fresh : Solution α τ ρ) (name : String) (x : Attempt (Solution α τ ρ) β) :
    Attempt (Store α τ ρ) β := Attempt.of fun s =>
  match s.names name with
  | some h => let (r, t) := x.start (s.read h); (r, s.write h t)
  | none => let (r, t) := x.start fresh; (r, s.make name t)

def compare (fresh : Solution α τ ρ) (a b : String) : Attempt (Store α τ ρ) Int := do
  let x ← on fresh a Solution.cost
  let y ← on fresh b Solution.cost
  return Solution.compareCosts x y

/-- Copies an object: new cells that begin with what the old ones hold. -/
def clone (fresh : Solution α τ ρ) (name as : String) (s : Store α τ ρ) : Store α τ ρ :=
  s.make as ((s.get? name).getD fresh)

end Store

end AssignmentSearch
