import AssignmentSearch.Solution.Basic

/-!
# Families of solutions

Solutions under names. An operation on one name changes no other solution.
-/

namespace AssignmentSearch

abbrev Family (α τ ρ : Type) := List (String × Solution α τ ρ)

namespace Family

variable {α τ ρ β : Type}

def get? (f : Family α τ ρ) (name : String) : Option (Solution α τ ρ) :=
  (f.find? fun e => e.1 = name).map (·.2)

def put : Family α τ ρ → String → Solution α τ ρ → Family α τ ρ
  | [], name, s => [(name, s)]
  | (n, t) :: rest, name, s => if n = name then (n, s) :: rest else (n, t) :: put rest name s

theorem get?_put_self (f : Family α τ ρ) (name : String) (s : Solution α τ ρ) :
    (put f name s).get? name = some s := by
  induction f with
  | nil => simp [put, get?]
  | cons e rest ih =>
    by_cases h : e.1 = name
    · simp [put, get?, h]
    · simpa [put, get?, h] using ih

theorem get?_put_of_ne (f : Family α τ ρ) {name other : String} (h : other ≠ name)
    (s : Solution α τ ρ) : (put f name s).get? other = f.get? other := by
  induction f with
  | nil => simp [put, get?, Ne.symm h]
  | cons e rest ih =>
    by_cases he : e.1 = name
    · have : e.1 ≠ other := fun e' => h (e'.symm.trans he)
      simp [put, get?, he, Ne.symm h]
    · by_cases ho : e.1 = other
      · simp [put, get?, ho, h]
      · simpa [put, get?, he, ho] using ih

theorem get?_put (f : Family α τ ρ) (name n : String) (t : Solution α τ ρ) :
    (f.put name t).get? n = if n = name then some t else f.get? n := by
  by_cases he : n = name
  · rw [if_pos he, he, get?_put_self]
  · rw [if_neg he, get?_put_of_ne f he]

/-- Runs an attempt on the solution of a name, which begins as `fresh` if there is none. -/
def on (fresh : Solution α τ ρ) (name : String) (x : Attempt (Solution α τ ρ) β) :
    Attempt (Family α τ ρ) β := Attempt.of fun f =>
  let (r, s) := x.start ((f.get? name).getD fresh)
  (r, f.put name s)

/-- Compares two members, the first one's cost computed first; only their caches may change. -/
def compare [Quantity α] (fresh : Solution α τ ρ) (a b : String) : Attempt (Family α τ ρ) Int := do
  let x ← on fresh a Solution.cost
  let y ← on fresh b Solution.cost
  return Solution.compareCosts x y

def clone (fresh : Solution α τ ρ) (name as : String) (f : Family α τ ρ) : Family α τ ρ :=
  f.put as ((f.get? name).getD fresh)

end Family

end AssignmentSearch
