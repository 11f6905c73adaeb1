import AssignmentSearch.Strategy.Basic

/-!
# Simulated annealing

A worse candidate is taken with probability `exp (-Δ / T)`. The temperature `T` shrinks by a
constant factor with every step and the search ends once it is no higher than the cold temperature.
-/

namespace AssignmentSearch

/-- The present temperature, the one that ends the search, and the factor between two steps. The
temperature may be any value once it has been set from outside. -/
structure Annealing (α : Type) where
  temperature : Scalar α
  cold : α
  rate : α

namespace Annealing

variable {α : Type} [Quantity α]

/-- The probability of taking a candidate that costs `delta` more. -/
def probability (heat delta : α) : α :=
  if delta ≤ Quantity.zero then Quantity.one
  else if heat ≤ Quantity.zero then Quantity.zero
  else Quantity.exp (-delta / heat)

/-- The probability at a temperature as it was entered. -/
def chance (temperature : Scalar α) (delta : α) : Except Fault α := do
  if delta ≤ Quantity.zero then return Quantity.one
  if ← temperature.isAtMostZero then return Quantity.zero
  return Quantity.exp (-delta / (← temperature.quantity))

theorem chance_real (heat delta : α) :
    chance (.real heat) delta = .ok (probability heat delta) := by
  by_cases h : delta ≤ Quantity.zero <;> by_cases k : heat ≤ Quantity.zero <;>
    simp [chance, probability, h, k] <;> rfl

def cool (s : Annealing α) : Except Fault (Annealing α) := do
  return { s with temperature := ← s.temperature.times "*=" (.real s.rate) }

def isCold (s : Annealing α) : Except Fault Bool := s.temperature.le (.real s.cold)

/-- The temperature with six significant digits. -/
def heatText [Printed α] (s : Annealing α) : String :=
  match s.temperature.quantity with
  | .ok x => Printed.general 6 x
  | .error _ => s.temperature.datum.text

instance {β : Type} [Costed α β] : Acceptance α (Annealing α) β where
  acceptance := fun s candidate current => do
    let b ← Costed.costOf candidate
    let a ← Costed.costOf current
    return .real (← chance s.temperature (b - a))

instance [Printed α] : Strategy α (Annealing α) where
  name := fun _ => "sa"
  stops := isCold
  age := cool
  note := fun s => some ⟨.debug, "vm_placement.heuristics.sa",
    "降温：T=" ++ s.heatText ++ " (cold=" ++ Printed.general 6 s.cold ++ ")"⟩
  state := fun s =>
    [("T", s.temperature.datum), ("T_min", Printed.datum s.cold), ("alpha", Printed.datum s.rate)]

omit [Quantity α]

def isFinite (x : Float) : Bool :=
  match Binary64.decode x with
  | .finite _ => true
  | _ => false

/-- A schedule of doubles; the first broken rule is the fault. -/
def make (initial cold rate : Float) : Except Fault (Annealing Float) :=
  if !(isFinite initial && isFinite cold && isFinite rate) then
    .error (.notFinite initial cold rate)
  else if !(0 < rate && rate < 1) then .error (.rateRange rate)
  else if initial ≤ 0 || cold ≤ 0 then .error (.notPositive initial cold)
  else if initial ≤ cold then .error (.coldNotBelow cold initial)
  else .ok ⟨.real initial, cold, rate⟩

def ofData (initial cold rate : Datum) : Except Fault (Annealing Float) := do
  make (← initial.toFloat) (← cold.toFloat) (← rate.toFloat)

end Annealing

end AssignmentSearch
