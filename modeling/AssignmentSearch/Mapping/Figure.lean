import AssignmentSearch.Mapping.Key

/-!
# Figures

Values as they were entered, told apart from others that were entered elsewhere. A value that is not
even equal to itself is still the same figure.
-/

namespace AssignmentSearch

/-- A value and the number of the place where it was entered. -/
structure Figure where
  serial : Nat
  value : Datum

namespace Figure

/-- Figures are equal if they were entered at one place or have one value. -/
instance instBEqFigure : BEq Figure where
  beq a b := a.serial = b.serial || a.value.sameKey b.value

/-- A figure is equal to itself, whatever its value. -/
@[simp] theorem beq_self (a : Figure) : (a == a) = true := by
  simp [BEq.beq]

instance instKeyFigure : Key Figure := ⟨fun a => a.value.permit⟩

instance instToStringFigure : ToString Figure := ⟨fun a => a.value.plain⟩

def size (a : Figure) : Except Fault Float := a.value.toFloat

end Figure

end AssignmentSearch
