/-!
# Operands

What the command line says about a switch with an operand.
-/

namespace AssignmentSearch

/-- The operand of a switch. Up to release 3.11.8 two dashes count as a separator also where an
operand stands, and leave it blank. -/
inductive Operand (β : Type) where
  | absent
  | blank
  | given (x : β)
  deriving DecidableEq, Repr

namespace Operand

variable {β ε : Type}

def value? : Operand β → Option β
  | absent | blank => none
  | given x => some x

def ofText (read : String → Except ε β) (text : String) : Except ε (Operand β) :=
  if text = "--" then .ok blank else given <$> read text

end Operand

end AssignmentSearch
