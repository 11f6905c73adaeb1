/-!
# Journal

What the parts of the program report while they work.
-/

namespace AssignmentSearch

inductive Level where
  | debug
  | info
  | warning
  | error
  deriving DecidableEq, Repr

namespace Level

def name : Level → String
  | debug => "DEBUG"
  | info => "INFO"
  | warning => "WARNING"
  | error => "ERROR"

/-- Levels in numbers; higher is more urgent. -/
def number : Level → Nat
  | debug => 10
  | info => 20
  | warning => 30
  | error => 40

end Level

structure Entry where
  level : Level
  part : String
  message : String
  deriving DecidableEq, Repr

/-- All reports, the latest first. -/
abbrev Journal := List Entry

end AssignmentSearch
