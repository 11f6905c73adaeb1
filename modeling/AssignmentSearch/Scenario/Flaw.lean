/-!
# Flaws of a scenario

A flaw names the place in a scenario and the rule that its value breaks.
-/

namespace AssignmentSearch

/-- One step of the way to a value: a field or a position in a list. -/
inductive PathStep where
  | field (name : String)
  | index (i : Nat)
  deriving DecidableEq, Repr

inductive FlawKind where
  | missing
  | intType
  | intParsing
  | intParsingSize
  | intFromFloat
  | finiteNumber
  | floatType
  | floatParsing
  | stringType
  | stringUnicode
  | listType
  | modelType
  | literalError
  | greaterThan
  | greaterThanEqual
  | lessThan
  deriving DecidableEq, Repr

def FlawKind.name : FlawKind → String
  | missing => "missing"
  | intType => "int_type"
  | intParsing => "int_parsing"
  | intParsingSize => "int_parsing_size"
  | intFromFloat => "int_from_float"
  | finiteNumber => "finite_number"
  | floatType => "float_type"
  | floatParsing => "float_parsing"
  | stringType => "string_type"
  | stringUnicode => "string_unicode"
  | listType => "list_type"
  | modelType => "model_type"
  | literalError => "literal_error"
  | greaterThan => "greater_than"
  | greaterThanEqual => "greater_than_equal"
  | lessThan => "less_than"

/-- A broken rule and where it is broken. -/
structure Flaw where
  path : List PathStep
  kind : FlawKind
  deriving DecidableEq, Repr

/-- The first line of a report. -/
def Flaw.summary (flaws : List Flaw) : String :=
  toString flaws.length ++
    (if flaws.length = 1 then " validation error for ScenarioConfig"
      else " validation errors for ScenarioConfig")

end AssignmentSearch
