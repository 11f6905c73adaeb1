import AssignmentSearch.CommandLine.Switch
import AssignmentSearch.Text.Quoted

/-!
# Refusals

Why a command line is turned down.
-/

namespace AssignmentSearch

inductive Refusal where
  /-- A shortened spelling of several switches. -/
  | ambiguous (word : String) (spellings : List String)
  /-- A switch without its operand. -/
  | noOperand (switch : Switch)
  /-- An operand for a switch that has none. -/
  | needlessOperand (switch : Switch) (operand : String)
  | notInteger (switch : Switch) (operand : String)
  | notChoice (switch : Switch) (operand : String) (choices : List String)
  /-- No scenario is named. -/
  | noScenario
  /-- Words that stand for nothing. -/
  | leftOver (words : List String)
  deriving DecidableEq, Repr

namespace Refusal

def onSwitch (s : Switch) (text : String) : String := "argument " ++ s.label ++ ": " ++ text

def message : Refusal → String
  | ambiguous word spellings =>
    "ambiguous option: " ++ word ++ " could match " ++ ", ".intercalate spellings
  | noOperand s => onSwitch s "expected one argument"
  | needlessOperand s operand => onSwitch s ("ignored explicit argument " ++ quoted operand)
  | notInteger s operand => onSwitch s ("invalid int value: " ++ quoted operand)
  | notChoice s operand choices =>
    onSwitch s ("invalid choice: " ++ quoted operand ++ " (choose from " ++
      ", ".intercalate (choices.map quoted) ++ ")")
  | noScenario => "the following arguments are required: scenario"
  | leftOver words => "unrecognized arguments: " ++ " ".intercalate words

end Refusal

end AssignmentSearch
