import AssignmentSearch.CommandLine.Refusal
import AssignmentSearch.Text.DigitValue

/-!
# Words of a command line

Words that begin with a dash are spellings of switches, unless they are negative numbers or hold a
blank. A long spelling may be shortened, and an operand may follow it after an equals sign. Two
dashes alone end the switches.
-/

namespace AssignmentSearch

inductive Word where
  /-- A spelling of a switch, with what follows an equals sign. -/
  | switch (s : Switch) (operand : Option String)
  /-- A short spelling with something right after it, or after an equals sign. -/
  | run (s : Switch) (rest : List Char)
  /-- A word that looks like a spelling and is none. -/
  | stray (text : String)
  | plain (text : String)
  | separator
  deriving DecidableEq, Repr

namespace Word

def isDigits (cs : List Char) : Bool := !cs.isEmpty && cs.all fun c => (digitValue? c).isSome

/-- Whether the characters after a dash make it a negative number: digits, with a point before the
last of them or without; a line break may follow. -/
def isMagnitude (cs : List Char) : Bool :=
  let body := if cs.getLast? = some '\n' then cs.dropLast else cs
  let whole := body.takeWhile (· ≠ '.')
  match body.drop whole.length with
  | [] => isDigits whole
  | _ :: fraction => (whole.isEmpty || isDigits whole) && isDigits fraction

/-- Splits a word at its first equals sign. -/
def splitOperand (cs : List Char) : List Char × Option String :=
  let stem := cs.takeWhile (· ≠ '=')
  match cs.drop stem.length with
  | [] => (stem, none)
  | _ :: operand => (stem, some (String.ofList operand))

def completions (stem : List Char) : List (String × Switch) :=
  Switch.spellings.filter fun e => stem.isPrefixOf e.1.toList

/-- What a word is that begins with a dash and spells no switch. -/
def unspelled (text : String) : Word :=
  if isMagnitude text.toList.tail ∨ text.toList.contains ' ' then .plain text else .stray text

/-- What a word is that begins with two dashes and is no full spelling. -/
def ofShortened (text : String) (stem : List Char) (operand : Option String) :
    Except Refusal Word :=
  match completions stem with
  | [] => .ok (unspelled text)
  | [(_, s)] => .ok (.switch s operand)
  | several => .error (.ambiguous text (several.map (·.1)))

/-- What a word is that begins with one dash and is no full spelling. -/
def ofRun (text : String) (c : Char) (rest : List Char) : Word :=
  match Switch.ofSpelling? (String.ofList ['-', c]) with
  | some s => .run s rest
  | none => unspelled text

def ofText (text : String) : Except Refusal Word :=
  match text.toList with
  | '-' :: c :: rest =>
    let (stem, operand) := splitOperand ('-' :: c :: rest)
    match Switch.ofSpelling? (String.ofList stem) with
    | some s =>
      match operand with
      | some text => .ok (if c = '-' then .switch s operand else .run s text.toList)
      | none => .ok (.switch s none)
    | none => if c = '-' then ofShortened text stem operand else .ok (ofRun text c rest)
  | _ => .ok (.plain text)

/-- What the words of a command line are; behind the separator all are plain. -/
def ofTexts : List String → Except Refusal (List Word)
  | [] => .ok []
  | text :: rest =>
    if text = "--" then .ok (.separator :: rest.map .plain)
    else do return (← ofText text) :: (← ofTexts rest)

end Word

end AssignmentSearch
