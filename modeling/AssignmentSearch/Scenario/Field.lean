import AssignmentSearch.Datum.Convert
import AssignmentSearch.Scenario.Flaw
import AssignmentSearch.Scenario.NumberText

/-!
# Fields of a scenario

Readers for the values of fields. They take what plainly stands for a value of their kind: a text
that writes a number for a number, a truth value for zero or one. All flaws of a scenario are
gathered, each with the path to its value.
-/

namespace AssignmentSearch

/-- A value, or all its flaws. -/
abbrev Checked (β : Type) := Except (List Flaw) β

namespace Checked

variable {β γ : Type}

/-- Both values, or the flaws of both. -/
def both : Checked β → Checked γ → Checked (β × γ)
  | .ok x, .ok y => .ok (x, y)
  | .ok _, .error e => .error e
  | .error e, .ok _ => .error e
  | .error e, .error f => .error (e ++ f)

/-- The flaws lie one step further down. -/
def below (step : PathStep) : Checked β → Checked β
  | .ok x => .ok x
  | .error flaws => .error (flaws.map fun f => { f with path := step :: f.path })

def flaw (kind : FlawKind) : Checked β := .error [⟨[], kind⟩]

/-- All values of a list, or the flaws of all; positions count from `i`. -/
def all (read : Datum → Checked β) : Nat → List Datum → Checked (List β)
  | _, [] => .ok []
  | i, d :: rest =>
    ((read d).below (.index i)).both (all read (i + 1) rest) |>.map fun (x, xs) => x :: xs

end Checked

namespace FieldValue

variable {β : Type}

/-- Reads the text in bytes; bytes without one break the rule `kind`. -/
def ofBytes (kind : FlawKind) (read : String → Checked β) (content : List UInt8) : Checked β :=
  match Utf8.decode content with
  | .ok s => read s
  | .error _ => .flaw kind

def intOfText (s : String) : Checked Int :=
  match NumberText.int s with
  | .ok n => .ok n
  | .error .malformed => .flaw .intParsing
  | .error .tooLong => .flaw .intParsingSize

/-- A double without a fraction, of less than 64 bits. -/
def intOfFloat (x : Float) : Checked Int :=
  match Binary64.decode x with
  | .nan | .infinite _ => .flaw .finiteNumber
  | .finite d =>
    if !d.isIntegral then .flaw .intFromFloat
    else if d.truncate.natAbs < Nat.pow 2 63 then .ok d.truncate
    else .flaw .intParsingSize

def int : Datum → Checked Int
  | .bool b => .ok (Datum.ofBool b)
  | .int n => .ok n
  | .float x => intOfFloat x
  | .str s => intOfText s
  | .bytes content => ofBytes .intParsing intOfText content
  | _ => .flaw .intType

def floatOfText (s : String) : Checked Float :=
  match NumberText.float s with
  | some x => .ok x
  | none => .flaw .floatParsing

def float : Datum → Checked Float
  | .bool b => .ok (if b then 1 else 0)
  | .int n => match Binary64.ofInt? n with
    | some x => .ok x
    | none => .flaw .floatType
  | .float x => .ok x
  | .str s => floatOfText s
  | .bytes content => ofBytes .floatParsing floatOfText content
  | _ => .flaw .floatType

def text : Datum → Checked String
  | .str s => .ok s
  | .bytes content => ofBytes .stringUnicode .ok content
  | _ => .flaw .stringType

/-- A value that may be null. -/
def optional (read : Datum → Checked β) : Datum → Checked (Option β)
  | .null => .ok none
  | d => some <$> read d

/-- A list of values; a set counts as one. -/
def list (read : Datum → Checked β) : Datum → Checked (List β)
  | .list items | .set items => Checked.all read 0 items
  | _ => .flaw .listType

/-- An object, read by its entries. -/
def model (read : List (Datum × Datum) → Checked β) : Datum → Checked β
  | .dict entries => read entries
  | _ => .flaw .modelType

/-- A field of an object; `absent` stands in if it is missing. -/
def named (entries : List (Datum × Datum)) (name : String) (absent : Checked β)
    (read : Datum → Checked β) : Checked β :=
  (match Datum.get? entries name with
    | some d => read d
    | none => absent).below (.field name)

/-- An integer from a bound on; a lower one breaks the rule `kind`. -/
def intFrom (bound : Int) (kind : FlawKind) (d : Datum) : Checked Int :=
  match int d with
  | .ok n => if bound ≤ n then .ok n else .flaw kind
  | .error flaws => .error flaws

def positive (d : Datum) : Checked Float :=
  match float d with
  | .ok x => if 0 < x then .ok x else .flaw .greaterThan
  | .error flaws => .error flaws

/-- A double between zero and one, both excluded. -/
def fraction (d : Datum) : Checked Float :=
  match float d with
  | .ok x => if !(x < 1) then .flaw .lessThan else if 0 < x then .ok x else .flaw .greaterThan
  | .error flaws => .error flaws

end FieldValue

end AssignmentSearch
