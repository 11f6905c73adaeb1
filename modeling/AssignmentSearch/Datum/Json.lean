import AssignmentSearch.Datum

/-!
# Data as JSON text

Objects keep the order of their entries. The compact form separates with a blank after commas and
colons; the indented form puts each member on a line of its own.
-/

namespace AssignmentSearch

namespace Json

def escape (c : Char) : List Char :=
  if c = '\x22' then ['\x5c', '\x22']
  else if c = '\x5c' then ['\x5c', '\x5c']
  else if c = '\n' then ['\x5c', 'n']
  else if c = '\r' then ['\x5c', 'r']
  else if c = '\t' then ['\x5c', 't']
  else if c.toNat = 8 then ['\x5c', 'b']
  else if c.toNat = 12 then ['\x5c', 'f']
  else if c.toNat < 32 then '\x5c' :: 'u' :: hexDigits 4 c.toNat
  else [c]

def string (s : String) : String := String.ofList ('\x22' :: s.toList.flatMap escape ++ ['\x22'])

inductive Style where
  | compact
  | indented (level : Nat)

def Style.inner : Style → Style
  | compact => compact
  | indented level => indented (level + 1)

/-- A line break and the blanks of a level, two for each. -/
def lineBreak (level : Nat) : String :=
  String.ofList ('\n' :: List.replicate (2 * level) ' ')

def enclose (style : Style) (opening closing : String) (members : List String) : String :=
  if members.isEmpty then opening ++ closing
  else match style with
    | .compact => opening ++ ", ".intercalate members ++ closing
    | .indented level =>
      opening ++ lineBreak (level + 1) ++ ("," ++ lineBreak (level + 1)).intercalate members ++
        lineBreak level ++ closing

def key : Datum → String
  | .str s => string s
  | d => string d.text

mutual

def write (real : Float → String) (style : Style) : Datum → String
  | .null => "null"
  | .bool b => if b then "true" else "false"
  | .int n => toString n
  | .float x => real x
  | .str s => string s
  | .list items => enclose style "[" "]" (writeItems real style.inner items)
  | .dict entries => enclose style "\x7b" "\x7d" (writeEntries real style.inner entries)
  | .bytes content => string (Datum.bytes content).text
  | .set items => enclose style "[" "]" (writeItems real style.inner items)
  | .other kind _ => string kind

def writeItems (real : Float → String) (style : Style) : List Datum → List String
  | [] => []
  | item :: rest => write real style item :: writeItems real style rest

def writeEntries (real : Float → String) (style : Style) : List (Datum × Datum) → List String
  | [] => []
  | (k, v) :: rest => (key k ++ ": " ++ write real style v) :: writeEntries real style rest

end

/-- The text on one line. -/
def compact (d : Datum) : String := write dataText .compact d

/-- The text with one member on each line. -/
def indented (d : Datum) : String := write dataText (.indented 0) d

end Json

end AssignmentSearch
