import AssignmentSearch.Markup.Literal
import AssignmentSearch.Markup.Stamp

/-!
# Tags

A tag says what kind of value a node stands for. A plain scalar without one has the tag of its text.
-/

namespace AssignmentSearch

namespace Markup

/-- The kinds of values; `merge` and `value` mark special keys. -/
inductive Tag where
  | null
  | bool
  | int
  | float
  | stamp
  | str
  | binary
  | sequence
  | mapping
  | set
  | orderedPairs
  | pairs
  | merge
  | value
  | unknown
  deriving DecidableEq, Repr

namespace Tag

def common : String := "tag:yaml.org,2002:"

def names : List (String × Tag) :=
  [("null", null), ("bool", bool), ("int", int), ("float", float), ("timestamp", stamp),
    ("str", str), ("binary", binary), ("seq", sequence), ("map", mapping), ("set", set),
    ("omap", orderedPairs), ("pairs", pairs)]

/-- The tag of a full name. A merge key stays one under its full name. -/
def ofName (name : String) : Tag :=
  ((names ++ [("merge", merge), ("value", value)]).find? fun e => common ++ e.1 = name).elim
    unknown (·.2)

def ofPlain (text : String) : Tag :=
  if (Literal.bool? text).isSome then bool
  else if Literal.isFloat text.toList then float
  else if Literal.isInt text.toList then int
  else if text = "<<" then merge
  else if Literal.isNull text then null
  else if Stamp.isPlain text then stamp
  else if text = "=" then value
  else if ["!", "&", "*"].contains text then unknown
  else str

/-- The tag of a text that is not plain but is taken as if it were: a line break at its end does not
count, unless it is all of the text. -/
def ofQuoted (text : String) : Tag :=
  let cs := text.toList
  if cs = ['\n'] then str
  else if cs.getLast? = some '\n' then ofPlain (String.ofList cs.dropLast)
  else ofPlain text

/-- The tag of a scalar: that of its text if it is plain or has the tag `!`. -/
def ofScalar (name : Option String) (text : String) (plain : Bool) : Tag :=
  match name with
  | none => if plain then ofPlain text else str
  | some "!" => ofQuoted text
  | some name => ofName name

def ofCollection (usual : Tag) : Option String → Tag
  | none | some "!" => usual
  | some name => ofName name

end Tag

end Markup

end AssignmentSearch
