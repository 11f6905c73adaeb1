import AssignmentSearch.Number.Layout
import AssignmentSearch.Text.Quoted

/-!
# Data

The values that scenario files and requests are made of, with their kinds, their written form and
the equality that decides whether two keys are one.
-/

namespace AssignmentSearch

/-- A value of a data file. Of an `other` value no rule needs more than its kind and a token that
equal values share. -/
inductive Datum where
  | null
  | bool (b : Bool)
  | int (n : Int)
  | float (x : Float)
  | str (s : String)
  | bytes (content : List UInt8)
  | list (items : List Datum)
  | dict (entries : List (Datum × Datum))
  | set (items : List Datum)
  | other (kind token : String)

namespace Datum

instance : Inhabited Datum := ⟨null⟩

def kind : Datum → String
  | null => "NoneType"
  | bool _ => "bool"
  | int _ => "int"
  | float _ => "float"
  | str _ => "str"
  | bytes _ => "bytes"
  | list _ => "list"
  | dict _ => "dict"
  | set _ => "set"
  | other kind _ => kind

/-- The kind as messages show it. -/
def kindText (d : Datum) : String := "<class '" ++ d.kind ++ "'>"

mutual

def text : Datum → String
  | null => "None"
  | bool b => if b then "True" else "False"
  | int n => toString n
  | float x => plainText x
  | str s => quoted s
  | list items => "[" ++ ", ".intercalate (texts items) ++ "]"
  | dict entries => "\x7b" ++ ", ".intercalate (entryTexts entries) ++ "\x7d"
  | bytes _ => "bytes"
  | set items => "\x7b" ++ ", ".intercalate (texts items) ++ "\x7d"
  | other kind _ => kind

def texts : List Datum → List String
  | [] => []
  | item :: rest => text item :: texts rest

def entryTexts : List (Datum × Datum) → List String
  | [] => []
  | (key, value) :: rest => (text key ++ ": " ++ text value) :: entryTexts rest

end

def floatIsInt (x : Float) (n : Int) : Bool :=
  match Binary64.decode x with
  | .finite d => d.isIntegral && d.truncate = n
  | _ => false

/-- A truth value as the integer it counts as. -/
def ofBool (b : Bool) : Int := if b then 1 else 0

/-- Whether two values are one key; numbers and truth values compare by amount. -/
def sameKey : Datum → Datum → Bool
  | null, null => true
  | bool a, bool b => a = b
  | bool a, int n => ofBool a = n
  | int n, bool a => ofBool a = n
  | bool a, float x => floatIsInt x (ofBool a)
  | float x, bool a => floatIsInt x (ofBool a)
  | int a, int b => a = b
  | int n, float x => floatIsInt x n
  | float x, int n => floatIsInt x n
  | float x, float y => x == y
  | str s, str t => s = t
  | bytes a, bytes b => a = b
  | other a x, other b y => a = b && x = y
  | _, _ => false

/-- The value of a text key; of several the last. -/
def get? (entries : List (Datum × Datum)) (name : String) : Option Datum :=
  (entries.reverse.find? fun e => e.1.sameKey (str name)).map (·.2)

/-- Adds an entry, or changes the value of a key that is there; the first spelling of a key
stays. -/
def put {β : Type} : List (Datum × β) → Datum → β → List (Datum × β)
  | [], key, value => [(key, value)]
  | (k, v) :: rest, key, value =>
    if k.sameKey key then (k, value) :: rest else (k, v) :: put rest key value

theorem put_of_fresh {β : Type} {entries : List (Datum × β)} {key : Datum} (value : β)
    (h : ∀ e ∈ entries, e.1.sameKey key = false) : put entries key value = entries ++ [(key, value)] := by
  induction entries with
  | nil => rfl
  | cons e rest ih =>
    obtain ⟨k, v⟩ := e
    have hk : k.sameKey key = false := h (k, v) List.mem_cons_self
    rw [put, hk, ih fun e he => h e (List.mem_cons_of_mem _ he)]
    rfl

def object (fields : List (String × Datum)) : Datum := dict (fields.map fun (k, v) => (str k, v))

end Datum

end AssignmentSearch
