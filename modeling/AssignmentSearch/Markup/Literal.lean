import AssignmentSearch.Datum.Convert
import AssignmentSearch.Markup.Cursor
import AssignmentSearch.Text.LowerCase

/-!
# Literals

Which plain texts write truth values and numbers, and which values they write. Numbers may hold
underscores; colons separate digits to base sixty.
-/

namespace AssignmentSearch

namespace Markup

namespace Literal

def trueWords : List String :=
  ["yes", "Yes", "YES", "true", "True", "TRUE", "on", "On", "ON"]

def falseWords : List String :=
  ["no", "No", "NO", "false", "False", "FALSE", "off", "Off", "OFF"]

def bool? (s : String) : Option Bool :=
  if trueWords.contains s then some true else if falseWords.contains s then some false else none

/-- The truth value of a text in any case; a text that writes none is a fault. -/
def bool (s : String) : Except Trouble Datum :=
  let word := String.ofList (lowerCase s.toList)
  match bool? word with
  | some b => .ok (.bool b)
  | none => .error (.fault (.noSuchWord word))

def isNull (s : String) : Bool := ["", "~", "null", "Null", "NULL"].contains s

/-- A digit of a base or an underscore. -/
def isDigitOf (base : Nat) (c : Char) : Bool :=
  c = '_' || (hexValue? c).any (· < base)

def isDigits (cs : List Char) : Bool :=
  cs.head?.any Char.isDigit && cs.all (isDigitOf 10)

/-- Cuts a list at every place of a character. -/
def cutAt (mark : Char) : List Char → List (List Char)
  | [] => [[]]
  | c :: rest =>
    if c = mark then [] :: cutAt mark rest
    else match cutAt mark rest with
      | [] => [[c]]
      | part :: parts => (c :: part) :: parts

def isSixtieth : List Char → Bool
  | [d] => d.isDigit
  | [t, d] => '0' ≤ t && t ≤ '5' && d.isDigit
  | _ => false

/-- Digits with parts below sixty behind them. -/
def isSexagesimal (cs : List Char) : Bool :=
  match cutAt ':' cs with
  | head :: part :: parts => isDigits head && (part :: parts).all isSixtieth
  | _ => false

def isWhole : List Char → Bool
  | ['0'] => true
  | '0' :: 'b' :: cs => !cs.isEmpty && cs.all (isDigitOf 2)
  | '0' :: 'x' :: cs => !cs.isEmpty && cs.all (isDigitOf 16)
  | '0' :: cs => !cs.isEmpty && cs.all (isDigitOf 8)
  | cs => isDigits cs || isSexagesimal cs

/-- An exponent: a letter, a sign and digits, or nothing. -/
def isExponent : List Char → Bool
  | [] => true
  | e :: sign :: digits =>
    (e = 'e' || e = 'E') && (sign = '+' || sign = '-') && !digits.isEmpty && digits.all Char.isDigit
  | _ => false

def isFraction (cs : List Char) : Bool := isExponent (cs.dropWhile (isDigitOf 10))

/-- Whether an unsigned text writes a double that begins with a digit. -/
def isPointed (cs : List Char) : Bool :=
  let whole := cs.takeWhile (· ≠ '.')
  match cs.dropWhile (· ≠ '.') with
  | '.' :: fraction =>
    (isDigits whole && isFraction fraction) ||
      (isSexagesimal whole && fraction.all (isDigitOf 10))
  | _ => false

def isInt (cs : List Char) : Bool := isWhole (Reading.sign cs).2

def isFloat (cs : List Char) : Bool :=
  let unsigned := (Reading.sign cs).2
  isPointed unsigned ||
    [".inf", ".Inf", ".INF"].contains (String.ofList unsigned) ||
    [".nan", ".NaN", ".NAN"].contains (String.ofList cs) ||
    match cs with
    | '.' :: d :: rest => d.isDigit && isFraction rest
    | _ => false

def announces (base : Nat) (c : Char) : Bool :=
  match base with
  | 2 => c = 'b' || c = 'B'
  | 8 => c = 'o' || c = 'O'
  | _ => c = 'x' || c = 'X'

/-- Digits without the announcement of their base. -/
def unannounced (base : Nat) : List Char → List Char
  | '0' :: c :: cs => if announces base c then cs else '0' :: c :: cs
  | cs => cs

def ofDigits? (base : Nat) (cs : List Char) : Option Nat :=
  if cs.isEmpty then none
  else cs.foldlM (fun n c => do
    let d ← hexValue? c
    if d < base then some (base * n + d) else none) 0

/-- The integer of a text to a base; a text without digits, or with others, is a fault. -/
def digitsOf (base : Nat) (cs : List Char) : Except Trouble Int :=
  let (negative, digits) := Reading.sign (Reading.core (String.ofList cs))
  match ofDigits? base (unannounced base digits) with
  | some n => .ok (if negative then -n else n)
  | none => .error (.fault (.malformedInt base (String.ofList cs)))

def decimal (cs : List Char) : Except Trouble Int :=
  match Datum.intOfText (String.ofList cs) with
  | .ok n => .ok n
  | .error f => .error (.fault f)

/-- The sum of integers to base sixty, the last one counting ones. -/
def sexagesimal (parts : List Int) : Int := parts.foldl (fun acc n => 60 * acc + n) 0

/-- The value of an unsigned integer without underscores; it has a first character. -/
def whole (cs : List Char) : Except Trouble Int :=
  match cs with
  | [] => .error (.fault .noSuchCharacter)
  | ['0'] => .ok 0
  | '0' :: 'b' :: digits => digitsOf 2 digits
  | '0' :: 'x' :: digits => digitsOf 16 digits
  | '0' :: _ => digitsOf 8 cs
  | _ => if cs.contains ':' then sexagesimal <$> (cutAt ':' cs).mapM decimal else decimal cs

/-- A text without its underscores; something has to be left. -/
def solid (s : String) : Except Trouble (List Char) :=
  let cs := s.toList.filter (· ≠ '_')
  if cs.isEmpty then .error (.fault .noSuchCharacter) else .ok cs

def int (s : String) : Except Trouble Datum := do
  let (negative, digits) := Reading.sign (← solid s)
  let n ← whole digits
  return .int (if negative then -n else n)

def real (cs : List Char) : Except Trouble Float :=
  match Reading.float (String.ofList cs) with
  | some x => .ok x
  | none => .error (.fault (.malformedFloat (String.ofList cs)))

/-- Adds doubles to base sixty from the lowest on, which comes first; `base` is the power of sixty
for it, and has to be in the range of doubles. -/
def addSixtieths (sum : Float) (base : Int) : List Float → Except Trouble Float
  | [] => .ok sum
  | x :: rest =>
    match Binary64.ofInt? base with
    | some b => addSixtieths (sum + x * b) (60 * base) rest
    | none => .error (.fault .intTooLarge)

def float (s : String) : Except Trouble Datum := do
  let (negative, cs) := Reading.sign (lowerCase (← solid s))
  let x ← if cs = ['.', 'i', 'n', 'f'] then real ['i', 'n', 'f']
    else if cs = ['.', 'n', 'a', 'n'] then real ['n', 'a', 'n']
    else if cs.contains ':' then do addSixtieths 0 1 (← (cutAt ':' cs).mapM real).reverse
    else real cs
  return .float (if negative then -x else x)

end Literal

end Markup

end AssignmentSearch
