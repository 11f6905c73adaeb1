import AssignmentSearch.Datum.JsonReader
import AssignmentSearch.Markup.Cursor

/-!
# Texts of scalars

Plain scalars, scalars between quotes, and block scalars. Line breaks inside a scalar are folded: a
single one becomes a space, each further one stays.
-/

namespace AssignmentSearch

namespace Markup

/-- A line break and the further ones after it, folded. -/
def folded (first further : List Char) : List Char :=
  (if first ≠ ['\n'] then first else if further.isEmpty then [' '] else []) ++ further

namespace Plain

/-- Whether a plain scalar stops before a character; in flow context also before its marks. -/
def stops (flow : Bool) (c following : Char) : Bool :=
  isBlankOrEnd c ||
    (c = ':' &&
      (isBlankOrEnd following || (flow && [',', '[', ']', '\x7b', '\x7d'].contains following))) ||
    (flow && [',', '?', '[', ']', '\x7b', '\x7d'].contains c)

/-- The length of the run of characters up to the next stop. -/
def runLength (flow : Bool) : List Char → Nat
  | [] => 0
  | c :: rest => if stops flow c (rest.headD '\x00') then 0 else runLength flow rest + 1

/-- Whether a plain scalar may begin with the first of two characters. -/
def begins (flow : Bool) (c following : Char) : Bool :=
  !(isBlankOrEnd c || "-?:,[]\x7b\x7d#&*!|>\x27\x22%@\x60".toList.contains c) ||
    (!isBlankOrEnd following && (c = '-' || (!flow && (c = '?' || c = ':'))))

/-- Line breaks after the first, with spaces around them; none if a document marker follows. -/
def furtherBreaks : Nat → List Char → Scan (Option (List Char))
  | 0, acc => return some acc
  | fuel + 1, acc => do
    let c ← Scan.peek
    if c = ' ' then
      Scan.skip 1
      furtherBreaks fuel acc
    else if isBreak c then
      let b ← Scan.lineBreak
      if (← get).atMarker then return none
      furtherBreaks fuel (acc ++ b)
    else return some acc

/-- The blanks after a run, folded, and whether they cross a line break. -/
def gap : Scan (List Char × Bool) := do
  let blanks ← Scan.run (· = ' ')
  if isBreak (← Scan.peek) then
    let first ← Scan.lineBreak
    if (← get).atMarker then return ([], true)
    match ← furtherBreaks (← get).left [] with
    | none => return ([], true)
    | some further => return (folded first further, true)
  else return (blanks, false)

/-- Runs with gaps between them. Outside of flow context a line has to be indented. -/
def runs (flow : Bool) (indent : Int) :
    Nat → (acc blanks : List Char) → (crossed : Bool) → Scan (List Char × Bool)
  | 0, acc, _, crossed => return (acc, crossed)
  | fuel + 1, acc, blanks, crossed => do
    let c ← get
    let n := runLength flow c.rest
    if c.peek = '#' || n = 0 then return (acc, crossed)
    let acc := acc ++ blanks ++ (← Scan.take n)
    let (blanks, crossed) ← gap
    let c ← get
    if blanks.isEmpty || c.peek = '#' || (!flow && (c.column : Int) < indent) then
      return (acc, crossed)
    runs flow indent fuel acc blanks crossed

/-- The text of a plain scalar, and whether the scan has come to a new line. -/
def scan (flow : Bool) (indent : Int) : Scan (List Char × Bool) := do
  runs flow indent ((← get).left + 1) [] [] false

end Plain

namespace Quote

def escapes : List (Char × Nat) :=
  [('0', 0), ('a', 7), ('b', 8), ('t', 9), ('\t', 9), ('n', 10), ('v', 11), ('f', 12), ('r', 13),
    ('e', 27), (' ', 32), ('\x22', 34), ('\x5c', 92), ('/', 47), ('N', 0x85), ('_', 0xA0),
    ('L', 0x2028), ('P', 0x2029)]

/-- The number of hexadecimal digits after an escape. -/
def codeLength? (c : Char) : Option Nat :=
  if c = 'x' then some 2 else if c = 'u' then some 4 else if c = 'U' then some 8 else none

def breaks : Nat → List Char → Scan (List Char)
  | 0, acc => return acc
  | fuel + 1, acc => do
    Scan.expect !(← get).atMarker
    let _ ← Scan.run fun c => c = ' ' || c = '\t'
    match ← Scan.lineBreak with
    | [] => return acc
    | b => breaks fuel (acc ++ b)

def charOfCode (n : Nat) : Scan Char :=
  if 0x7FFFFFFF < n then throw (.fault .codeTooLarge)
  else if 0x10FFFF < n then throw (.fault .noSuchChar)
  else return Json.charOf n

/-- The escape of the second half of a character in two halves: its code and its length. -/
def lowHalf? : List Char → Option (Nat × Nat)
  | '\x5c' :: c :: rest => do
    let length ← codeLength? c
    let digits := rest.take length
    guard (digits.length = length)
    let n ← hexNumber? digits
    guard (0xDC00 ≤ n ∧ n < 0xE000)
    return (n, length + 2)
  | _ => none

/-- The character of a code point that was escaped. Texts hold no surrogate halves: two that are
escaped in a row are put together, where a text of code points would keep them apart. -/
def escaped (n : Nat) : Scan Char := do
  match lowHalf? (← get).rest with
  | some (low, length) =>
    if 0xD800 ≤ n ∧ n < 0xDC00 then
      Scan.skip length
      return Json.charOf (0x10000 + (n - 0xD800) * 0x400 + (low - 0xDC00))
    else charOfCode n
  | none => charOfCode n

def escape : Scan (List Char) := do
  let c ← get
  match escapes.lookup c.peek, codeLength? c.peek with
  | some n, _ =>
    Scan.skip 1
    return [Char.ofNat n]
  | none, some length =>
    Scan.skip 1
    let digits ← Scan.take length
    match if digits.length = length then hexNumber? digits else none with
    | some n => return [← escaped n]
    | none => throw .malformed
  | none, none =>
    Scan.expect (isBreak c.peek)
    let _ ← Scan.lineBreak
    breaks (c.left + 1) []

def gap : Scan (List Char) := do
  let blanks ← Scan.run fun c => c = ' ' || c = '\t'
  let c ← get
  Scan.expect !(atEnd c.peek)
  if isBreak c.peek then
    let first ← Scan.lineBreak
    return folded first (← breaks (c.left + 1) [])
  else return blanks

/-- Whether a character stands for itself between quotes of either kind. -/
def isOrdinary (c : Char) : Bool :=
  !(isBlankOrEnd c || c = '\x27' || c = '\x22' || c = '\x5c')

def body (quote : Char) : Nat → List Char → Scan (List Char)
  | 0, _ => throw .malformed
  | fuel + 1, acc => do
    let acc := acc ++ (← Scan.run isOrdinary)
    let c ← get
    let double := quote = '\x22'
    if c.peek = quote then
      if !double && c.ahead 1 = quote then
        Scan.skip 2
        body quote fuel (acc ++ [quote])
      else
        Scan.skip 1
        return acc
    else if double && c.peek = '\x5c' then
      Scan.skip 1
      body quote fuel (acc ++ (← escape))
    else if c.peek = '\x27' || c.peek = '\x22' || c.peek = '\x5c' then
      Scan.skip 1
      body quote fuel (acc ++ [c.peek])
    else body quote fuel (acc ++ (← gap))

def scan : Scan (List Char) := do
  let c ← get
  Scan.skip 1
  body c.peek (c.left + 1) []

end Quote

namespace Block

/-- What becomes of the line breaks at the end: all are dropped, one is kept, or all are. -/
inductive Chomping where
  | strip
  | clip
  | keep
  deriving DecidableEq, Repr

def chomping : Scan (Option Chomping) := do
  let c ← Scan.peek
  if c = '+' then
    Scan.skip 1
    return some .keep
  else if c = '-' then
    Scan.skip 1
    return some .strip
  else return none

def increment : Scan (Option Nat) := do
  let c ← Scan.peek
  if c.isDigit then
    Scan.expect (c ≠ '0')
    Scan.skip 1
    return some (c.toNat - 48)
  else return none

def header : Scan (Chomping × Option Nat) := do
  let before ← chomping
  let digit ← increment
  let after ← match before with
    | some _ => pure before
    | none => if digit.isSome then chomping else pure none
  Scan.expect (isSpaceOrEnd (← Scan.peek))
  Scan.restOfLine
  return (after.getD .clip, digit)

/-- Empty lines before the first line of the text, and the greatest indentation among them. -/
def leading : Nat → List Char → Nat → Scan (List Char × Nat)
  | 0, acc, deepest => return (acc, deepest)
  | fuel + 1, acc, deepest => do
    if (← Scan.peek) = ' ' then
      Scan.skip 1
      leading fuel acc (max deepest (← get).column)
    else
      match ← Scan.lineBreak with
      | [] => return (acc, deepest)
      | b => leading fuel (acc ++ b) deepest

def indentTo (column : Nat) : Scan Unit := do
  let c ← get
  Scan.skip ((c.rest.takeWhile (· = ' ')).length.min (column - c.column))

def emptyLines (indent : Nat) : Nat → List Char → Scan (List Char)
  | 0, acc => return acc
  | fuel + 1, acc => do
    indentTo indent
    match ← Scan.lineBreak with
    | [] => return acc
    | b => emptyLines indent fuel (acc ++ b)

/-- The lines of a block scalar: the text, the last line break and the empty lines after it. -/
def lines (fold : Bool) (indent : Nat) :
    Nat → (acc last empty : List Char) → Scan (List Char × List Char × List Char)
  | 0, acc, last, empty => return (acc, last, empty)
  | fuel + 1, acc, last, empty => do
    let c ← get
    if c.column ≠ indent || atEnd c.peek then return (acc, last, empty)
    let acc := acc ++ empty ++ (← Scan.run (!isLineEnd ·))
    let last ← Scan.lineBreak
    let empty ← emptyLines indent (c.left + 1) []
    let d ← get
    if d.column = indent && !atEnd d.peek then
      let isText (x : Char) : Bool := x ≠ ' ' && x ≠ '\t'
      let joint :=
        if fold && last = ['\n'] && isText c.peek && isText d.peek then
          if empty.isEmpty then [' '] else []
        else last
      lines fold indent fuel (acc ++ joint) last empty
    else return (acc, last, empty)

/-- The text of a block scalar; `parent` is the indentation around it. -/
def scan (parent : Int) : Scan (List Char) := do
  let start ← get
  let fuel := start.left + 1
  Scan.skip 1
  let (chomp, digit) ← header
  let least := (max (parent + 1) 1).toNat
  let (empty, indent) ← match digit with
    | none => do
      let (empty, deepest) ← leading fuel [] 0
      pure (empty, max least deepest)
    | some n => do
      let indent := least + n - 1
      pure (← emptyLines indent fuel [], indent)
  let (text, last, empty) ← lines (start.peek = '>') indent fuel [] [] empty
  return match chomp with
    | .strip => text
    | .clip => text ++ last
    | .keep => text ++ last ++ empty

end Block

end Markup

end AssignmentSearch
