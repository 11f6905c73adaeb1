import AssignmentSearch.Fault

/-!
# Cursors

A place in a text with its line and column, and scans: computations that move a cursor and may find
the text malformed.
-/

namespace AssignmentSearch

namespace Markup

def isBreak (c : Char) : Bool :=
  c = '\n' || c = '\r' || c.toNat = 0x85 || c.toNat = 0x2028 || c.toNat = 0x2029

def atEnd (c : Char) : Bool := c = '\x00'

def isLineEnd (c : Char) : Bool := isBreak c || atEnd c

def isSpaceOrEnd (c : Char) : Bool := c = ' ' || isLineEnd c

def isBlankOrEnd (c : Char) : Bool := c = '\t' || isSpaceOrEnd c

/-- The characters of names: letters, digits, dashes and underscores of ASCII. -/
def isNameChar (c : Char) : Bool := c.isAlphanum || c = '-' || c = '_'

/-- The mark that may begin a text and takes no column. -/
def isByteOrderMark (c : Char) : Bool := c.toNat = 0xFEFF

/-- What is left of a text, where that begins, and the length of the whole. -/
structure Cursor where
  rest : List Char
  index : Nat
  line : Nat
  column : Nat
  size : Nat

namespace Cursor

def start (cs : List Char) : Cursor := ⟨cs, 0, 0, 0, cs.length⟩

def left (c : Cursor) : Nat := c.size - c.index

def ahead (k : Nat) (c : Cursor) : Char := c.rest.getD k '\x00'

def peek (c : Cursor) : Char := c.rest.headD '\x00'

/-- Moves over one character. A carriage return before a line feed does not end the line. -/
def next (c : Cursor) : Cursor :=
  match c.rest with
  | [] => c
  | ch :: rest =>
    let c := { c with rest, index := c.index + 1 }
    if isBreak ch && !(ch = '\r' && rest.head? = some '\n') then
      { c with line := c.line + 1, column := 0 }
    else if isByteOrderMark ch then c
    else { c with column := c.column + 1 }

def forward : Nat → Cursor → Cursor
  | 0, c => c
  | n + 1, c => forward n c.next

theorem rest_next (c : Cursor) : c.next.rest = c.rest.tail := by
  obtain ⟨rest, _, _, _, _⟩ := c
  cases rest with
  | nil => rfl
  | cons ch rest =>
    simp only [next]
    split
    · rfl
    · split <;> rfl

theorem rest_forward (n : Nat) (c : Cursor) : (c.forward n).rest = c.rest.drop n := by
  induction n generalizing c with
  | zero => rfl
  | succ n ih => simp [forward, ih, rest_next, List.drop_tail]

def atMarker (c : Cursor) : Bool :=
  let head := c.rest.take 3
  (head = ['-', '-', '-'] || head = ['.', '.', '.']) && isBlankOrEnd (c.ahead 3)

end Cursor

/-- Why a text has no value. -/
inductive Trouble where
  /-- It breaks the rules of the notation. -/
  | malformed
  /-- A scalar stands for no value of its kind. -/
  | fault (f : Fault)

abbrev Scan (β : Type) := StateT Cursor (Except Trouble) β

namespace Scan

def peek : Scan Char := return (← get).peek

def skip (n : Nat) : Scan Unit := modify (Cursor.forward n)

def take (n : Nat) : Scan (List Char) := do
  let c ← get
  skip n
  return c.rest.take n

def run (p : Char → Bool) : Scan (List Char) := do
  take ((← get).rest.takeWhile p).length

/-- Goes on only if a condition holds. -/
def expect (ok : Bool) : Scan Unit := if ok then return else throw .malformed

/-- Reads a line break, if there is one; all but two kinds count as a line feed. -/
def lineBreak : Scan (List Char) := do
  let c ← get
  if isBreak c.peek then
    skip (if c.peek = '\r' && c.ahead 1 = '\n' then 2 else 1)
    return [if c.peek.toNat = 0x2028 || c.peek.toNat = 0x2029 then c.peek else '\n']
  else return []

def spaces : Scan Unit := do let _ ← run (· = ' ')

def comment : Scan Unit := do
  if (← peek) = '#' then let _ ← run (!isLineEnd ·)

/-- Moves over spaces, a comment and the line break that must follow. -/
def restOfLine : Scan Unit := do
  spaces
  comment
  expect (isLineEnd (← peek))
  let _ ← lineBreak

end Scan

end Markup

end AssignmentSearch
