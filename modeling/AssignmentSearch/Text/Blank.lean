/-!
# Blank characters

White space of all scripts, and cutting it off both ends of a text.
-/

namespace AssignmentSearch

/-- The code points above ASCII that separate words or lines. -/
def wideBlanks : List Nat :=
  [0x85, 0xA0, 0x1680, 0x2000, 0x2001, 0x2002, 0x2003, 0x2004, 0x2005, 0x2006, 0x2007, 0x2008,
    0x2009, 0x200A, 0x2028, 0x2029, 0x202F, 0x205F, 0x3000]

/-- The five controls from tab to carriage return, and the space. -/
def isAsciiBlank (c : Char) : Bool := c.toNat = 32 || (9 ≤ c.toNat && c.toNat ≤ 13)

def isBlank (c : Char) : Bool := isAsciiBlank c || wideBlanks.contains c.toNat

/-- Blank in any script, or one of the four separator controls. -/
def isBlankOrSeparator (c : Char) : Bool := isBlank c || (28 ≤ c.toNat && c.toNat ≤ 31)

def trimBoth (p : Char → Bool) (cs : List Char) : List Char :=
  ((cs.dropWhile p).reverse.dropWhile p).reverse

/-- A text without the blanks and separators around it. -/
def strip (s : String) : String := String.ofList (trimBoth isBlankOrSeparator s.toList)

end AssignmentSearch
