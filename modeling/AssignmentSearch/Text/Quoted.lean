import AssignmentSearch.Text.Hexadecimal
import AssignmentSearch.Text.Printable

/-!
# Quoted text

Text between single quotes, or between double quotes where it holds a single quote and no double
one. Backslashes and hidden characters are escaped.
-/

namespace AssignmentSearch

namespace Quoted

def escape (quote c : Char) : List Char :=
  if c = quote ∨ c = '\x5c' then ['\x5c', c]
  else if c = '\n' then ['\x5c', 'n']
  else if c = '\r' then ['\x5c', 'r']
  else if c = '\t' then ['\x5c', 't']
  else if isPrintable c then [c]
  else if c.toNat < 0x100 then '\x5c' :: 'x' :: hexDigits 2 c.toNat
  else if c.toNat < 0x10000 then '\x5c' :: 'u' :: hexDigits 4 c.toNat
  else '\x5c' :: 'U' :: hexDigits 8 c.toNat

/-- Double quotes spare the escapes of a text that holds single ones only. -/
def quoteFor (cs : List Char) : Char :=
  if cs.contains '\x27' && !cs.contains '\x22' then '\x22' else '\x27'

end Quoted

def quoted (s : String) : String :=
  let quote := Quoted.quoteFor s.toList
  String.ofList (quote :: s.toList.flatMap (Quoted.escape quote) ++ [quote])

end AssignmentSearch
