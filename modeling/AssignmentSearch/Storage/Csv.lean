/-!
# Rows of comma-separated fields

A field that holds a comma, a quote or a line break stands between quotes, with its quotes written
twice. A row ends in a carriage return and a line feed.
-/

namespace AssignmentSearch

namespace Csv

/-- Whether a character can only stand between quotes. -/
def needsQuotes (c : Char) : Bool := c = ',' || c = '\x22' || c = '\r' || c = '\n'

def quotedChar (c : Char) : List Char := if c = '\x22' then ['\x22', '\x22'] else [c]

def field (s : String) : String :=
  if s.toList.any needsQuotes then
    String.ofList ('\x22' :: s.toList.flatMap quotedChar ++ ['\x22'])
  else s

/-- A row as it is written. A row of one empty field needs quotes to be seen. -/
def row (fields : List String) : String :=
  (if fields = [""] then "\x22\x22" else ",".intercalate (fields.map field)) ++ "\r\n"

end Csv

end AssignmentSearch
