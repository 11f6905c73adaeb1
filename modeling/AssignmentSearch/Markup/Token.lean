import AssignmentSearch.Markup.Scalar

/-!
# Tokens

The tokens of the notation, and scans for those with a text of their own: tags, anchors, aliases and
directives.
-/

namespace AssignmentSearch

namespace Markup

/-- A tag as it is written: a handle and what follows it, or a whole tag. -/
inductive TagText where
  | handled (handle suffix : String)
  | whole (text : String)
  deriving DecidableEq, Repr

inductive Directive where
  | version (major : Nat)
  | handle (name expansion : String)
  | reserved
  deriving DecidableEq, Repr

inductive Token where
  | directive (d : Directive)
  | documentStart
  | documentEnd
  | blockSequenceStart
  | blockMappingStart
  | blockEnd
  | blockEntry
  | flowSequenceStart
  | flowSequenceEnd
  | flowMappingStart
  | flowMappingEnd
  | flowEntry
  | key
  | value
  | reference (name : String)
  | anchor (name : String)
  | tag (t : TagText)
  | scalar (text : String) (plain : Bool)
  deriving DecidableEq, Repr

namespace Token

def name : Scan String := do
  let cs ← Scan.run isNameChar
  let c ← Scan.peek
  Scan.expect (!cs.isEmpty && (isBlankOrEnd c || "?:,]\x7d%@\x60".toList.contains c))
  return String.ofList cs

/-- The characters of tags besides letters and digits; a percent sign begins an escaped byte. -/
def isTagChar (c : Char) : Bool := c.isAlphanum || "-;/?:@&=+$,_.!~*\x27()[]".toList.contains c

def bytes : Nat → List UInt8 → Scan (List UInt8)
  | 0, acc => return acc
  | fuel + 1, acc => do
    if (← Scan.peek) = '%' then
      Scan.skip 1
      let digits ← Scan.take 2
      match if digits.length = 2 then hexNumber? digits else none with
      | some n => bytes fuel (acc ++ [n.toUInt8])
      | none => throw .malformed
    else return acc

/-- The text of a tag, its escapes resolved. -/
def tagChars : Nat → List Char → Scan (List Char)
  | 0, acc => return acc
  | fuel + 1, acc => do
    let acc := acc ++ (← Scan.run isTagChar)
    let c ← get
    if c.peek = '%' then
      let encoded ← bytes c.left []
      match String.fromUTF8? ⟨encoded.toArray⟩ with
      | some s => tagChars fuel (acc ++ s.toList)
      | none => throw .malformed
    else return acc

def tagText : Scan String := do
  let cs ← tagChars ((← get).left + 1) []
  Scan.expect !cs.isEmpty
  return String.ofList cs

/-- A handle: an exclamation mark, or a name between two. -/
def tagHandle : Scan String := do
  Scan.expect ((← Scan.peek) = '!')
  Scan.skip 1
  if (← Scan.peek) = ' ' then return "!"
  let cs ← Scan.run isNameChar
  Scan.expect ((← Scan.peek) = '!')
  Scan.skip 1
  return "!" ++ String.ofList cs ++ "!"

/-- Whether a second exclamation mark ends a handle. -/
def hasHandle (cs : List Char) : Bool := (cs.takeWhile (!isSpaceOrEnd ·)).contains '!'

def tagToken : Scan TagText := do
  let c ← get
  let t ← if c.ahead 1 = '<' then do
      Scan.skip 2
      let text ← tagText
      Scan.expect ((← Scan.peek) = '>')
      Scan.skip 1
      pure (TagText.whole text)
    else if isBlankOrEnd (c.ahead 1) then do
      Scan.skip 1
      pure (TagText.whole "!")
    else if hasHandle c.rest.tail then do
      let handle ← tagHandle
      pure (TagText.handled handle (← tagText))
    else do
      Scan.skip 1
      pure (TagText.handled "!" (← tagText))
  Scan.expect (isSpaceOrEnd (← Scan.peek))
  return t

/-- A run of digits, of which there may be as many as an integer has at most. -/
def number : Scan Nat := do
  let cs ← Scan.run (·.isDigit)
  Scan.expect !cs.isEmpty
  if Reading.maxIntDigits < cs.length then throw (.fault (.longInt cs.length))
  return Reading.numberOf cs

def version : Scan Directive := do
  Scan.spaces
  let major ← number
  Scan.expect ((← Scan.peek) = '.')
  Scan.skip 1
  let _ ← number
  Scan.expect (isSpaceOrEnd (← Scan.peek))
  return .version major

def handleDirective : Scan Directive := do
  Scan.spaces
  let handle ← tagHandle
  Scan.expect ((← Scan.peek) = ' ')
  Scan.spaces
  let expansion ← tagText
  Scan.expect (isSpaceOrEnd (← Scan.peek))
  return .handle handle expansion

/-- A directive with its percent sign, and the rest of its line. -/
def directiveToken : Scan Directive := do
  Scan.skip 1
  let name ← Scan.run isNameChar
  Scan.expect (!name.isEmpty && isSpaceOrEnd (← Scan.peek))
  let d ← if name = "YAML".toList then version
    else if name = "TAG".toList then handleDirective
    else do
      let _ ← Scan.run (!isLineEnd ·)
      pure .reserved
  Scan.restOfLine
  return d

end Token

end Markup

end AssignmentSearch
