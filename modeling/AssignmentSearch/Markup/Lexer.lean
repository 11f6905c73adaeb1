import AssignmentSearch.Markup.Token

/-!
# From text to tokens

Indentation opens and closes block collections. A colon turns what stands before it on its line into
a key, if that began where a key may begin; the tokens for the key are put in before it.
-/

namespace AssignmentSearch

namespace Markup

/-- Where a key may have begun: the number of tokens before it and its place in the text. A required
key begins its line at the indentation of the block. -/
structure KeyStart where
  tokens : Nat
  required : Bool
  index : Nat
  line : Nat
  column : Nat

/-- A lexer: cursor, flow depth, indentations, possible keys by flow depth, the number of tokens
handed out and the tokens found after them. -/
structure Lexer where
  cursor : Cursor
  flow : Nat
  indent : Int
  indents : List Int
  keyAllowed : Bool
  keys : List (Nat × KeyStart)
  taken : Nat
  pending : List Token
  done : Bool

abbrev Lex (β : Type) := StateT Lexer (Except Trouble) β

namespace Lexer

def start (cs : List Char) : Lexer := ⟨.start cs, 0, -1, [], true, [], 0, [], false⟩

def scan {β : Type} (x : Scan β) : Lex β := do
  let s ← get
  let (r, cursor) ← (x s.cursor : Except Trouble (β × Cursor))
  set { s with cursor }
  return r

def expect (ok : Bool) : Lex Unit := if ok then return else throw .malformed

def emit (t : Token) : Lex Unit := modify fun s => { s with pending := s.pending ++ [t] }

/-- Puts a token in after the first `n` of all. -/
def insert (n : Nat) (t : Token) : Lex Unit := modify fun s =>
  { s with pending := s.pending.take (n - s.taken) ++ t :: s.pending.drop (n - s.taken) }

def allowKey (b : Bool) : Lex Unit := modify fun s => { s with keyAllowed := b }

/-- A key may span one line and 1024 characters. -/
def isStale (c : Cursor) (k : KeyStart) : Bool := k.line ≠ c.line || 1024 < c.index - k.index

/-- Drops possible keys that lie too far back; a required one must not be dropped. -/
def dropStale : Lex Unit := do
  let s ← get
  expect !(s.keys.any fun (_, k) => isStale s.cursor k && k.required)
  set { s with keys := s.keys.filter fun (_, k) => !isStale s.cursor k }

/-- Drops the possible key of this flow depth, unless it is required. -/
def dropKey : Lex Unit := do
  let s ← get
  expect !(s.keys.any fun (depth, k) => depth = s.flow && k.required)
  set { s with keys := s.keys.filter fun (depth, _) => depth ≠ s.flow }

def noteKey : Lex Unit := do
  if (← get).keyAllowed then
    dropKey
    modify fun s =>
      let c := s.cursor
      let required : Bool := s.flow = 0 && s.indent = (c.column : Int)
      let tokens := s.taken + s.pending.length
      { s with keys := (s.flow, ⟨tokens, required, c.index, c.line, c.column⟩) :: s.keys }

def closeBlocks (column : Int) : List Int → Lex Unit
  | [] => return
  | outer :: rest => do
    if column < (← get).indent then
      modify fun s => { s with indent := outer, indents := rest }
      emit .blockEnd
      closeBlocks column rest

/-- Closes the blocks that a column lies outside of; in flow context there are none. -/
def unwind (column : Int) : Lex Unit := do
  let s ← get
  if s.flow = 0 then closeBlocks column s.indents

def openBlock (column : Nat) : Lex Bool := do
  let s ← get
  if s.indent < column then
    set { s with indent := column, indents := s.indent :: s.indents }
    return true
  else return false

/-- Moves over spaces, comments and line breaks. After a line break in block context a key may
begin. -/
def gap : Nat → Lex Unit
  | 0 => return
  | fuel + 1 => do
    scan Scan.spaces
    scan Scan.comment
    if (← scan Scan.lineBreak).isEmpty then return
    if (← get).flow = 0 then allowKey true
    gap fuel

/-- The end of the text or a directive or document marker: all blocks are closed. -/
def leaveBlocks : Lex Unit := do
  unwind (-1)
  dropKey
  allowKey false

def finish : Lex Unit := do
  leaveBlocks
  modify fun s => { s with keys := [], done := true }

def marker (t : Token) : Lex Unit := do
  leaveBlocks
  scan (Scan.skip 3)
  emit t

/-- The start of a flow collection, which may begin a key. -/
def openFlow (t : Token) : Lex Unit := do
  noteKey
  modify fun s => { s with flow := s.flow + 1, keyAllowed := true }
  scan (Scan.skip 1)
  emit t

def closeFlow (t : Token) : Lex Unit := do
  dropKey
  let s ← get
  expect (s.flow ≠ 0)
  set { s with flow := s.flow - 1, keyAllowed := false }
  scan (Scan.skip 1)
  emit t

def flowEntry : Lex Unit := do
  allowKey true
  dropKey
  scan (Scan.skip 1)
  emit .flowEntry

/-- In block context a mark that begins an entry may open a block, where a key may begin. -/
def openBlockFor (t : Token) : Lex Unit := do
  let s ← get
  if s.flow = 0 then
    expect s.keyAllowed
    if ← openBlock s.cursor.column then emit t

def blockEntry : Lex Unit := do
  openBlockFor .blockSequenceStart
  allowKey true
  dropKey
  scan (Scan.skip 1)
  emit .blockEntry

def explicitKey : Lex Unit := do
  openBlockFor .blockMappingStart
  allowKey ((← get).flow = 0)
  dropKey
  scan (Scan.skip 1)
  emit .key

def valueMark : Lex Unit := do
  let s ← get
  match s.keys.find? fun (depth, _) => depth = s.flow with
  | some (_, k) =>
    set { s with keys := s.keys.filter fun (depth, _) => depth ≠ s.flow }
    insert k.tokens .key
    if s.flow = 0 then
      if ← openBlock k.column then insert k.tokens .blockMappingStart
    allowKey false
  | none =>
    openBlockFor .blockMappingStart
    allowKey (s.flow = 0)
    dropKey
  scan (Scan.skip 1)
  emit .value

/-- A token that may be a key and after which none begins. -/
def keyLike (x : Scan Token) : Lex Unit := do
  noteKey
  allowKey false
  emit (← scan x)

def blockScalar : Lex Unit := do
  allowKey true
  dropKey
  let text ← scan (Block.scan (← get).indent)
  emit (.scalar (String.ofList text) false)

def plainScalar : Lex Unit := do
  noteKey
  let s ← get
  let (text, crossed) ← scan (Plain.scan (s.flow ≠ 0) (s.indent + 1))
  allowKey crossed
  emit (.scalar (String.ofList text) true)

def token : Lex Unit := do
  let s ← get
  let cursor := s.cursor
  let c := cursor.peek
  let inFlow := s.flow ≠ 0
  let beforeBlank := isBlankOrEnd (cursor.ahead 1)
  if atEnd c then finish
  else if c = '%' && cursor.column = 0 then
    leaveBlocks
    emit (.directive (← scan Token.directiveToken))
  else if cursor.column = 0 && cursor.atMarker then
    marker (if c = '-' then .documentStart else .documentEnd)
  else if c = '[' then openFlow .flowSequenceStart
  else if c = '\x7b' then openFlow .flowMappingStart
  else if c = ']' then closeFlow .flowSequenceEnd
  else if c = '\x7d' then closeFlow .flowMappingEnd
  else if c = ',' then flowEntry
  else if c = '-' && beforeBlank then blockEntry
  else if c = '?' && (inFlow || beforeBlank) then explicitKey
  else if c = ':' && (inFlow || beforeBlank) then valueMark
  else if c = '*' then keyLike (do Scan.skip 1; return .reference (← Token.name))
  else if c = '&' then keyLike (do Scan.skip 1; return .anchor (← Token.name))
  else if c = '!' then keyLike (Token.tag <$> Token.tagToken)
  else if (c = '|' || c = '>') && !inFlow then blockScalar
  else if c = '\x27' || c = '\x22' then
    keyLike (do return .scalar (String.ofList (← Quote.scan)) false)
  else if Plain.begins inFlow c (cursor.ahead 1) then plainScalar
  else throw .malformed

def fetch : Lex Unit := do
  gap (← get).cursor.left.succ
  dropStale
  unwind (← get).cursor.column
  token

/-- Whether the first token found may still become a key. -/
def isOpen (s : Lexer) : Bool := s.keys.any fun (_, k) => k.tokens = s.taken

/-- Reads on until it is settled what the next token is. -/
def settle : Nat → Lex Unit
  | 0 => return
  | fuel + 1 => do
    if (← get).done then return
    if (← get).pending.isEmpty then
      fetch
      settle fuel
    else
      dropStale
      if isOpen (← get) then
        fetch
        settle fuel

/-- Hands out the tokens after those of `acc`, the latest first, up to the end of the text or the
first trouble. -/
def handOut : Nat → List Token → Lexer → List Token × Option Trouble
  | 0, acc, _ => (acc.reverse, none)
  | fuel + 1, acc, s =>
    match (settle (s.cursor.left + 2)).run s with
    | .error e => (acc.reverse, some e)
    | .ok (_, s) =>
      match s.pending with
      | [] => (acc.reverse, none)
      | t :: rest => handOut fuel (t :: acc) { s with taken := s.taken + 1, pending := rest }

end Lexer

def isAllowed (c : Char) : Bool :=
  c = '\t' || c = '\n' || c = '\r' || c.toNat = 0x85 || (0x20 ≤ c.toNat && c.toNat ≤ 0x7E) ||
    (0xA0 ≤ c.toNat && c.toNat ≤ 0xFFFD) || 0x10000 ≤ c.toNat

/-- The tokens of a text, and the trouble that keeps it from having more. A token comes before a
trouble behind it. A byte order mark at the beginning is moved over. -/
def Token.ofText (text : String) : List Token × Option Trouble :=
  let cs := text.toList
  if !cs.all isAllowed then ([], some .malformed)
  else
    let s := Lexer.start cs
    let s := { s with cursor := if isByteOrderMark s.cursor.peek then s.cursor.next else s.cursor }
    s.handOut (6 * cs.length + 6) []

end Markup

end AssignmentSearch
