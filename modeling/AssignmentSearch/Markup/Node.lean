import AssignmentSearch.Markup.Lexer
import AssignmentSearch.Markup.Tag

/-!
# Nodes

A document as nodes under numbers: scalars, sequences and mappings that name their parts by number.
An alias names the node of its anchor, which may be one that it lies in.
-/

namespace AssignmentSearch

namespace Markup

inductive Content where
  | scalar (text : String)
  | sequence (items : List Nat)
  | mapping (entries : List (Nat × Nat))
  deriving DecidableEq, Repr

structure Node where
  tag : Tag
  content : Content
  deriving DecidableEq, Repr

abbrev Nodes := Array Node

/-- A reader of nodes: the tokens left, the trouble behind them, the handles of tags, the nodes so
far, the numbers of those with an anchor, and how many collections are open. -/
structure Builder where
  tokens : List Token
  trouble : Option Trouble
  handles : List (String × String)
  nodes : Nodes
  anchors : List (String × Nat)
  depth : Nat

abbrev Build (β : Type) := StateT Builder (Except Trouble) β

namespace Builder

/-- The next token; none at the end. The trouble behind the tokens shows when it is looked for. -/
def peek : Build (Option Token) := do
  let s ← get
  match s.tokens, s.trouble with
  | [], some t => throw t
  | tokens, _ => return tokens.head?

def drop : Build Unit := modify fun s => { s with tokens := s.tokens.tail }

def dropIf (t : Token) : Build Bool := do
  if (← peek) = some t then
    drop
    return true
  else return false

def require (t : Token) : Build Unit := do
  if !(← dropIf t) then throw .malformed

def nextIn (ts : List Token) : Build Bool := do
  return (← peek).any fun t => ts.contains t

def anchor : Build (Option String) := do
  match ← peek with
  | some (.anchor name) => drop; return some name
  | _ => return none

def tag : Build (Option TagText) := do
  match ← peek with
  | some (.tag t) => drop; return some t
  | _ => return none

/-- An anchor and a tag in either order. -/
def marks : Build (Option String × Option TagText) := do
  match ← anchor with
  | some name => return (some name, ← tag)
  | none =>
    match ← tag with
    | some t => return (← anchor, some t)
    | none => return (none, none)

def nameOf : Option TagText → Build (Option String)
  | none => return none
  | some (.whole text) => return some text
  | some (.handled handle suffix) => do
    match (← get).handles.lookup handle with
    | some expansion => return some (expansion ++ suffix)
    | none => throw .malformed

/-- The anchor and the full name of the tag that stand before the content of a node. -/
def properties : Build (Option String × Option String) := do
  let (anchor, tag) ← marks
  return (anchor, ← nameOf tag)

/-- Adds a node under its anchor, which may not be in use. -/
def add (anchor : Option String) (n : Node) : Build Nat := do
  let s ← get
  if (anchor.bind (List.lookup · s.anchors)).isSome then throw .malformed
  let number := s.nodes.size
  set { s with
    nodes := s.nodes.push n
    anchors := (anchor.map (·, number)).toList ++ s.anchors }
  return number

def nothing : Build Nat := add none ⟨.null, .scalar ""⟩

def referred (name : String) : Build Nat := do
  drop
  match (← get).anchors.lookup name with
  | some number => return number
  | none => throw .malformed

/-- A node without content needs a property. -/
def absent (anchor tag : Option String) : Build Nat :=
  if anchor.isSome || tag.isSome then add anchor ⟨.ofScalar tag "" true, .scalar ""⟩
  else throw .malformed

/-- The most collections that may lie inside each other. -/
def maxDepth : Nat := 480

/-- Adds a collection and then reads what it holds, which may refer to it. -/
def collect (anchor : Option String) (t : Tag) (x : Build Content) : Build Nat := do
  if maxDepth ≤ (← get).depth then throw (.fault .tooDeep)
  let number ← add anchor ⟨t, .sequence []⟩
  modify fun s => { s with depth := s.depth + 1 }
  let content ← x
  modify fun s => { s with
    nodes := s.nodes.setIfInBounds number ⟨t, content⟩
    depth := s.depth - 1 }
  return number

mutual

/-- A node. `block` allows block collections, `bare` a sequence without indentation. -/
def node (block bare : Bool) : Nat → Build Nat
  | 0 => throw .malformed
  | fuel + 1 => do
    match ← peek with
    | some (.reference name) => referred name
    | _ =>
      let (anchor, tag) ← properties
      content block bare anchor tag fuel

def content (block bare : Bool) (anchor tag : Option String) : Nat → Build Nat
  | 0 => throw .malformed
  | fuel + 1 => do
    let sequence (x : Build (List Nat)) : Build Nat :=
      collect anchor (.ofCollection .sequence tag) (.sequence <$> x)
    let mapping (x : Build (List (Nat × Nat))) : Build Nat :=
      collect anchor (.ofCollection .mapping tag) (.mapping <$> x)
    match ← peek with
    | some .blockEntry =>
      if bare then sequence (bareItems fuel []) else absent anchor tag
    | some (.scalar text plain) =>
      drop
      add anchor ⟨.ofScalar tag text plain, .scalar text⟩
    | some .flowSequenceStart => sequence (do drop; flowItems true fuel [])
    | some .flowMappingStart => mapping (do drop; flowEntries true fuel [])
    | some .blockSequenceStart =>
      if block then sequence (do drop; blockItems fuel []) else absent anchor tag
    | some .blockMappingStart =>
      if block then mapping (do drop; blockEntries fuel []) else absent anchor tag
    | _ => absent anchor tag

def nodeUnless (ts : List Token) (block bare : Bool) : Nat → Build Nat
  | 0 => throw .malformed
  | fuel + 1 => do if ← nextIn ts then nothing else node block bare fuel

def blockItems : Nat → List Nat → Build (List Nat)
  | 0, _ => throw .malformed
  | fuel + 1, acc => do
    if ← dropIf .blockEntry then
      let item ← nodeUnless [.blockEntry, .blockEnd] true false fuel
      blockItems fuel (item :: acc)
    else
      require .blockEnd
      return acc.reverse

/-- The items of a sequence without indentation. -/
def bareItems : Nat → List Nat → Build (List Nat)
  | 0, _ => throw .malformed
  | fuel + 1, acc => do
    if ← dropIf .blockEntry then
      let item ← nodeUnless [.blockEntry, .key, .value, .blockEnd] true false fuel
      bareItems fuel (item :: acc)
    else return acc.reverse

def blockEntries : Nat → List (Nat × Nat) → Build (List (Nat × Nat))
  | 0, _ => throw .malformed
  | fuel + 1, acc => do
    if ← dropIf .key then
      let key ← nodeUnless [.key, .value, .blockEnd] true true fuel
      let value ← if ← dropIf .value then nodeUnless [.key, .value, .blockEnd] true true fuel
        else nothing
      blockEntries fuel ((key, value) :: acc)
    else
      require .blockEnd
      return acc.reverse

/-- The items of a flow sequence; a key makes an item a mapping with one entry. -/
def flowItems (first : Bool) : Nat → List Nat → Build (List Nat)
  | 0, _ => throw .malformed
  | fuel + 1, acc => do
    if ← dropIf .flowSequenceEnd then return acc.reverse
    if !first then require .flowEntry
    if ← nextIn [.key] then
      let item ← collect none .mapping (flowPair fuel)
      flowItems false fuel (item :: acc)
    else if ← dropIf .flowSequenceEnd then return acc.reverse
    else
      let item ← node false false fuel
      flowItems false fuel (item :: acc)

/-- The mapping with one entry that a key makes of an item. -/
def flowPair : Nat → Build Content
  | 0 => throw .malformed
  | fuel + 1 => do
    drop
    let key ← nodeUnless [.value, .flowEntry, .flowSequenceEnd] false false fuel
    let value ← if ← dropIf .value then
        nodeUnless [.flowEntry, .flowSequenceEnd] false false fuel
      else nothing
    return .mapping [(key, value)]

/-- The entries of a flow mapping; one without a key mark has no value. -/
def flowEntries (first : Bool) :
    Nat → List (Nat × Nat) → Build (List (Nat × Nat))
  | 0, _ => throw .malformed
  | fuel + 1, acc => do
    if ← dropIf .flowMappingEnd then return acc.reverse
    if !first then require .flowEntry
    if ← dropIf .key then
      let key ← nodeUnless [.value, .flowEntry, .flowMappingEnd] false false fuel
      let value ← if ← dropIf .value then
          nodeUnless [.flowEntry, .flowMappingEnd] false false fuel
        else nothing
      flowEntries false fuel ((key, value) :: acc)
    else if ← dropIf .flowMappingEnd then return acc.reverse
    else
      let key ← node false false fuel
      flowEntries false fuel ((key, ← nothing) :: acc)

end

def usualHandles : List (String × String) := [("!", "!"), ("!!", Tag.common)]

/-- The directives before a document: one version at most, and no handle twice. -/
def directives : Nat → (versions : Nat) → (handles : List (String × String)) → Build Unit
  | 0, _, _ => throw .malformed
  | fuel + 1, versions, handles => do
    match ← peek with
    | some (.directive (.version major)) =>
      drop
      if versions ≠ 0 || major ≠ 1 then throw .malformed
      directives fuel 1 handles
    | some (.directive (.handle name expansion)) =>
      drop
      if (handles.lookup name).isSome then throw .malformed
      directives fuel versions ((name, expansion) :: handles)
    | some (.directive .reserved) =>
      drop
      directives fuel versions handles
    | _ => modify fun s => { s with handles := handles ++ usualHandles }

def endMarks : Nat → Build Unit
  | 0 => return
  | fuel + 1 => do if ← dropIf .documentEnd then endMarks fuel

/-- The end of a text: marks at most. What follows them is read as far as it can begin a
document. -/
def finish (fuel : Nat) : Build Unit := do
  endMarks fuel
  if (← peek).isSome then
    directives fuel 0 []
    throw .malformed

/-- The root of the only document of a text; none if there is nothing. -/
def document (fuel : Nat) : Build (Option Nat) := do
  match ← peek with
  | none => return none
  | some first =>
    let explicit := match first with
      | .directive _ | .documentStart => true
      | _ => false
    if explicit then
      directives fuel 0 []
      require .documentStart
    let bare := match ← peek with
      | none | some (.directive _) | some .documentStart | some .documentEnd => explicit
      | _ => false
    let root ← if bare then nothing else node true false fuel
    finish fuel
    return some root

end Builder

/-- The nodes of a document, and its root; none if the document is nothing. -/
def Nodes.ofTokens (tokens : List Token) (trouble : Option Trouble) :
    Except Trouble (Nodes × Option Nat) := do
  let start : Builder := ⟨tokens, trouble, Builder.usualHandles, #[], [], 0⟩
  let (root, s) ← (Builder.document (8 * tokens.length + 8)).run start
  return (s.nodes, root)

end Markup

end AssignmentSearch
