import AssignmentSearch.Markup.Merge
import AssignmentSearch.Text.Base64

/-!
# Values of nodes

Scalars have their values at once. A collection is made empty and filled later, after those met
before it, so that it may lie in itself. A mapping that is tagged as a scalar stands for the value
under its value key.
-/

namespace AssignmentSearch

namespace Markup

/-- A value: one without parts, or the collection that a node makes. -/
inductive Made where
  | plain (d : Datum)
  | collection (number : Nat)

inductive Filling where
  | list (items : List Made)
  | dict (entries : List (Datum × Made))
  | set (items : List Datum)

/-- A maker of values: the nodes, the values of those met, the collections to fill next, those to
fill after them with the latest first, and the fillings of the others. -/
structure Maker where
  nodes : Nodes
  made : Array (Option Made)
  waiting : List Nat
  later : List Nat
  fillings : Array (Option Filling)

abbrev Make (β : Type) := StateT Maker (Except Trouble) β

namespace Tag

def isCollection : Tag → Bool
  | sequence | mapping | set | orderedPairs | pairs => true
  | _ => false

def bytesOf (text : String) : Except Trouble Datum :=
  match if text.toList.all (·.toNat < 128) then Base64.read text.toList else none with
  | some content => .ok (.bytes content)
  | none => .error .malformed

def valueOf (tag : Tag) (text : String) : Except Trouble Datum :=
  match tag with
  | null => .ok .null
  | bool => Literal.bool text
  | int => Literal.int text
  | float => Literal.float text
  | stamp => Stamp.ofText text
  | str => .ok (.str text)
  | binary => bytesOf text
  | _ => .error .malformed

end Tag

namespace Maker

def node (number : Nat) : Make Node := do
  match (← get).nodes[number]? with
  | some n => return n
  | none => throw .malformed

/-- The text of a scalar; that of a mapping lies under its first value key. -/
def scalarText : Nat → Nat → Make String
  | 0, _ => throw (.fault .tooDeep)
  | fuel + 1, number => do
    match (← node number).content with
    | .scalar text => return text
    | .sequence _ => throw .malformed
    | .mapping entries =>
      let nodes := (← get).nodes
      match entries.find? fun e => nodes[e.1]?.any (·.tag = .value) with
      | some (_, value) => scalarText fuel value
      | none => throw .malformed

def plainValue (number : Nat) : Make Datum := do
  let n ← node number
  let known := match n.tag with
    | .merge | .value | .unknown => false
    | _ => true
  if !known then throw .malformed
  let text ← scalarText ((← get).nodes.size + 1) number
  match n.tag, n.content with
  | .stamp, .mapping _ => throw (.fault .dateOfCollection)
  | tag, _ => (tag.valueOf text : Except Trouble Datum)

/-- The value of a node. Each node makes one value. -/
def value (number : Nat) : Make Made := do
  match (← get).made.getD number none with
  | some x => return x
  | none =>
    let isCollection := (← node number).tag.isCollection
    let x ← if isCollection then pure (.collection number) else .plain <$> plainValue number
    modify fun s => { s with
      made := s.made.setIfInBounds number (some x)
      later := if isCollection then number :: s.later else s.later }
    return x

def items (number : Nat) : Make (List Nat) := do
  match (← node number).content with
  | .sequence items => return items
  | _ => throw .malformed

def entries (number : Nat) : Make (List (Nat × Nat)) := do
  match (← node number).content with
  | .mapping _ =>
    let s ← get
    let (_, nodes) ← ((Merge.flatten number).run s.nodes : Except Trouble (Unit × Nodes))
    set { s with nodes }
    match (← node number).content with
    | .mapping entries => return entries
    | _ => throw .malformed
  | _ => throw .malformed

/-- The entries of a dictionary; keys have no parts. -/
def fields : List (Nat × Nat) → List (Datum × Made) → Make (List (Datum × Made))
  | [], acc => return acc
  | (key, val) :: rest, acc => do
    match ← value key with
    | .collection _ => throw .malformed
    | .plain k =>
      let v ← value val
      fields rest (Datum.put acc k v)

def pair (number : Nat) : Make Made := do
  match (← node number).content with
  | .mapping [(key, val)] =>
    let _ ← value key
    let _ ← value val
    return .plain (.other "tuple" "")
  | _ => throw .malformed

def filling (number : Nat) : Make Filling := do
  match (← node number).tag with
  | .mapping => return .dict (← fields (← entries number) [])
  | .set => return .set ((← fields (← entries number) []).map (·.1))
  | .orderedPairs | .pairs => return .list (← (← items number).mapM pair)
  | _ => return .list (← (← items number).mapM value)

/-- The collection to fill next: they are filled in the order in which they were met. -/
def next? : Make (Option Nat) := do
  let s ← get
  match s.waiting with
  | number :: rest =>
    set { s with waiting := rest }
    return some number
  | [] =>
    match s.later.reverse with
    | number :: rest =>
      set { s with waiting := rest, later := [] }
      return some number
    | [] => return none

def fill : Nat → Make Unit
  | 0 => return
  | fuel + 1 => do
    match ← next? with
    | none => return
    | some number =>
      let f ← filling number
      modify fun s => { s with fillings := s.fillings.setIfInBounds number (some f) }
      fill fuel

/-- A value with its parts to a depth; further down collections are empty. -/
def unfold (fillings : Array (Option Filling)) : Nat → Made → Datum
  | _, .plain d => d
  | 0, .collection number =>
    match fillings.getD number none with
    | some (.dict _) => .dict []
    | some (.set _) => .set []
    | _ => .list []
  | depth + 1, .collection number =>
    match fillings.getD number none with
    | some (.dict entries) => .dict (entries.map fun (k, v) => (k, unfold fillings depth v))
    | some (.set items) => .set items
    | some (.list items) => .list (items.map (unfold fillings depth))
    | none => .list []

/-- The depth to which scenarios are read. -/
def maxDepth : Nat := 4

def root (number : Nat) : Make Datum := do
  let x ← value number
  fill ((← get).nodes.size + 1)
  return unfold (← get).fillings maxDepth x

end Maker

/-- The value of a text; nothing has the value null. -/
def read (text : String) : Except Trouble Datum := do
  let (tokens, trouble) := Token.ofText text
  match ← Nodes.ofTokens tokens trouble with
  | (_, none) => return .null
  | (nodes, some number) =>
    let maker : Maker :=
      ⟨nodes, Array.replicate nodes.size none, [], [], Array.replicate nodes.size none⟩
    let (d, _) ← (Maker.root number).run maker
    return d

end Markup

end AssignmentSearch
