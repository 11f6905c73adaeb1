import AssignmentSearch.Markup.Node

/-!
# Merging

A mapping with merge keys takes over the entries of the mappings they name. Those come before its
own, and of several mappings in a sequence the last one first, so that the first one counts in the
end. A node is changed for good, wherever it is referred to.
-/

namespace AssignmentSearch

namespace Markup

/-- A computation that may change nodes. -/
abbrev Merge (β : Type) := StateT Nodes (Except Trouble) β

namespace Merge

def node (number : Nat) : Merge Node := do
  match (← get)[number]? with
  | some n => return n
  | none => throw .malformed

def change (number : Nat) (f : Node → Node) : Merge Unit := modify fun s => s.modify number f

/-- Makes some entries what a mapping holds. -/
def hold (number : Nat) (entries : List (Nat × Nat)) : Merge Unit :=
  change number fun n => { n with content := .mapping entries }

def entries (number : Nat) : Merge (List (Nat × Nat)) := do
  match (← node number).content with
  | .mapping entries => return entries
  | _ => throw .malformed

/-- Whether a node has one of the tags that make a key special. -/
def isSpecial (nodes : Nodes) (number : Nat) : Bool :=
  nodes[number]?.any fun n => n.tag = .merge || n.tag = .value

/-- Takes over what the merge keys of a mapping name, after what has been merged so far. A key for
the value of a mapping becomes a text. -/
def flattenFrom : Nat → Nat → List (Nat × Nat) → Merge Unit
  | 0, _, _ => throw .malformed
  | fuel + 1, number, merged => do
    let own ← entries number
    let nodes ← get
    match own.findIdx? fun e => isSpecial nodes e.1, own.find? fun e => isSpecial nodes e.1 with
    | some i, some (key, value) =>
      if (← node key).tag = .value then
        change key fun n => { n with tag := .str }
        flattenFrom fuel number merged
      else
        hold number (own.eraseIdx i)
        let part (number : Nat) : Merge (List (Nat × Nat)) := do
          let _ ← entries number
          flattenFrom fuel number []
          entries number
        match (← node value).content with
        | .sequence items =>
          let parts ← items.mapM part
          flattenFrom fuel number (merged ++ parts.reverse.flatten)
        | _ =>
          let added ← part value
          flattenFrom fuel number (merged ++ added)
    | _, _ => hold number (merged ++ own)

def keyCount (nodes : Nodes) : Nat :=
  nodes.foldl (fun count n => match n.content with
    | .mapping entries => count + entries.length
    | _ => count) 0

/-- Takes over what the merge keys of a mapping name. Every step of it drops a merge key or changes
a tag. -/
def flatten (number : Nat) : Merge Unit := do
  let nodes ← get
  flattenFrom (2 * (keyCount nodes + nodes.size) + 2) number []

end Merge

end Markup

end AssignmentSearch
