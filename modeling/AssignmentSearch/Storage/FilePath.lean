/-!
# File paths

Paths as lists of names. Empty names and single dots are dropped when a text is read.
-/

namespace AssignmentSearch

/-- The slashes a path begins with, and the names after them. -/
structure FilePath where
  root : String
  parts : List String
  deriving DecidableEq, Repr

namespace FilePath

/-- One or two slashes keep their number, more count as one. -/
def rootOf (cs : List Char) : String :=
  match (cs.takeWhile (· = '/')).length with
  | 0 => ""
  | 2 => "//"
  | _ => "/"

def split : List Char → List Char → List (List Char)
  | acc, [] => [acc.reverse]
  | acc, c :: rest => if c = '/' then acc.reverse :: split [] rest else split (c :: acc) rest

def ofText (s : String) : FilePath :=
  ⟨rootOf s.toList,
    ((split [] s.toList).filter fun p => p ≠ [] ∧ p ≠ ['.']).map String.ofList⟩

/-- The written form; a path without names is a dot. -/
def text (p : FilePath) : String :=
  if p.root = "" ∧ p.parts = [] then "." else p.root ++ "/".intercalate p.parts

/-- A path below another; a path with a root stands alone. -/
def join (p : FilePath) (s : String) : FilePath :=
  let q := ofText s
  if q.root = "" then ⟨p.root, p.parts ++ q.parts⟩ else q

def name (p : FilePath) : String := p.parts.getLastD ""

def parent (p : FilePath) : FilePath := ⟨p.root, p.parts.dropLast⟩

/-- Whether a place begins all others of its kind: a root, the present folder, or one above it. -/
def isBase (place : List String) : Bool :=
  place = ["/"] || place = ["//"] || place.all (· = "..")

/-- The place one name further; two dots lead up, and a root is above itself. -/
def further (place : List String) (part : String) : List String :=
  if part ≠ ".." then place ++ [part]
  else if place = ["/"] ∨ place = ["//"] then place
  else if isBase place then place ++ [".."]
  else place.dropLast

def base (p : FilePath) : List String := if p.root = "" then [] else [p.root]

/-- The names that lead to the place, with steps up carried out. -/
def place (p : FilePath) : List String := p.parts.foldl further p.base

def hasNull (p : FilePath) : Bool := p.parts.any fun part => part.toList.contains '\x00'

end FilePath

end AssignmentSearch
