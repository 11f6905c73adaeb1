import AssignmentSearch.Storage.FilePath

/-!
# Files

A tree of folders and files as a value. Every access may be refused: a tape says which accesses the
surroundings turn down, whatever the tree holds.
-/

namespace AssignmentSearch

/-- A folder, a text, or bytes that are no text. -/
inductive Node where
  | folder
  | file (content : String)
  | bytes (content : List UInt8)
  deriving DecidableEq, Repr

inductive Obstacle where
  /-- The surroundings turn the access down. -/
  | refused
  | nullByte
  | missing
  | notFolder
  | tooLong
  /-- Something is there already. -/
  | taken
  | isFolder
  deriving DecidableEq, Repr

/-- Why an access has no answer. -/
structure Denial where
  obstacle : Obstacle
  path : FilePath
  deriving DecidableEq, Repr

/-- The nodes by place, the times at which they were found last changed, the refusals to come, and
the number of accesses so far. -/
structure Files where
  nodes : List (List String × Node)
  changed : List String → Int
  refuses : Nat → Bool
  accesses : Nat

abbrev Access (β : Type) := ExceptT Denial (StateM Files) β

namespace Files

def empty : Files := ⟨[], fun _ => 0, fun _ => false, 0⟩

/-- The node at a place. Roots, the present folder and those above it are folders. -/
def node? (f : Files) (place : List String) : Option Node :=
  if FilePath.isBase place then some .folder
  else (f.nodes.find? fun e => e.1 = place).map (·.2)

def put (place : List String) (n : Node) : List (List String × Node) → List (List String × Node)
  | [] => [(place, n)]
  | e :: rest => if e.1 = place then (place, n) :: rest else e :: put place n rest

def set (f : Files) (place : List String) (n : Node) : Files :=
  { f with nodes := put place n f.nodes }

def remove (f : Files) (place : List String) : Files :=
  { f with nodes := f.nodes.filter fun e => e.1 ≠ place }

/-- The folders on the way to a place, the outermost first. -/
def ancestors (place : List String) : List (List String) :=
  (List.range place.length).map fun i => place.take (i + 1)

/-- Adds folders up to a place; none if a file stands in the way. -/
def addFolders? (f : Files) (place : List String) : Option Files :=
  (ancestors place).foldl (fun acc p => acc.bind fun g =>
    match g.node? p with
    | none => some (g.set p .folder)
    | some .folder => some g
    | some _ => none) (some f)

/-- The number of bytes that a name may have. -/
def nameLimit : Nat := 255

/-- A path has fewer bytes than this. -/
def pathLimit : Nat := 4096

/-- Follows names from a place on. Every place that is left must be a folder; the last one need not
be there. -/
def follow (f : Files) (place : List String) : List String → Except Obstacle (List String)
  | [] => .ok place
  | part :: rest =>
    match f.node? place with
    | none => .error .missing
    | some .folder =>
      if nameLimit < part.utf8ByteSize then .error .tooLong
      else follow f (FilePath.further place part) rest
    | some _ => .error .notFolder

def locate (f : Files) (path : FilePath) : Except Obstacle (List String) :=
  if path.hasNull then .error .nullByte
  else if pathLimit ≤ path.text.utf8ByteSize then .error .tooLong
  else follow f path.base path.parts

/-- Names that can be followed lead to the place that the path tells of. -/
theorem follow_eq {f : Files} {parts : List String} {place there : List String}
    (h : f.follow place parts = .ok there) : there = parts.foldl FilePath.further place := by
  induction parts generalizing place with
  | nil => simpa [follow] using h.symm
  | cons part rest ih =>
    simp only [follow] at h
    split at h
    · cases h
    · split at h
      · cases h
      · exact ih h
    · cases h

/-- Counts an access, turns it down if the tape says so, and finds the place. -/
def enter (path : FilePath) : Access (List String) := do
  let f ← get
  MonadStateOf.set { f with accesses := f.accesses + 1 }
  if f.refuses f.accesses then throw ⟨.refused, path⟩
  match f.locate path with
  | .ok place => return place
  | .error obstacle => throw ⟨obstacle, path⟩

/-- What stands at a path. Where no path leads there is nothing. -/
def look (path : FilePath) : Access (Option Node) :=
  tryCatch (do
    let place ← enter path
    return (← get).node? place) fun d =>
    match d.obstacle with
    | .missing | .notFolder | .nullByte => return none
    | _ => throw d

def makeOne (path : FilePath) : Access Unit := do
  let place ← enter path
  if ((← get).node? place).isSome then throw ⟨.taken, path⟩
  modify fun f => f.set place .folder

/-- A folder that could not be made may be there already. -/
def unlessFolder (path : FilePath) (d : Denial) : Access Unit := do
  if d.obstacle = .nullByte ∨ d.obstacle = .missing then throw d
  if (← look path) ≠ some .folder then throw d

/-- Makes the folder of a path, given by its names from the last to the first, and those it lies in
if one of them is missing. -/
def makeFrom (root : String) : List String → Access Unit
  | [] => tryCatch (makeOne ⟨root, []⟩) (unlessFolder ⟨root, []⟩)
  | last :: rest =>
    let path : FilePath := ⟨root, (last :: rest).reverse⟩
    tryCatch (makeOne path) fun d =>
      if d.obstacle = .missing then do
        makeFrom root rest
        tryCatch (makeOne path) (unlessFolder path)
      else unlessFolder path d

def makeFolder (path : FilePath) : Access Unit := makeFrom path.root path.parts.reverse

/-- Whether there is nothing at a path, or a file without content. -/
def isBlankFile (path : FilePath) : Access Bool := do
  match ← look path with
  | none => return true
  | some (.file content) => return content = ""
  | some (.bytes content) => return content = []
  | some .folder => return false

/-- The place of a file and what it is about to hold, if one can be opened at the path. -/
def openFile (path : FilePath) : Access (List String × Option Node) := do
  let place ← enter path
  match (← get).node? place with
  | some .folder => throw ⟨.isFolder, path⟩
  | found => return (place, found)

/-- Adds text at the end of a file, which is made if there is none. -/
def append (path : FilePath) (text : String) : Access Unit := do
  let (place, found) ← openFile path
  if found = none then modify fun f => f.set place (.file "")
  let _ ← enter path
  modify fun f => match found with
    | some (.file content) => f.set place (.file (content ++ text))
    | some (.bytes content) => f.set place (.bytes (content ++ text.toUTF8.toList))
    | _ => f.set place (.file text)

def write (path : FilePath) (text : String) : Access Unit := do
  let (place, _) ← openFile path
  modify fun f => f.set place (.file "")
  let _ ← enter path
  modify fun f => f.set place (.file text)

/-- Deletes a file. Folders are not deleted. -/
def delete (path : FilePath) : Access Unit := do
  let place ← enter path
  match (← get).node? place with
  | none => throw ⟨.missing, path⟩
  | some .folder => throw ⟨.isFolder, path⟩
  | some _ => modify fun f => f.remove place

def namesIn (f : Files) (place : List String) : List String :=
  f.nodes.filterMap fun (p, _) =>
    if p ≠ [] ∧ p.dropLast = place then p.getLast? else none

/-- The texts below a folder, by their path from it. -/
def textsBelow (f : Files) (place : List String) : List (String × String) :=
  f.nodes.filterMap fun (p, n) =>
    match n with
    | .file content =>
      if place.isPrefixOf p && place.length < p.length then
        some ("/".intercalate (p.drop place.length), content)
      else none
    | _ => none

end Files

end AssignmentSearch
