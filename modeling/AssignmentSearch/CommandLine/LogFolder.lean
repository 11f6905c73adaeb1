import AssignmentSearch.Surroundings

/-!
# The folder of logs

Every run opens a log of its own, named for its time. Before it does, older logs are deleted until
there is room for one more.
-/

namespace AssignmentSearch

/-- An open log: its file, and the least urgent level it takes. -/
structure Log where
  file : FilePath
  threshold : Nat

namespace Log

def taken (log : Log) (entries : List Entry) : List Entry :=
  entries.filter fun e => log.threshold ≤ e.level.number

/-- A report as a log holds it, without its time. -/
def line (e : Entry) : String := "[" ++ e.level.name ++ "] " ++ e.part ++ " - " ++ e.message

end Log

namespace LogFolder

variable {α : Type}

def part : String := "vm_placement.cli"

/-- At most so many logs, the new one included. -/
def capacity : Nat := 10

def opening : List Char := "vmplace_".toList

def ending : List Char := ".log".toList

def logName (time : String) : String :=
  String.ofList (opening ++ time.toList ++ ending)

def isLogName (name : String) : Bool :=
  opening.isPrefixOf name.toList && ending.isSuffixOf (name.toList.drop opening.length)

/-- Names with the times of their last change, the latest first. Names of one time keep their
order. -/
def newestFirst (names : List (String × Int)) : List (String × Int) :=
  names.mergeSort fun a b => b.2 ≤ a.2

/-- The logs that have to go before there is room for one more. -/
def surplus (names : List (String × Int)) : List (String × Int) :=
  (newestFirst names).drop (capacity - 1)

/-- The logs in a folder, with the times of their last change. -/
def logs (folder : FilePath) (files : Files) : List (String × Int) :=
  ((files.namesIn folder.place).filter isLogName).map fun name =>
    (name, files.changed (folder.place ++ [name]))

def trouble (file : FilePath) : Entry := ⟨.warning, part, "删除旧日志失败：" ++ file.text⟩

/-- Deletes the surplus. A log that cannot be deleted is reported and stays. -/
def prune (folder : FilePath) : Attempt (Surroundings α) Unit := do
  let found := logs folder (← get).files
  for (name, _) in surplus found do
    let file := folder.join name
    let _ ← Surroundings.tryAccess (trouble file) (Files.delete file)

def openLog (folder : FilePath) (time : String) (threshold : Nat) :
    Attempt (Surroundings α) Log := do
  Surroundings.access (Files.makeFolder folder)
  prune folder
  let file := folder.join (logName time)
  Surroundings.access (Files.write file "")
  return ⟨file, threshold⟩

end LogFolder

end AssignmentSearch
