import AssignmentSearch.Datum.Convert

/-!
# Settings

Parameters that scenarios leave out. They come from the environment, where an empty text counts as
none, and are not checked before they are used.
-/

namespace AssignmentSearch

/-- The names and values of the environment. -/
abbrev Environment := List (String × String)

/-- The parameters; numbers and the folder for records are kept as they were given. -/
structure Settings where
  initial : Datum
  cold : Datum
  rate : Datum
  iterations : Datum
  searches : Datum
  seed : Datum
  historyFolder : Datum
  logFolder : String

namespace Settings

/-- The parameters without an environment. -/
def usual : Settings := ⟨.float 100, .float 0.1, .float 0.9, .int 1000, .int 1, .null, .str "", ""⟩

/-- A value without the blanks around it; none if nothing is left. -/
def given? (env : Environment) (name : String) : Option String :=
  let value := strip ((env.lookup name).getD "")
  if value = "" then none else some value

def float (env : Environment) (name : String) (absent : Datum) : Except Fault Datum :=
  match given? env name with
  | none => .ok absent
  | some value => .float <$> (Datum.str value).toFloat

def int (env : Environment) (name : String) (absent : Datum) : Except Fault Datum :=
  match given? env name with
  | none => .ok absent
  | some value => .int <$> Datum.intOfText value

/-- A folder for reports, unless the environment names one. -/
def logFolderIn (root : String) (env : Environment) : String :=
  match env.lookup "VMPLACE_LOG_DIR" with
  | none | some "" => root ++ "/logs"
  | some folder => folder

/-- The settings of an environment; `root` is the folder of the program. -/
def ofEnvironment (root : String) (env : Environment) : Except Fault Settings := do
  return {
    initial := ← float env "VMPLACE_INITIAL_TEMPERATURE" usual.initial
    cold := ← float env "VMPLACE_COLD_TEMPERATURE" usual.cold
    rate := ← float env "VMPLACE_COOLING_RATE" usual.rate
    iterations := ← int env "VMPLACE_MAX_ITERATIONS" usual.iterations
    searches := ← int env "VMPLACE_NEIGHBORHOOD_SEARCHES" usual.searches
    seed := ← int env "VMPLACE_SEED" usual.seed
    historyFolder := .str ((env.lookup "VMPLACE_HISTORY_DIR").getD "")
    logFolder := logFolderIn root env }

def dump (s : Settings) : List (String × Datum) :=
  [("initial_temperature", s.initial), ("cold_temperature", s.cold), ("cooling_rate", s.rate),
    ("max_iterations", s.iterations), ("neighborhood_searches", s.searches), ("seed", s.seed),
    ("history_dir", s.historyFolder), ("log_dir", .str s.logFolder)]

end Settings

end AssignmentSearch
