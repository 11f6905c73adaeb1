/-!
# Switches

The options of the program and their spellings.
-/

namespace AssignmentSearch

inductive Switch where
  | help
  | algorithm
  | seed
  | historyFolder
  | logFolder
  | json
  | verbose
  deriving DecidableEq, Repr

namespace Switch

/-- All spellings, in the order in which messages list them. -/
def spellings : List (String × Switch) :=
  [("-h", help), ("--help", help), ("--algo", algorithm), ("--seed", seed),
    ("--history-dir", historyFolder), ("--log-dir", logFolder), ("--json", json),
    ("-v", verbose), ("--verbose", verbose)]

def ofSpelling? (text : String) : Option Switch := spellings.lookup text

def spellingsOf (s : Switch) : List String :=
  (spellings.filter fun e => e.2 = s).map (·.1)

def label (s : Switch) : String := "/".intercalate s.spellingsOf

def takesOperand : Switch → Bool
  | algorithm | seed | historyFolder | logFolder => true
  | help | json | verbose => false

end Switch

end AssignmentSearch
