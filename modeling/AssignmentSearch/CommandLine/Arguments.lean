import AssignmentSearch.CommandLine.Operand
import AssignmentSearch.CommandLine.Word
import AssignmentSearch.Datum.Convert
import AssignmentSearch.Scenario.Basic
import AssignmentSearch.Storage.FilePath

/-!
# Arguments of the program

One scenario and any number of switches, in any order. Of a repeated switch the last operand counts.

The rules are those of the command-line reader up to its release 3.11.8. Later releases, 3.11.10 and
3.12.3 among them, read two dashes after an equals sign as any other operand, so that none is blank,
and leave a letter over that spells no switch where these rules refuse the run.
-/

namespace AssignmentSearch

structure Arguments where
  scenario : FilePath
  algorithm : Operand Algorithm
  seed : Operand Int
  historyFolder : Operand String
  logFolder : Operand FilePath
  json : Bool
  verbose : Bool

inductive Stop where
  /-- The usage was asked for. -/
  | help
  | refused (r : Refusal)

namespace Arguments

/-- What has been read: a scenario if one was named, the switches, and words left over. -/
structure Draft where
  scenario : Option String
  arguments : Arguments
  leftOver : List String

def Draft.empty : Draft :=
  ⟨none, ⟨FilePath.ofText "", .absent, .absent, .absent, .absent, false, false⟩, []⟩

/-- A word that nothing asks for. -/
def Draft.leave (d : Draft) (text : String) : Draft := { d with leftOver := d.leftOver ++ [text] }

/-- A plain word names the scenario if none is named yet. -/
def Draft.take (d : Draft) (text : String) : Draft :=
  match d.scenario with
  | none => { d with scenario := some text }
  | some _ => d.leave text

def choices : List Algorithm := [.annealing, .gravity]

def algorithmOf (text : String) : Except Refusal Algorithm :=
  match Algorithm.ofName? text with
  | some a => .ok a
  | none => .error (.notChoice .algorithm text (choices.map (·.name)))

def seedOf (text : String) : Except Refusal Int :=
  match Datum.intOfText text with
  | .ok n => .ok n
  | .error _ => .error (.notInteger .seed text)

def set (a : Arguments) (s : Switch) (text : String) : Except Refusal Arguments := do
  match s with
  | .algorithm => return { a with algorithm := ← Operand.ofText algorithmOf text }
  | .seed => return { a with seed := ← Operand.ofText seedOf text }
  | .historyFolder => return { a with historyFolder := ← Operand.ofText .ok text }
  | .logFolder => return { a with logFolder := ← Operand.ofText (.ok ∘ FilePath.ofText) text }
  | .help | .json | .verbose => return a

def raise (a : Arguments) : Switch → Except Stop Arguments
  | .help => .error .help
  | .json => .ok { a with json := true }
  | .verbose => .ok { a with verbose := true }
  | _ => .ok a

/-- The switches of a run of short ones. What spells none is taken for the operand of the switch
before it, which has none: the run is refused, as it is up to release 3.11.8. -/
def shared (s : Switch) : List Char → Except Refusal (List Switch)
  | [] => .error (.needlessOperand s "")
  | c :: cs =>
    match Switch.ofSpelling? (String.ofList ['-', c]), cs with
    | some t, [] => .ok [s, t]
    | some t, d :: ds => (s :: ·) <$> shared t (d :: ds)
    | none, _ => .error (.needlessOperand s (String.ofList (c :: cs)))

def refuse {β : Type} : Except Refusal β → Except Stop β
  | .ok x => .ok x
  | .error r => .error (.refused r)

def read : Draft → List Word → Except Stop Draft
  | d, [] => .ok d
  | d, .plain text :: .separator :: rest =>
    read (if d.scenario.isNone then d.take text else (d.leave text).leave "--") rest
  | d, .plain text :: rest => read (d.take text) rest
  | d, .separator :: .plain text :: rest =>
    read (if d.scenario.isNone then d.take text else (d.leave "--").leave text) rest
  | d, .separator :: rest => read (d.leave "--") rest
  | d, .stray text :: rest => read (d.leave text) rest
  | d, .run s text :: rest => do
    let switches ← refuse (shared s text)
    let arguments ← switches.foldlM raise d.arguments
    read { d with arguments } rest
  | d, .switch s (some text) :: rest => do
    if s.takesOperand then
      let arguments ← refuse (set d.arguments s text)
      read { d with arguments } rest
    else .error (.refused (.needlessOperand s text))
  | d, .switch s none :: rest =>
    if s.takesOperand then
      match rest with
      | .plain text :: rest => do
        let arguments ← refuse (set d.arguments s text)
        read { d with arguments } rest
      | _ => .error (.refused (.noOperand s))
    else do
      let arguments ← raise d.arguments s
      read { d with arguments } rest

/-- The arguments of a draft that names a scenario and leaves nothing over. -/
def ofDraft (d : Draft) : Except Refusal Arguments :=
  match d.scenario, d.leftOver with
  | none, _ => .error .noScenario
  | some text, [] => .ok { d.arguments with scenario := FilePath.ofText text }
  | some _, words => .error (.leftOver words)

def ofTexts (texts : List String) : Except Stop Arguments := do
  let words ← refuse (Word.ofTexts texts)
  let d ← read .empty words
  refuse (ofDraft d)

end Arguments

end AssignmentSearch
