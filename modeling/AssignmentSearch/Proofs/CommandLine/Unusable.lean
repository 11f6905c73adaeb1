import AssignmentSearch.CommandLine.Program
import AssignmentSearch.Proofs.Scenario.Escapes
import AssignmentSearch.Proofs.Session.Requests

/-!
# Scenarios that cannot be used

What the program makes of a file whose text is no scenario: it blames the configuration, shows why and
ends with code 2, unless something in the text escapes that blame.
-/

namespace AssignmentSearch

namespace Scenario

theorem answer_load_of_error {path : FilePath} {w : Surroundings Float} {text : String} {f : Fault}
    (htext : textOf path w.files = .ok text) (h : (dataOfText path.text text >>= check) = .error f) :
    ((load path).start w).1 = .error f := by
  rw [load, Attempt.start_bind_ok (Attempt.start_get w), htext]
  exact Attempt.error_of_bind ((Service.answer_accept _ w).trans h)

end Scenario

namespace Program

theorem isHandled_iff {f : Fault} :
    isHandled f = true ↔ f.kind = .missingFile ∨ f.kind = .configuration :=
  decide_eq_true_iff

theorem start_report (level : Level) (message : String) (s : Service) :
    (report level message).start s = (.ok (), { s with
      surroundings := { s.surroundings with
        journal := ⟨level, part, message⟩ :: s.surroundings.journal } }) := rfl

theorem answer_body_of_error (limit : Nat) {a : Arguments} (cfg : Settings) (log : Log) {s : Service}
    {f : Fault} (h : ∀ w : Surroundings Float, w.files = s.surroundings.files →
      ((Scenario.load a.scenario).start w).1 = .error f) :
    ((body limit a cfg log).start s).1 =
      if isHandled f then .ok (.shown (failure 2 f.message)) else .error f := by
  have hload : ∀ j, ((Service.onSurroundings (Scenario.load a.scenario)).start { s with
      surroundings := { s.surroundings with journal := j } }).1 = .error f := by
    intro j
    rw [Service.onSurroundings, Attempt.start_zoom]
    exact h _ rfl
  rw [body, Attempt.start_bind_ok (start_report _ _ _),
    Attempt.start_bind_ok (Attempt.start_outcome _ _), hload]
  dsimp only
  split <;> rfl

/-- The program comes to the file of a scenario and finds a text there. -/
def Finds (time : String) (words : List String) (s : Service) (path : FilePath) (text : String) : Prop :=
  ∃ a cfg log t, Arguments.ofTexts words = .ok a ∧ a.scenario = path ∧
    Settings.ofEnvironment s.root s.environment = .ok cfg ∧
      (Service.onSurroundings (LogFolder.openLog (logFolder a cfg) time (threshold a))).start s =
        (.ok log, t) ∧ Scenario.textOf path t.surroundings.files = .ok text

theorem ending_of_error {limit : Nat} {time : String} {words : List String} {s : Service}
    {path : FilePath} {text : String} {f : Fault} (hfinds : Finds time words s path text)
    (h : (Scenario.dataOfText path.text text >>= Scenario.check) = .error f) :
    (run limit time words s).1.ending =
      if isHandled f then .shown (failure 2 f.message) else .failed f := by
  obtain ⟨a, cfg, log, t, hargs, rfl, hcfg, hopen, htext⟩ := hfinds
  have hbody := answer_body_of_error limit cfg log fun w (hw : w.files = t.surroundings.files) =>
    Scenario.answer_load_of_error (hw ▸ htext) h
  have hending : (run limit time words s).1.ending = ending ((body limit a cfg log).start t).1 := by
    rw [run, hargs]
    dsimp only
    rw [hcfg]
    dsimp only
    rw [withSettings, hopen]
    rfl
  rw [hending, hbody]
  split <;> rfl

end Program

/-- A scenario that cannot be used is turned down as a configuration, unless something in it slips: a
key that is no text, an identifier that occurs twice and is too long to be told, or a part of its text
that stands for no value. The program shows why a scenario was turned down and ends with code 2; what
slips it does not handle. -/
theorem unusable_scenario_is_blamed_unless_it_slips (d : Datum) (text : String) :
    (∀ f, Escapes (Scenario.check d) f ↔ Scenario.Slips d f) ∧
      (∀ f, (Escapes (Scenario.parse (.str text)) f ↔ Scenario.TextSlips text f) ∧
        (Scenario.TextSlips text f → f.kind ∈ Fault.lapseKinds)) ∧
        ∀ limit time words s path, Program.Finds time words s path text →
          (∀ x, Scenario.parse (.str text) ≠ .ok x) →
            (∀ f, Scenario.TextSlips text f →
              (Program.run limit time words s).1.ending = .failed f) ∧
            ((∀ f, ¬ Scenario.TextSlips text f) → ∃ f, f.kind = .configuration ∧
              (Scenario.dataOfText path.text text >>= Scenario.check) = .error f ∧
                (Program.run limit time words s).1.ending =
                  .shown (Program.failure 2 f.message)) := by
  refine ⟨fun _ => Scenario.escapes_check_iff,
    fun _ => ⟨Scenario.escapes_text_iff _, Scenario.TextSlips.kind⟩,
    fun limit time words s path hfinds hunusable => ?_⟩
  constructor
  · intro f hslips
    have hfault := (Scenario.escapes_text_iff path.text).mpr hslips
    rw [Program.ending_of_error hfinds hfault.1, if_neg]
    rw [Program.isHandled_iff]
    have hkind := hslips.kind
    rintro (h | h) <;> rw [h] at hkind <;> exact absurd hkind (by decide)
  · intro hslips
    cases hcheck : Scenario.dataOfText path.text text >>= Scenario.check with
    | ok x =>
      exact absurd (Scenario.text_eq_ok_iff.mpr (Scenario.text_eq_ok_iff.mp hcheck)) (hunusable x)
    | error f =>
      have hkind : f.kind = .configuration := by
        by_contra hne
        exact hslips f ((Scenario.escapes_text_iff _).mp ⟨hcheck, hne⟩)
      refine ⟨f, hkind, rfl, ?_⟩
      rw [Program.ending_of_error hfinds hcheck, if_pos]
      exact Program.isHandled_iff.mpr (Or.inr hkind)

/-- A service in a folder with one file, whose text is a mapping with a number for its key. -/
def keyedService : Service where
  registry := []
  ids := fun n => toString n
  entropy := id
  issued := 0
  root := ""
  environment := []
  surroundings := ⟨0, 1, Files.empty.set ["s.yaml"] (.file "1: 2"), []⟩

/-- The key escapes the blame, and the program ends with its fault. -/
theorem unusable_scenario_is_blamed_unless_it_slips_numberKey :
    Escapes (Scenario.parse (.str "1: 2")) .keyNotText ∧
      (Program.run 1 "20240101_000000" ["s.yaml", "--log-dir", "logs"] keyedService).1.ending =
        .failed .keyNotText := by
  have hslips : Scenario.TextSlips "1: 2" .keyNotText := by
    have hkey : (Markup.read "1: 2").toOption.any Scenario.hasOtherKey = true := by decide +kernel
    cases hread : Markup.read "1: 2" with
    | error t =>
      rw [hread] at hkey
      cases hkey
    | ok d =>
      rw [hread] at hkey
      exact .data hread (.key hkey)
  have hfinds : Program.Finds "20240101_000000" ["s.yaml", "--log-dir", "logs"] keyedService
      (FilePath.ofText "s.yaml") "1: 2" := by
    rcases hlog : (LogFolder.openLog (FilePath.ofText "logs") "20240101_000000" 20).start
      keyedService.surroundings with ⟨opened, w⟩
    have hopened : ((LogFolder.openLog (FilePath.ofText "logs") "20240101_000000" 20).start
        keyedService.surroundings).1.isOk = true := by decide +kernel
    have hfile : (Scenario.textOf (FilePath.ofText "s.yaml") ((LogFolder.openLog
        (FilePath.ofText "logs") "20240101_000000" 20).start
          keyedService.surroundings).2.files).toOption = some "1: 2" := by decide +kernel
    rw [hlog] at hopened hfile
    cases opened with
    | error e => cases hopened
    | ok log =>
      cases htext : Scenario.textOf (FilePath.ofText "s.yaml") w.files with
      | error e =>
        rw [htext] at hfile
        cases hfile
      | ok text =>
        rw [htext] at hfile
        cases hfile
        refine ⟨_, _, log, { keyedService with surroundings := w }, rfl, rfl, rfl, ?_, htext⟩
        rw [Service.onSurroundings, Attempt.start_zoom]
        exact congrArg (fun p => (p.1, { keyedService with surroundings := p.2 })) hlog
  obtain ⟨-, htext, hrun⟩ :=
    unusable_scenario_is_blamed_unless_it_slips (.dict [(.int 1, .int 2)]) "1: 2"
  have hescapes := (htext _).1.mpr hslips
  refine ⟨hescapes, (hrun 1 _ _ _ _ hfinds fun x hx => ?_).1 _ hslips⟩
  rw [hescapes.1] at hx
  cases hx

end AssignmentSearch
