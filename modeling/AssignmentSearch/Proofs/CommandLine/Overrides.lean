import AssignmentSearch.Proofs.CommandLine.Unusable
import AssignmentSearch.Proofs.Scenario.Rereading

/-!
# Scenarios with overrides

The program writes an accepted scenario out, puts what the command line names in its place, and
hands it to a run of the service, which reads it again.
-/

namespace AssignmentSearch

namespace Scenario

def loaded (path : FilePath) (s : Scenario) : Entry :=
  ⟨.info, part, "成功加载场景：path=" ++ path.text ++ ", algo=" ++ s.algorithm.name ++ ", hosts=" ++
    toString s.hosts.length ++ ", vms=" ++ toString s.vms.length⟩

theorem start_load_of_ok {path : FilePath} {w : Surroundings Float} {text : String} {s : Scenario}
    (htext : textOf path w.files = .ok text) (h : (dataOfText path.text text >>= check) = .ok s) :
    (load path).start w = (.ok s, { w with journal := loaded path s :: w.journal }) := by
  have haccept : (accept (α := Float) (dataOfText path.text text >>= check)).start w =
      (.ok s, w) := by
    rw [h]
    rfl
  rw [load, Attempt.start_bind_ok (Attempt.start_get w), htext]
  dsimp only
  rw [Attempt.start_bind_ok haccept]
  rfl

end Scenario

/-- A run reads its scenario only to check it. -/
theorem Service.run_congr {d e : Datum} (h : Scenario.parse d = Scenario.parse e) (limit : Nat)
    (history : Option Datum) (given : Option Settings) :
    run limit d history given = run limit e history given := by
  have hregister : register d history given = register e history given := by
    rw [register, register, h]
  rw [run, run, create, create, begin, begin, hregister]

namespace Program

variable {limit : Nat} {time : String} {words : List String} {v t : Service} {a : Arguments}
  {cfg : Settings} {log : Log} {text : String} {s : Scenario}

def applied (a : Arguments) (s : Scenario) : Scenario :=
  { s with algorithm := a.algorithm.value?.getD s.algorithm, seed := a.seed.value?.or s.seed }

/-- The data that stand for the seed: those of the scenario unless the arguments name others. -/
def seedData (a : Arguments) (s : Scenario) : Datum :=
  match a.seed with
  | .absent => Scenario.given .int s.seed
  | .blank => .list []
  | .given n => .int n

theorem overridden_eq (a : Arguments) (s : Scenario) :
    overridden a s =
      .object (s.dumpWith (.str (a.algorithm.value?.getD s.algorithm).name) (seedData a s)) := by
  rw [Scenario.dumpWith_eq, overridden, seedData, Scenario.dump]
  simp only [List.map_cons, List.map_nil, override, String.reduceEq, reduceIte]
  cases a.algorithm <;> cases a.seed <;> rfl

theorem parse_overridden {d : Datum} (h : Scenario.check d = .ok s) (a : Arguments) :
    Scenario.parse (overridden a s) = if a.seed = .blank
      then .error (.schema [⟨[.field "seed"], .intType⟩]) else .ok (applied a s) := by
  rw [overridden_eq]
  refine (Scenario.check_dumpWith h _ _).trans ?_
  rw [seedData, applied]
  cases a.seed with
  | absent =>
    dsimp only
    rw [FieldValue.optional_int_given]
    rfl
  | blank => rfl
  | given n => rfl

/-- The program comes to its scenario with these arguments and settings and this log, and finds a
text there. -/
structure Comes (time : String) (words : List String) (v : Service) (a : Arguments) (cfg : Settings)
    (log : Log) (t : Service) (text : String) : Prop where
  arguments : Arguments.ofTexts words = .ok a
  settings : Settings.ofEnvironment v.root v.environment = .ok cfg
  log : (Service.onSurroundings (LogFolder.openLog (logFolder a cfg) time (threshold a))).start v =
    (.ok log, t)
  text : Scenario.textOf a.scenario t.surroundings.files = .ok text

/-- The service with two reports on the run: that it has begun, and that its scenario is loaded. -/
def loadedBy (a : Arguments) (log : Log) (s : Scenario) (t : Service) : Service :=
  { t with surroundings := { t.surroundings with
      journal := Scenario.loaded a.scenario s ::
        ⟨.info, part, "=== 新运行启动，日志文件：" ++ log.file.name ++ " ==="⟩ ::
          t.surroundings.journal } }

def shown (a : Arguments) : Option Reply → Ending
  | some reply => .shown (display a reply)
  | none => .unfinished

theorem start_search (limit : Nat) (a : Arguments) (cfg : Settings) (s : Scenario) (v : Service) :
    (search limit a cfg s).start v =
      (((Service.run limit (overridden a s) (historyFolder a) (some cfg)).start v).1.map (shown a),
        ((Service.run limit (overridden a s) (historyFolder a) (some cfg)).start v).2) := by
  rw [search, Attempt.start_bind]
  rcases (Service.run limit (overridden a s) (historyFolder a) (some cfg)).start v with ⟨r, u⟩
  rcases r with f | reply?
  · rfl
  · cases reply? <;> rfl

theorem start_body (limit : Nat) (cfg : Settings) (log : Log)
    (htext : Scenario.textOf a.scenario t.surroundings.files = .ok text)
    (h : (Scenario.dataOfText a.scenario.text text >>= Scenario.check) = .ok s) :
    (body limit a cfg log).start t = (search limit a cfg s).start (loadedBy a log s t) := by
  have hload : ∀ j, (Service.onSurroundings (Scenario.load a.scenario)).start
      { t with surroundings := { t.surroundings with journal := j } } =
        (.ok s, { t with surroundings := { t.surroundings with
          journal := Scenario.loaded a.scenario s :: j } }) := by
    intro j
    have hloaded :=
      Scenario.start_load_of_ok (w := { t.surroundings with journal := j }) htext h
    rw [Service.onSurroundings, Attempt.start_zoom, hloaded]
  rw [body, Attempt.start_bind_ok (start_report _ _ _),
    Attempt.start_bind_ok (Attempt.start_outcome _ _), hload]
  rfl

/-- What the program does with a scenario that it accepts. -/
theorem run_of_accepted (limit : Nat) (h : Comes time words v a cfg log t text)
    (hcheck : (Scenario.dataOfText a.scenario.text text >>= Scenario.check) = .ok s) {e : Datum}
    (he : Scenario.parse e = Scenario.parse (overridden a s)) :
    let r := (Service.run limit e (historyFolder a) (some cfg)).start (loadedBy a log s t)
    run limit time words v = (⟨ending (r.1.map (shown a)), some log,
      log.taken (since t.surroundings.journal.length r.2.surroundings.journal)⟩, r.2) := by
  rw [run, h.arguments]
  dsimp only
  rw [h.settings]
  dsimp only
  rw [withSettings, h.log]
  dsimp only
  rw [logged, start_body limit cfg log h.text hcheck, start_search, ← Service.run_congr he]

theorem exists_comes (time : String) {words : List String} {v : Service} {text : String}
    (hargs : Arguments.ofTexts words = .ok a)
    (hcfg : Settings.ofEnvironment v.root v.environment = .ok cfg)
    (hlog : ((LogFolder.openLog (logFolder a cfg) time (threshold a)).start
      v.surroundings).1.isOk = true)
    (htext : (Scenario.textOf a.scenario ((LogFolder.openLog (logFolder a cfg) time
      (threshold a)).start v.surroundings).2.files).toOption = some text) :
    ∃ log t, Comes time words v a cfg log t text := by
  rcases hopened : (LogFolder.openLog (logFolder a cfg) time (threshold a)).start v.surroundings
    with ⟨opened, w⟩
  rw [hopened] at hlog htext
  cases opened with
  | error e => cases hlog
  | ok log =>
    refine ⟨log, { v with surroundings := w }, hargs, hcfg, ?_, ?_⟩
    · rw [Service.onSurroundings, Attempt.start_zoom, hopened]
    · dsimp only at htext
      cases hread : Scenario.textOf a.scenario w.files with
      | error e =>
        rw [hread] at htext
        cases htext
      | ok found =>
        rw [hread] at htext
        exact congrArg Except.ok (Option.some.inj htext)

end Program

/-- An accepted scenario that is written out is accepted again for what it is, and with another
algorithm or another seed written into it for the scenario with these. Of what the command line puts
in its place only a blank operand for the seed is turned down. So the program runs an accepted
scenario as the service runs any data that stand for the scenario with its overrides. -/
theorem accepted_scenario_is_run_with_its_overrides {d : Datum} {s : Scenario}
    (h : Scenario.check d = .ok s) :
    Scenario.check (.object s.dump) = .ok s ∧
      (∀ (algorithm : Algorithm) (n : Int),
        Scenario.check (.object (s.dumpWith (.str algorithm.name) (.int n))) =
          .ok { s with algorithm := algorithm, seed := some n }) ∧
      (∀ a, Scenario.parse (Program.overridden a s) = if a.seed = .blank
        then .error (.schema [⟨[.field "seed"], .intType⟩]) else .ok (Program.applied a s)) ∧
      ∀ limit time words v a cfg log t text, Program.Comes time words v a cfg log t text →
        Scenario.dataOfText a.scenario.text text = .ok d →
          ∀ e, Scenario.parse e = Scenario.parse (Program.overridden a s) →
            let r := (Service.run limit e (Program.historyFolder a) (some cfg)).start
              (Program.loadedBy a log s t)
            Program.run limit time words v =
              (⟨Program.ending (r.1.map (Program.shown a)), some log, log.taken
                (Program.since t.surroundings.journal.length r.2.surroundings.journal)⟩, r.2) := by
  refine ⟨?_, fun algorithm n => Scenario.check_dumpWith h algorithm (.int n),
    Program.parse_overridden h, ?_⟩
  · rw [← Scenario.dumpWith_self, Scenario.check_dumpWith h,
      FieldValue.optional_int_given]
    rfl
  · intro limit time words v a cfg log t text hcomes hread e he
    refine Program.run_of_accepted limit hcomes ?_ he
    rw [hread]
    exact h

/-- A scenario with texts and a truth value for numbers, and with much left out. -/
def lenientText : String :=
  "seed: '7'\nhosts:\n- id: '1'\n  pe_count: 2\nvms:\n- id: true\n"

def lenientService : Service where
  registry := []
  ids := fun n => toString n
  entropy := id
  issued := 0
  root := ""
  environment := []
  surroundings := ⟨0, 1, Files.empty.set ["s.yaml"] (.file lenientText), []⟩

def lenientArguments : Arguments where
  scenario := FilePath.ofText "s.yaml"
  algorithm := .absent
  seed := .given 5
  historyFolder := .absent
  logFolder := .given (FilePath.ofText "logs")
  json := false
  verbose := false

/-- What the text left out or wrote otherwise is written out, and the seed of the command line takes
the place of the one in the file. -/
theorem accepted_scenario_is_run_with_its_overrides_lenient :
    ∃ s cfg log t, s.vms = [⟨1, 1⟩] ∧ s.seed = some 7 ∧ Scenario.check (.object s.dump) = .ok s ∧
      Scenario.parse (Program.overridden lenientArguments s) = .ok { s with seed := some 5 } ∧
        (Program.run 1 "20240101_000000" ["s.yaml", "--seed", "5", "--log-dir", "logs"]
          lenientService).1.ending = Program.ending
            (((Service.run 1 (.object (s.dumpWith (.str s.algorithm.name) (.int 5))) none
              (some cfg)).start (Program.loadedBy lenientArguments log s t)).1.map
                (Program.shown lenientArguments)) := by
  have hscenario : ((Scenario.dataOfText "s.yaml" lenientText >>= Scenario.check).toOption.map
      fun s => (s.vms, s.seed)) = some ([⟨1, 1⟩], some 7) := by decide +kernel
  cases hread : Scenario.dataOfText "s.yaml" lenientText >>= Scenario.check with
  | error f =>
    rw [hread] at hscenario
    cases hscenario
  | ok s =>
    rw [hread] at hscenario
    obtain ⟨hvms, hseed⟩ := Prod.mk.inj (Option.some.inj hscenario)
    obtain ⟨d, hdata, hcheck⟩ := exists_of_bind_ok hread
    have hargs : Arguments.ofTexts ["s.yaml", "--seed", "5", "--log-dir", "logs"] =
        .ok lenientArguments := rfl
    obtain ⟨cfg, log, t, hcomes⟩ : ∃ cfg log t, Program.Comes "20240101_000000" _ lenientService
        _ cfg log t lenientText :=
      ⟨_, Program.exists_comes _ hargs rfl (by decide +kernel) (by decide +kernel)⟩
    obtain ⟨hagain, -, hparse, hrun⟩ := accepted_scenario_is_run_with_its_overrides hcheck
    refine ⟨s, cfg, log, t, hvms, hseed, hagain, hparse lenientArguments, ?_⟩
    have hsame := congrArg Scenario.parse (Program.overridden_eq lenientArguments s)
    rw [hrun 1 _ _ _ _ _ _ _ _ hcomes hdata _ hsame.symm]
    rfl

end AssignmentSearch
