import AssignmentSearch.Proofs.Search.Clerical
import AssignmentSearch.Proofs.Storage.Records

/-!
# What a recorded search writes

A recorded search touches files in two ways only: a step that comes to an outcome records it, and the
end of the search records the best result. Reports are added to the journal and never withdrawn.
-/

namespace AssignmentSearch

variable {α σ τ ρ : Type}

namespace Recorder

/-- What is reported of a step that could not be recorded. -/
def stepTrouble : Entry := ⟨.error, part, "写入搜索迭代历史 CSV 时出错（已忽略）。"⟩

def troubles (w : Surroundings α) : Nat := w.journal.count stepTrouble

theorem troubles_le {w w' : Surroundings α} (h : w.journal <:+ w'.journal) :
    troubles w ≤ troubles w' :=
  h.sublist.count_le stepTrouble

def bestFiles (r : Recorder) (result : Except Fault (List (String × Datum))) (f : Files) : Files :=
  match Files.makeFolder r.folder f with
  | (.error _, g) => g
  | (.ok _, g) =>
    match result with
    | .error _ => g
    | .ok fields => (r.writeBest fields g).2

theorem changes_bestFiles (r : Recorder) (result : Except Fault (List (String × Datum)))
    (f : Files) : Files.Changes {r.bestPath.place} f (r.bestFiles result f) := by
  have hmade := Files.alters_makeFolder (s := {r.bestPath.place}) r.folder f
  rw [bestFiles]
  rcases hx : Files.makeFolder r.folder f with ⟨a, g⟩
  rw [hx] at hmade
  cases a with
  | error d => exact hmade
  | ok _ =>
    cases result with
    | error e => exact hmade
    | ok fields => exact hmade.trans (Files.alters_write _ _ g)

/-- What recording a step does: files change as the row is added, or the trouble is reported. -/
structure Notes [Printed α] (r : Recorder) (state : List (String × Datum)) (o : Outcome α)
    (w w' : Surroundings α) : Prop where
  files : w'.files = (r.appendStep state o w.files).2
  troubles : troubles w ≤ troubles w'
  answer : (r.appendStep state o w.files).1 = .ok () ∨ Recorder.troubles w < Recorder.troubles w'

variable {r : Recorder}

theorem Notes.reported [Printed α] {state : List (String × Datum)} {o : Outcome α}
    {w v u t : Surroundings α} (h : r.Notes state o v u) (hv : v.files = w.files)
    (hw : w.journal <:+ v.journal) (ht : t.files = u.files) (hu : u.journal <:+ t.journal) :
    r.Notes state o w t := by
  have hbefore := troubles_le hw
  have hafter := troubles_le hu
  refine ⟨by rw [ht, h.files, hv], hbefore.trans (h.troubles.trans hafter), ?_⟩
  rw [← hv]
  exact h.answer.imp_right fun hmore => (hbefore.trans_lt hmore).trans_le hafter

theorem IsPlain.start_recordStep [Printed α] (h : r.IsPlain) (state : List (String × Datum))
    (o : Outcome α) (w : Surroundings α) :
    ∃ w', (r.recordStep state o).start w = (.ok (), w') ∧ r.Notes state o w w' := by
  have htry := Surroundings.start_tryAccess stepTrouble (h.isTried_appendStep state o) w
  rw [recordStep, Attempt.start_bind, ← stepTrouble, htry]
  rcases hx : r.appendStep state o w.files with ⟨a, files⟩
  cases a with
  | ok _ => exact ⟨_, rfl, by rw [hx], Nat.le_refl _, Or.inl (by rw [hx])⟩
  | error d =>
    have hmore : troubles w < troubles { w with files, journal := stepTrouble :: w.journal } := by
      simp [troubles]
    exact ⟨_, rfl, by rw [hx], hmore.le, Or.inr hmore⟩

theorem IsPlain.start_recordBest (h : r.IsPlain)
    (result : Except Fault (List (String × Datum))) (w : Surroundings α) :
    ∃ a w', (r.recordBest result).start w = (a, w') ∧ w'.files = r.bestFiles result w.files ∧
      w.journal <:+ w'.journal := by
  have hmake := Surroundings.start_tryAccess bestTrouble (Files.isTried_makeFolder h.folder) w
  rw [recordBest, Attempt.start_bind, hmake, bestFiles]
  rcases Files.makeFolder r.folder w.files with ⟨a, files⟩
  cases a with
  | error d => exact ⟨_, _, rfl, rfl, List.suffix_cons _ _⟩
  | ok _ =>
    cases result with
    | error e => exact ⟨_, _, rfl, rfl, List.suffix_rfl⟩
    | ok fields =>
      have hwrite := Surroundings.start_tryAccess bestTrouble (h.isTried_writeBest fields)
        { w with files }
      dsimp only
      rw [if_pos rfl, Attempt.start_bind_ok (Attempt.start_lift _ _), Attempt.start_bind, hwrite]
      dsimp only
      rcases r.writeBest fields files with ⟨b, files'⟩
      cases b with
      | error d => exact ⟨_, _, rfl, rfl, List.suffix_cons _ _⟩
      | ok _ => exact ⟨_, _, rfl, rfl, List.suffix_cons _ _⟩

end Recorder

namespace Search

open Recorder

variable {r : Recorder}

theorem start_report (e : Entry) (p : Running α σ τ ρ) :
    (onSurroundings (Surroundings.report e)).start p =
      (.ok (), (p.1, { p.2 with journal := e :: p.2.journal })) := rfl

variable [Strategy α σ] [Printed α]

theorem start_settle {s : Search α σ τ ρ} (hplain : r.IsPlain) (hr : s.recorder = some r)
    (o : Outcome α) (w : Surroundings α) :
    ∃ w', (settle o).start (s, w) = (.ok (), (s, w')) ∧
      r.Notes (Strategy.state s.strategy) o w w' := by
  have hrecord : ∀ v : Surroundings α, ∃ u,
      (onSurroundings (r.recordStep (Strategy.state s.strategy) o)).start (s, v) =
        (.ok (), (s, u)) ∧ r.Notes (Strategy.state s.strategy) o v u := by
    intro v
    obtain ⟨u, hu, hnotes⟩ := hplain.start_recordStep (Strategy.state s.strategy) o v
    exact ⟨u, by rw [onSurroundings, Attempt.start_zoom, hu], hnotes⟩
  rw [settle, Attempt.start_bind_ok (Attempt.start_get _)]
  dsimp only
  cases Strategy.note s.strategy with
  | none =>
    obtain ⟨u, hu, hnotes⟩ := hrecord w
    simp only [hr]
    rw [Attempt.start_bind_ok hu]
    exact ⟨_, rfl, hnotes.reported rfl List.suffix_rfl rfl (List.suffix_cons _ _)⟩
  | some e =>
    obtain ⟨u, hu, hnotes⟩ := hrecord { w with journal := e :: w.journal }
    simp only [hr]
    rw [Attempt.start_bind_ok (start_report e _), Attempt.start_bind_ok hu]
    exact ⟨_, rfl, hnotes.reported rfl (List.suffix_cons _ _) rfl (List.suffix_cons _ _)⟩

variable [ToString τ] [ToString ρ]

theorem start_terminate {s : Search α σ τ ρ} (hplain : r.IsPlain) (hr : s.recorder = some r)
    (w : Surroundings α) :
    ∃ a w', terminate.start (s, w) = (a, ({ s with progress := s.progress.finish }, w')) ∧
      w'.files = r.bestFiles { s with progress := s.progress.finish }.result w.files ∧
        w.journal <:+ w'.journal := by
  rw [terminate, Attempt.start_bind_ok (start_onSearch _ _), Attempt.start_modify]
  generalize ht : ({ s with progress := s.progress.finish } : Search α σ τ ρ) = t
  have hrt : t.recorder = some r := by rw [← ht, hr]
  obtain ⟨a, u, hu, hfiles, hjournal⟩ := hplain.start_recordBest t.result w
  have hrecord : (onSurroundings (r.recordBest t.result)).start (t, w) = (a, (t, u)) := by
    rw [onSurroundings, Attempt.start_zoom, hu]
  rw [Attempt.start_bind_ok (Attempt.start_get _)]
  simp only [hrt]
  cases a with
  | error e => exact ⟨_, u, Attempt.start_bind_error hrecord, hfiles, hjournal⟩
  | ok _ =>
    rw [Attempt.start_bind_ok hrecord]
    cases hbest : t.bestCost? with
    | error e => exact ⟨_, u, rfl, hfiles, hjournal⟩
    | ok best => exact ⟨_, _, rfl, hfiles, hjournal.trans (List.suffix_cons _ _)⟩

/-- What a step that came to the outcome `o`, and left the search as `t`, has done to files: it is
recorded, and so is the best result if the search is over. -/
structure Posted (r : Recorder) (o : Outcome α) (t : Search α σ τ ρ) (w w' : Surroundings α) :
    Prop where
  troubles : troubles w ≤ troubles w'
  answer : (r.appendStep (Strategy.state t.strategy) o w.files).1 = .ok () ∨
    Recorder.troubles w < Recorder.troubles w'
  files : w'.files = if o.done
    then r.bestFiles t.result (r.appendStep (Strategy.state t.strategy) o w.files).2
    else (r.appendStep (Strategy.state t.strategy) o w.files).2

variable [Quantity α]

theorem start_conclude {s : Search α σ τ ρ} (hplain : r.IsPlain) (hr : s.recorder = some r)
    (started : α) (o : Outcome α) (w : Surroundings α) :
    ∃ a time w', (conclude started o).start (s, w) = (a, ({ s with
          solveTime := time
          progress := if o.done then s.progress.finish else s.progress }, w')) ∧
      Posted r o { s with
        solveTime := time
        progress := if o.done then s.progress.finish else s.progress } w w' := by
  obtain ⟨u, hsettle, hnotes⟩ := start_settle hplain hr o w
  rw [conclude, Attempt.start_bind_ok hsettle, Attempt.start_bind_ok (start_readClock _),
    Attempt.start_bind_ok (start_onSearch _ _), Attempt.start_modify]
  dsimp only
  generalize s.solveTime + (u.now + u.tick - started) = time
  cases hdone : o.done with
  | false =>
    refine ⟨_, time, _, rfl, hnotes.troubles, hnotes.answer, ?_⟩
    rw [hdone]
    exact hnotes.files
  | true =>
    have hr' : ({ s with solveTime := time } : Search α σ τ ρ).recorder = some r := hr
    obtain ⟨a, v, hend, hfiles, hjournal⟩ := start_terminate hplain hr' u.ticked
    have hmore := troubles_le hjournal
    have hrecorded : Posted r o { s with solveTime := time, progress := s.progress.finish }
        w v := by
      refine ⟨hnotes.troubles.trans hmore, hnotes.answer.imp_right fun h => h.trans_le hmore, ?_⟩
      rw [hdone, hfiles, if_pos rfl]
      exact congrArg _ hnotes.files
    rw [if_pos rfl]
    cases a with
    | error e => exact ⟨_, time, v, Attempt.start_bind_error hend, hrecorded⟩
    | ok _ => exact ⟨_, time, v, Attempt.start_bind_ok hend, hrecorded⟩

omit [Quantity α] in
theorem start_start {p : Running α σ τ ρ} (hfresh : p.1.progress = .fresh)
    (hgoes : Strategy.stops p.1.strategy = .ok false) :
    ∃ source journal, p.2.journal <:+ journal ∧
      ((start.start p).2 = ({ p.1 with source }, { p.2 with journal }) ∨
        ∃ first : Solution α τ ρ, (start.start p).2 =
          ({ p.1 with
              source := source
              kept := some first.evaluated
              progress := .searching (firstFound first) }, { p.2 with journal })) := by
  obtain ⟨s, w⟩ := p
  obtain ⟨note, hstart⟩ := start_fresh_apply hfresh w
  rw [hstart]
  rcases hx : (s.landscape.initial s.kept).start s.source with ⟨a, source⟩
  cases a with
  | error e =>
    rw [begin_of_error hx]
    exact ⟨source, w.journal, List.suffix_rfl, Or.inl rfl⟩
  | ok first =>
    rw [begin_of_ok hx]
    cases first.costValue with
    | error e => exact ⟨source, w.journal, List.suffix_rfl, Or.inr ⟨first, rfl⟩⟩
    | ok c =>
      refine ⟨source, note :: w.journal, List.suffix_cons _ _, Or.inr ⟨first, ?_⟩⟩
      dsimp only at hgoes
      simp only [Except.map, endIfDue, hgoes]
      rfl

end Search
end AssignmentSearch
