import AssignmentSearch.Placement.Landscape
import AssignmentSearch.Proofs.Placement.Plans
import AssignmentSearch.Proofs.Search.Ledgers
import AssignmentSearch.Proofs.Search.Stages

/-!
# The file of the best result

Among files that work there is no best result before a search is over. From then on there is one, which
says what the search says of itself for good, unless it cannot be written down.
-/

namespace AssignmentSearch

variable {α σ τ ρ : Type}

namespace Recorder

open Files

variable {r : Recorder}

/-- What stands at the place of the best result once that has been recorded. -/
def bestNode (r : Recorder) (result : Except Fault (List (String × Datum))) : Option Node :=
  match result with
  | .error _ => none
  | .ok fields => some (.file (Json.indented (.object (("session_id", .str r.id) :: fields))))

theorem Works.bestFiles {f : Files} (h : r.Works f)
    (result : Except Fault (List (String × Datum))) :
    (r.bestFiles result f).node? r.bestPath.place = r.bestNode result := by
  obtain ⟨g, hmake, hlocate, hnone⟩ := h.makes
  have hmade := alters_makeFolder (s := ∅) r.folder f
  rw [hmake] at hmade
  rw [Recorder.bestFiles, hmake]
  cases result with
  | error e => exact hnone
  | ok fields =>
    have hrefuses : ∀ n, g.refuses n = false := by
      rw [hmade.refuses]
      exact h.refuses
    have hfile : g.node? r.bestPath.place ≠ some .folder := by simp [hnone]
    dsimp only
    rw [writeBest, write_of_locate _ (hrefuses _) (hrefuses _) hlocate hfile]
    exact node?_written _ hfile

variable [Strategy α σ] [Printed α] [ToString τ] [ToString ρ]

structure Guarded (r : Recorder) (_ : List (Outcome α)) (p : Running α σ τ ρ) : Prop where
  ongoing : p.1.progress.stage ≠ .terminated → r.Works p.2.files
  ended : p.1.progress.stage = .terminated →
    (∀ f, p.1.progress.found? = some f → f.Known) ∧
      p.2.files.node? r.bestPath.place = r.bestNode p.1.result

theorem booked_guarded (r : Recorder) (first : σ) (stop : Nat → Bool) :
    Search.Booked r first stop (Guarded (τ := τ) (ρ := ρ) r) where
  idle := by
    intro os p q hp hq hfiles _ h
    refine ⟨fun _ => ?_, fun hended => absurd hended hq⟩
    rw [hfiles]
    exact h.ongoing hp
  told := by
    intro os o p t w hp hstage hknown _ hrecorded h
    have hworks := (h.ongoing hp).appendStep (Strategy.state t.strategy) o
    have hfiles := hrecorded.files
    cases hdone : o.done with
    | false =>
      rw [hdone] at hstage hfiles
      refine ⟨fun _ => ?_, fun hended => ?_⟩
      · dsimp only
        rw [hfiles]
        exact hworks
      · dsimp only at hended
        rw [hstage] at hended
        cases hended
    | true =>
      rw [hdone] at hstage hfiles
      refine ⟨fun hgoes => absurd hstage hgoes, fun _ => ⟨hknown, ?_⟩⟩
      dsimp only
      rw [hfiles]
      exact hworks.bestFiles t.result

/-- The keys of a best result: none stands for two values. -/
def bestKeys (fields : List (String × Datum)) : List String :=
  "session_id" :: fields.map (·.1) ++ ["best_mapping"]

/-- The file of the best result after some calls. It is not there before the search is over. From then on
it says what every later summary says, and tells the best mapping, unless labels or numbers of them
cannot be written; then there is no file. -/
structure BestFile [Quantity α] [Acceptance α σ (Solution α τ ρ)] (r : Recorder)
    (p : Running α σ τ ρ) : Prop where
  absent : p.1.progress.stage ≠ .terminated → p.2.files.node? r.bestPath.place = none
  summary : p.1.progress.stage = .terminated →
    ∃ fields, p.1.snapshot = .ok fields ∧ (bestKeys fields).Nodup ∧
      (∀ best, p.1.tellBest = .ok best → fields.any (·.2.isLong) = false →
        p.2.files.node? r.bestPath.place = some (.file (Json.indented
          (.object (("session_id", .str r.id) :: fields ++ [("best_mapping", best)]))))) ∧
      (p.1.tellBest = .error .unwritable ∨ fields.any (·.2.isLong) = true →
        p.2.files.node? r.bestPath.place = none)
  final : p.1.progress.stage = .terminated → ∀ later, Call.after later p = p

end Recorder

namespace Search

variable [Strategy α σ] [Printed α]

theorem keys_of_snapshot {s : Search α σ τ ρ} {fields : List (String × Datum)}
    (h : s.snapshot = .ok fields) :
    fields.map (·.1) = ["strategy", "state", "search_steps", "solve_time", "neighborhood_searches",
      "current_cost", "best_cost"] ++ (Strategy.state s.strategy).map (·.1) := by
  obtain ⟨current, -, h⟩ := exists_of_bind_ok h
  obtain ⟨best, -, h⟩ := exists_of_bind_ok h
  cases h
  rw [List.map_append]
  rfl

variable [ToString τ] [ToString ρ]

theorem result_of_snapshot {s : Search α σ τ ρ} {fields : List (String × Datum)}
    (h : s.snapshot = .ok fields) :
    s.result =
      match s.tellBest with
      | .error e => .error e
      | .ok best =>
        if fields.any (·.2.isLong) then .error .unwritable
        else .ok (fields ++ [("best_mapping", best)]) := by
  rw [result, h]
  cases s.tellBest with
  | error e => rfl
  | ok best =>
    change (if fields.any (·.2.isLong) then Except.error Fault.unwritable
      else Except.ok (fields ++ [("best_mapping", best)])) = _
    rfl

end Search

namespace Call

variable [Quantity α] [Strategy α σ]
  [Acceptance α σ (Solution α τ ρ)] [Printed α] [ToString τ] [ToString ρ]

theorem after_of_terminated {p : Running α σ τ ρ} (h : p.1.progress.stage = .terminated)
    (calls : List Call) : after calls p = p := by
  have hended := (Search.onward p).ended h
  have hrun : ∀ c : Call, (c.run.start p).2 = p := by
    intro c
    cases c with
    | start => rw [run, hended.1]
    | step => rw [run, Attempt.start_bind_error hended.2.2]
    | solve limit => rw [run, Attempt.start_bind_ok (hended.2.1 limit), Attempt.start_pure]
  induction calls with
  | nil => rfl
  | cons c rest ih => rw [after, hrun, ih]

end Call

/-- Neither annealing nor gravity has a key of its own that a best result has already. -/
theorem Recorder.nodup_bestKeys {p : Plan Float} (hp : p.IsAnnealing ∨ p.IsGravity)
    {s : Search Float (Plan Float) τ ρ} (hs : s.strategy = p) {fields : List (String × Datum)}
    (h : s.snapshot = .ok fields) : (Recorder.bestKeys fields).Nodup := by
  rw [bestKeys, Search.keys_of_snapshot h, hs]
  rcases hp with ⟨a, rfl⟩ | ⟨g, rfl⟩
  · change List.Nodup (["session_id", "strategy", "state", "search_steps", "solve_time",
      "neighborhood_searches", "current_cost", "best_cost", "T", "T_min", "alpha", "best_mapping"])
    decide
  · change List.Nodup (["session_id", "strategy", "state", "search_steps", "solve_time",
      "neighborhood_searches", "current_cost", "best_cost", "current_iteration", "max_iterations",
      "best_mapping"])
    decide

variable [ToString τ] [ToString ρ]

/-- Among files that work, and under annealing or gravity, the file of the best result is there if and
only if the search is over and its result can be written. It says what every later summary says, and no
later call changes it. -/
theorem best_file_agrees_with_final_state {plan : Plan Float} (hplan : plan.IsMade)
    {landscape : Landscape Float τ ρ} {source : Source Float} {searches : Datum}
    {recorder : Recorder} (hplain : recorder.IsPlain) {s : Search Float (Plan Float) τ ρ}
    (hs : Search.ofDatum plan landscape source searches (some recorder) = .ok s)
    {w : Surroundings Float} (hworks : recorder.Works w.files) (calls : List Call) :
    recorder.BestFile (Call.after calls (s, w)) := by
  obtain ⟨n, -, -, rfl⟩ := Search.exists_count_of_ofDatum hs
  obtain ⟨stop, hscheduled⟩ := hplan.scheduled
  have hfirst : Search.Ledger recorder plan stop recorder.Guarded
      (Event.toldIn ([] : List (Event Float τ ρ)))
      (Search.fresh plan landscape source (.int n) (some recorder), w) :=
    ⟨rfl, .of_fresh rfl rfl rfl, fun _ => hworks, fun hended => nomatch hended⟩
  have hrun := ((Recorder.booked_guarded recorder plan stop).attended hplain hscheduled.schedule
    hscheduled.goes).run calls hfirst
  refine ⟨fun hgoes => (hrun.booked.ongoing hgoes).absent, fun hended => ?_,
    fun hended => Call.after_of_terminated hended⟩
  obtain ⟨hknown, hnode⟩ := hrun.booked.ended hended
  obtain ⟨fields, hfields⟩ := Search.exists_snapshot hknown
  have hkind := (Plan.kind_of_ages hplan.kind hrun.stepwise.ages).1
  have hresult := Search.result_of_snapshot hfields
  refine ⟨fields, hfields, Recorder.nodup_bestKeys hkind rfl hfields, fun best hbest hshort => ?_,
    fun huntold => ?_⟩
  · rw [hnode, hresult, hbest]
    dsimp only
    rw [if_neg (by simp [hshort])]
    rfl
  · rw [hnode, hresult]
    rcases huntold with huntold | hlong
    · rw [huntold]
      rfl
    · rw [hlong]
      split
      · rfl
      · rfl

/-- Gravity with one step, recorded in a folder that is not there yet. -/
def briefSearch : Running Float (Plan Float) Nat Nat :=
  (.fresh (.gravity ⟨⟨0, 1⟩⟩) (.listed "Listed" [.ok 5, .ok 3]) (.repeating [.real 0.5])
    (.int 1) (some ⟨⟨"", ["records"]⟩, "a"⟩), ⟨0, 1, .empty, []⟩)

/-- The file is written by the step that ends the search. -/
theorem best_file_agrees_with_final_state_brief :
    (Call.after [.start] briefSearch).2.files.node? ["records", "a_best.json"] = none ∧
      ∃ fields best, (Call.after [.step] briefSearch).1.snapshot = .ok fields ∧
        (Call.after [.step] briefSearch).2.files.node? ["records", "a_best.json"] =
          some (.file (Json.indented
            (.object (("session_id", .str "a") :: fields ++ [("best_mapping", best)])))) := by
  have hplan : (Plan.gravity ⟨⟨0, 1⟩⟩ : Plan Float).IsMade :=
    .gravity (show Gravity.ofDatum (.int 1) = .ok _ from rfl)
  have hplain : (⟨⟨"", ["records"]⟩, "a"⟩ : Recorder).IsPlain := by
    refine ⟨?_, ?_, ?_⟩ <;> decide +kernel
  have hs : Search.ofDatum (Plan.gravity ⟨⟨0, 1⟩⟩) (.listed "Listed" [.ok 5, .ok 3])
      (.repeating [.real 0.5]) (.int 1) (some ⟨⟨"", ["records"]⟩, "a"⟩) = .ok briefSearch.1 := rfl
  have hworks : (⟨⟨"", ["records"]⟩, "a"⟩ : Recorder).Works .empty :=
    ⟨fun _ => rfl, (Files.makeFolder ⟨"", ["records"]⟩ .empty).2, by rfl, by decide +kernel,
      by decide +kernel⟩
  have hplace : (⟨⟨"", ["records"]⟩, "a"⟩ : Recorder).bestPath.place =
      ["records", "a_best.json"] := by decide +kernel
  have hbefore := best_file_agrees_with_final_state hplan hplain hs (w := briefSearch.2) hworks
    [.start]
  have hafter := best_file_agrees_with_final_state hplan hplain hs (w := briefSearch.2) hworks
    [.step]
  rw [Prod.mk.eta] at hbefore hafter
  have hgoes : (Call.after [.start] briefSearch).1.progress.stage ≠ .terminated := by decide +kernel
  have hended : (Call.after [.step] briefSearch).1.progress.stage = .terminated := by decide +kernel
  have hshort : (Call.after [.step] briefSearch).1.result.isOk = true := by decide +kernel
  obtain ⟨fields, hfields, -, hwritten, -⟩ := hafter.summary hended
  rw [Search.result_of_snapshot hfields] at hshort
  refine ⟨by rw [← hplace]; exact hbefore.absent hgoes, fields, ?_⟩
  cases hbest : (Call.after [.step] briefSearch).1.tellBest with
  | error e =>
    rw [hbest] at hshort
    cases hshort
  | ok best =>
    rw [hbest] at hshort
    cases hlong : fields.any (·.2.isLong) with
    | true =>
      rw [hlong] at hshort
      cases hshort
    | false =>
      rw [← hplace]
      exact ⟨best, hfields, hwritten best hbest hlong⟩

end AssignmentSearch
