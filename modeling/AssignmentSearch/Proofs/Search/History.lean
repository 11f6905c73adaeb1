import AssignmentSearch.Placement.Landscape
import AssignmentSearch.Proofs.Placement.Plans
import AssignmentSearch.Proofs.Search.Ledgers

/-!
# The table of steps

As long as nothing goes wrong with files, the table has a row for every step with an outcome, below what
stood there before and below the names of the columns if that was nothing. Read back, each row holds what
the outcome says and the state that the strategy had come to.
-/

namespace AssignmentSearch

variable {α σ τ ρ : Type} [Strategy α σ]

/-- What a strategy becomes by ageing a number of times. -/
def Strategy.aged (first : σ) (n : Nat) : σ := ((Strategy.ageBy n).start first).2

theorem Strategy.Ages.aged_eq {n : Nat} {a b : σ} (h : Strategy.Ages n a b) :
    Strategy.aged a n = b := by
  rw [Strategy.aged, h]

theorem Csv.table_ne_empty {rows : List (List String)} (h : rows ≠ []) : Csv.table rows ≠ "" := by
  intro hempty
  apply h
  rw [← Csv.read_table rows, hempty]
  rfl

theorem Search.Stepwise.iteration_last {first : σ} {stop : Nat → Bool} {os : List (Outcome α)}
    {o : Outcome α} {s : Search α σ τ ρ} (h : Search.Stepwise first stop (os ++ [o]) s) :
    o.iteration = s.steps := by
  have hiterations := h.iterations
  have hlength : os.length + 1 = s.steps := by
    simpa using congrArg List.length hiterations
  rw [← hlength, List.map_append, List.range'_concat] at hiterations
  have hlast := (List.append_inj' hiterations rfl).2
  simp only [List.map_cons, List.map_nil, List.cons.injEq, and_true] at hlast
  omega

namespace Recorder

open Files

variable [Printed α]

def rows (first : σ) (os : List (Outcome α)) : List (List String) :=
  os.map fun o => columns (Strategy.state (Strategy.aged first o.iteration)) o

theorem rowsFor_append (found : Option Node) (rows more : List (List String)) :
    rowsFor found (rows ++ more) = rowsFor found rows ++ more := by
  rw [rowsFor, rowsFor, List.append_assoc]

theorem rowsFor_of_not_blank {found : Option Node} (h : isBlankNode found = false)
    (rows : List (List String)) : rowsFor found rows = rows := by
  rw [rowsFor, h]
  rfl

structure Tabulated (r : Recorder) (first : σ) (w : Surroundings α) (os : List (Outcome α))
    (p : Running α σ τ ρ) : Prop where
  troubles : troubles w ≤ Recorder.troubles p.2
  untouched : os = [] → p.2.files = w.files
  table : os ≠ [] → Recorder.troubles p.2 = Recorder.troubles w →
    w.files.node? r.historyPath.place ≠ some .folder ∧
      p.2.files.node? r.historyPath.place = some (extended (w.files.node? r.historyPath.place)
        (Csv.table (rowsFor (w.files.node? r.historyPath.place) (rows first os))))

variable {r : Recorder} {first : σ} {stop : Nat → Bool}

theorem Tabulated.extend {w : Surroundings α} {os : List (Outcome α)} {o : Outcome α}
    {p : Running α σ τ ρ} {g : Files} {state : List (String × Datum)}
    (h : Tabulated r first w os p) (hquiet : Recorder.troubles p.2 = Recorder.troubles w)
    (hstate : state = Strategy.state (Strategy.aged first o.iteration))
    (hadded : r.appendStep state o p.2.files = (.ok (), g)) :
    w.files.node? r.historyPath.place ≠ some .folder ∧
      g.node? r.historyPath.place = some (extended (w.files.node? r.historyPath.place)
        (Csv.table (rowsFor (w.files.node? r.historyPath.place) (rows first (os ++ [o]))))) := by
  obtain ⟨hfile, hnode⟩ := appendStep_ok hadded
  have hrows : rows first (os ++ [o]) = rows first os ++ [columns state o] := by
    rw [rows, List.map_append, hstate]
    rfl
  by_cases hos : os = []
  · rw [h.untouched hos] at hfile hnode
    rw [hrows, hos]
    exact ⟨hfile, hnode⟩
  · obtain ⟨hbefore, htable⟩ := h.table hos hquiet
    have hsome : rowsFor (w.files.node? r.historyPath.place) (rows first os) ≠ [] := by
      simp [rowsFor, rows, hos]
    have hblank := isBlankNode_extended (w.files.node? r.historyPath.place)
      (Csv.table_ne_empty hsome)
    refine ⟨hbefore, ?_⟩
    rw [hnode, htable, rowsFor_of_not_blank hblank, extended_extended, hrows, rowsFor_append,
      Csv.table_append]

variable [ToString τ] [ToString ρ]

theorem Tabulated.told {w w' : Surroundings α} {os : List (Outcome α)} {o : Outcome α}
    {p : Running α σ τ ρ} {t : Search α σ τ ρ} (hstepwise : Search.Stepwise first stop (os ++ [o]) t)
    (hrecorded : Search.Posted r o t p.2 w') (h : Tabulated r first w os p) :
    Tabulated r first w (os ++ [o]) (t, w') := by
  refine ⟨h.troubles.trans hrecorded.troubles, fun hnil => by simp at hnil, fun _ hquiet => ?_⟩
  have hbefore : Recorder.troubles p.2 = Recorder.troubles w :=
    Nat.le_antisymm (hquiet ▸ hrecorded.troubles) h.troubles
  have hanswer : (r.appendStep (Strategy.state t.strategy) o p.2.files).1 = .ok () := by
    refine hrecorded.answer.resolve_right fun hmore => ?_
    dsimp only at hquiet
    omega
  have hstate : Strategy.state t.strategy =
      Strategy.state (Strategy.aged first o.iteration) := by
    rw [hstepwise.iteration_last, hstepwise.ages.aged_eq]
  obtain ⟨hfile, hnode⟩ := h.extend hbefore hstate (Prod.ext hanswer rfl)
  refine ⟨hfile, ?_⟩
  dsimp only
  rw [hrecorded.files]
  cases o.done with
  | false => exact hnode
  | true => exact (changes_bestFiles r t.result _).node_of_file (historyPath_place_ne r) hnode

theorem booked_tabulated (r : Recorder) (first : σ) (stop : Nat → Bool) (w : Surroundings α) :
    Search.Booked r first stop (Tabulated (τ := τ) (ρ := ρ) r first w) where
  idle := by
    intro os p q _ _ hfiles hjournal h
    have hmore := troubles_le hjournal
    refine ⟨h.troubles.trans hmore, fun hos => hfiles.trans (h.untouched hos), fun hos hquiet => ?_⟩
    rw [hfiles]
    exact h.table hos (Nat.le_antisymm (hquiet ▸ hmore) h.troubles)
  told _ _ _ hstepwise hrecorded h := h.told hstepwise hrecorded

/-- What the table of steps holds after a search has come to the outcomes `os`: below what stood there
before, one row for each, which is read back as it was written. -/
structure Table (r : Recorder) (first : σ) (before : Option Node) (os : List (Outcome α))
    (p : Running α σ τ ρ) : Prop where
  untouched : os = [] → p.2.files.node? r.historyPath.place = before
  file : os ≠ [] → before ≠ some .folder
  content : os ≠ [] → p.2.files.node? r.historyPath.place =
    some (extended before (Csv.table (rowsFor before (rows first os))))
  read : Csv.read (Csv.table (rowsFor before (rows first os))) = rowsFor before (rows first os)
  iterations : os.map (·.iteration) = List.range' 1 os.length
  ages : ∀ n ≤ os.length, Strategy.Ages n first (Strategy.aged first n)
  strategy : p.1.strategy = Strategy.aged first os.length
  done : ∀ o ∈ os, o.done = true ↔ o.iteration = os.length ∧ p.1.progress.stage = .terminated

end Recorder

theorem Strategy.Ages.aged_of_le {first a : σ} {m n : Nat} (h : Strategy.Ages n first a)
    (hle : m ≤ n) : Strategy.Ages m first (Strategy.aged first m) := by
  obtain ⟨k, rfl⟩ := Nat.exists_eq_add_of_le hle
  obtain ⟨b, hb, -⟩ := Strategy.ages_add.mp h
  rwa [hb.aged_eq]

theorem Search.Stepwise.done_iff {first : σ} {stop : Nat → Bool} {os : List (Outcome α)}
    {s : Search α σ τ ρ} (h : Search.Stepwise first stop os s) {o : Outcome α} (ho : o ∈ os) :
    o.done = true ↔ o.iteration = s.steps ∧ s.progress.stage = .terminated := by
  have hrange : o.iteration ∈ List.range' 1 s.steps := by
    rw [← h.iterations]
    exact List.mem_map_of_mem ho
  obtain ⟨hlow, hhigh⟩ := List.mem_range'_1.mp hrange
  obtain ⟨f, hf⟩ : ∃ f, s.progress.found? = some f := by
    cases hf : s.progress.found? with
    | some f => exact ⟨f, rfl⟩
    | none =>
      have hsteps := h.fresh (Progress.fresh_of_found? hf)
      omega
  have hstage : s.progress.stage = if stop s.steps then .terminated else .searching := by
    rw [h.held f hf, Search.stage_progressOf]
  rw [h.done o ho, hstage]
  constructor
  · intro hstop
    have hlast : o.iteration = s.steps := by
      by_contra hne
      have hearlier := h.earlier o.iteration (by omega)
      rw [hstop] at hearlier
      cases hearlier
    rw [← hlast, hstop]
    exact ⟨rfl, rfl⟩
  · rintro ⟨hlast, hterminated⟩
    rw [hlast]
    cases hstop : stop s.steps with
    | true => rfl
    | false =>
      rw [hstop] at hterminated
      cases hterminated

variable [Printed α]

theorem Recorder.Tabulated.toTable {r : Recorder} {first : σ} {stop : Nat → Bool}
    {w : Surroundings α} {os : List (Outcome α)} {p : Running α σ τ ρ}
    (h : Tabulated r first w os p) (hstepwise : Search.Stepwise first stop os p.1)
    (hquiet : Recorder.troubles p.2 = Recorder.troubles w) :
    r.Table first (w.files.node? r.historyPath.place) os p := by
  have hlength : os.length = p.1.steps := by
    simpa using congrArg List.length hstepwise.iterations
  refine ⟨fun hos => by rw [h.untouched hos], fun hos => (h.table hos hquiet).1,
    fun hos => (h.table hos hquiet).2, Csv.read_table _, ?_, fun n hn => ?_, ?_, fun o ho => ?_⟩
  · rw [hlength, hstepwise.iterations]
  · exact hstepwise.ages.aged_of_le (by omega)
  · rw [hlength, hstepwise.ages.aged_eq]
  · rw [hlength]
    exact hstepwise.done_iff ho

variable [ToString τ] [ToString ρ]

/-- After any calls a recorded search is where the schedule of its plan puts it. -/
theorem Plan.IsMade.ledger_after {plan : Plan Float} (hplan : plan.IsMade)
    {landscape : Landscape Float τ ρ} {source : Source Float} {searches : Datum}
    {recorder : Recorder} (hplain : recorder.IsPlain) {s : Search Float (Plan Float) τ ρ}
    (hs : Search.ofDatum plan landscape source searches (some recorder) = .ok s)
    (w : Surroundings Float) (calls : List Call) :
    ∃ stop, Placement.Scheduled plan stop ∧ Search.Ledger recorder plan stop
      (recorder.Tabulated plan w) (Call.outcomes calls (s, w)) (Call.after calls (s, w)) := by
  obtain ⟨n, -, -, rfl⟩ := Search.exists_count_of_ofDatum hs
  obtain ⟨stop, hscheduled⟩ := hplan.scheduled
  have hfirst : Search.Ledger recorder plan stop (recorder.Tabulated plan w)
      (Event.toldIn ([] : List (Event Float τ ρ)))
      (Search.fresh plan landscape source (.int n) (some recorder), w) :=
    ⟨rfl, .of_fresh rfl rfl rfl, Nat.le_refl _, fun _ => rfl, fun hne => absurd rfl hne⟩
  exact ⟨stop, hscheduled, ((Recorder.booked_tabulated recorder plan stop w).attended hplain
    hscheduled.schedule hscheduled.goes).run calls hfirst⟩

/-- Whatever stood in the table of steps, if every step could be recorded, what follows it is a row for
each, in order, with the state that the strategy had come to; the names of the columns come first in an
empty table. A search without an outcome leaves the table alone. -/
theorem history_has_row_for_each_step {plan : Plan Float} (hplan : plan.IsMade)
    {landscape : Landscape Float τ ρ} {source : Source Float} {searches : Datum}
    {recorder : Recorder} (hplain : recorder.IsPlain) {s : Search Float (Plan Float) τ ρ}
    (hs : Search.ofDatum plan landscape source searches (some recorder) = .ok s)
    (w : Surroundings Float) (calls : List Call)
    (hquiet : Recorder.troubles (Call.after calls (s, w)).2 = Recorder.troubles w) :
    recorder.Table plan (w.files.node? recorder.historyPath.place) (Call.outcomes calls (s, w))
      (Call.after calls (s, w)) := by
  obtain ⟨stop, -, hrun⟩ := hplan.ledger_after hplain hs w calls
  exact hrun.booked.toTable hrun.stepwise hquiet

/-- Gravity over three listed costs, recorded in a folder that is not there yet. -/
def recordedSearch : Running Float (Plan Float) Nat Nat :=
  (.fresh (.gravity ⟨⟨0, 2⟩⟩) (.listed "Listed" [.ok 5, .ok 3, .ok 4]) (.repeating [.real 0.5])
    (.int 1) (some ⟨⟨"", ["records"]⟩, "a"⟩), ⟨0, 1, .empty, []⟩)

/-- Two steps leave the names of the columns and two rows. -/
theorem history_has_row_for_each_step_twice :
    ((Call.after [.step, .step] recordedSearch).2.files.node? ["records", "a_history.csv"]) =
      some (.file (Csv.table (Recorder.header ::
        Recorder.rows (.gravity ⟨⟨0, 2⟩⟩ : Plan Float) (Call.outcomes [.step, .step] recordedSearch)))) ∧
      (Call.outcomes [.step, .step] recordedSearch).map (·.done) = [false, true] := by
  have hplan : (Plan.gravity ⟨⟨0, 2⟩⟩ : Plan Float).IsMade :=
    .gravity (show Gravity.ofDatum (.int 2) = .ok _ from rfl)
  have hplain : (⟨⟨"", ["records"]⟩, "a"⟩ : Recorder).IsPlain := by
    refine ⟨?_, ?_, ?_⟩ <;> decide +kernel
  have hs : Search.ofDatum (Plan.gravity ⟨⟨0, 2⟩⟩) (.listed "Listed" [.ok 5, .ok 3, .ok 4])
      (.repeating [.real 0.5]) (.int 1) (some ⟨⟨"", ["records"]⟩, "a"⟩) =
        .ok recordedSearch.1 := rfl
  have hquiet : Recorder.troubles (Call.after [.step, .step] recordedSearch).2 =
      Recorder.troubles recordedSearch.2 := by decide +kernel
  have hdone : (Call.outcomes [.step, .step] recordedSearch).map (·.done) = [false, true] := by
    decide +kernel
  have hsome : Call.outcomes [.step, .step] recordedSearch ≠ [] := by
    intro hnil
    rw [hnil] at hdone
    cases hdone
  have htable := history_has_row_for_each_step hplan hplain hs recordedSearch.2 [.step, .step] hquiet
  have hplace : (⟨⟨"", ["records"]⟩, "a"⟩ : Recorder).historyPath.place =
      ["records", "a_history.csv"] := by decide +kernel
  have hbefore : recordedSearch.2.files.node? ["records", "a_history.csv"] = none := by rfl
  rw [Prod.mk.eta, hplace, hbefore] at htable
  have hcontent := htable.content hsome
  rw [hplace] at hcontent
  exact ⟨hcontent, hdone⟩

/-- Before the first step there is no table, and no names of columns either. -/
theorem history_lacks_header_before_first_step :
    Call.outcomes [.start] recordedSearch = [] ∧
      Recorder.troubles (Call.after [.start] recordedSearch).2 =
        Recorder.troubles recordedSearch.2 ∧
      recordedSearch.2.files.node? ["records", "a_history.csv"] = none ∧
      (Call.after [.start] recordedSearch).2.files.node? ["records", "a_history.csv"] ≠
        some (.file (Csv.table [Recorder.header])) := by
  have hnone : (Call.after [.start] recordedSearch).2.files.node? ["records", "a_history.csv"] =
      none := by decide +kernel
  refine ⟨by rfl, by decide +kernel, by decide +kernel, ?_⟩
  rw [hnone]
  simp

end AssignmentSearch
