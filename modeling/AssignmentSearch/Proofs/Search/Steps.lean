import AssignmentSearch.Proofs.Search.Calls

/-!
# What a step does

Each call on a search by what it answers and by how the search has changed: beginning and ending
change the stage, an answered step counts once and ages the strategy once, and a step whose trials
fail leaves count and strategy alone. Records have faults of their own only, and reports none.
-/

namespace AssignmentSearch

variable {α σ τ ρ β γ : Type}

/-- The faults of records: a path with a zero character and a result that cannot be told. -/
inductive Fault.OfRecord : Fault → Prop
  | nullByte : OfRecord .nullByte
  | unwritable : OfRecord .unwritable

/-- An attempt that has no faults but those of records. -/
def OnlyRecords (x : Attempt σ β) : Prop := ∀ s t e, x.start s = (.error e, t) → e.OfRecord

namespace OnlyRecords

theorem pure (a : β) : OnlyRecords (Pure.pure a : Attempt σ β) := by
  intro s t e h
  cases h

theorem bind {x : Attempt σ β} {f : β → Attempt σ γ} (hx : OnlyRecords x)
    (hf : ∀ a, OnlyRecords (f a)) : OnlyRecords (x >>= f) := by
  intro s t e h
  rcases Attempt.fault_of_start_bind h with h | ⟨a, u, -, h⟩
  · exact hx s t e h
  · exact hf a u t e h

theorem get : OnlyRecords (MonadState.get : Attempt σ σ) := by
  intro s t e h
  cases h

theorem lift {x : Except Fault β} (hx : ∀ e, x = .error e → e.OfRecord) :
    OnlyRecords (Attempt.lift x : Attempt σ β) := by
  intro s t e h
  rw [Attempt.start_lift, Prod.mk.injEq] at h
  exact hx e h.1

theorem lift_ok (a : β) : OnlyRecords (Attempt.lift (.ok a) : Attempt σ β) :=
  lift fun _ h => nomatch h

theorem report (e : Entry) :
    OnlyRecords (Surroundings.report e : Attempt (Surroundings α) Unit) := by
  intro s t e h
  cases h

theorem tryAccess (trouble : Entry) (x : Access Unit) :
    OnlyRecords (Surroundings.tryAccess trouble x : Attempt (Surroundings α) Bool) := by
  intro s t e h
  rw [Surroundings.tryAccess, Attempt.start_bind_ok (Attempt.start_get s)] at h
  rcases hx : x s.files with ⟨r, files⟩
  rw [hx] at h
  cases r with
  | ok a => cases h
  | error d =>
    by_cases hd : d.obstacle = .nullByte
    · simp only [hd, if_true] at h
      cases h
      exact .nullByte
    · simp only [hd, if_false] at h
      cases h

theorem onSurroundings {x : Attempt (Surroundings α) β} (hx : OnlyRecords x) :
    OnlyRecords (Search.onSurroundings x : Attempt (Running α σ τ ρ) β) := by
  intro s t e h
  rw [Search.onSurroundings, Attempt.start_zoom, Prod.mk.injEq] at h
  exact hx s.2 _ e (Prod.ext h.1 rfl)

end OnlyRecords

theorem onlyRecords_recordStep [Printed α] (r : Recorder) (state : List (String × Datum))
    (o : Outcome α) : OnlyRecords (r.recordStep state o) :=
  (OnlyRecords.tryAccess _ _).bind fun _ => OnlyRecords.pure _

theorem onlyRecords_recordBest (r : Recorder) {result : Except Fault (List (String × Datum))}
    (hresult : ∀ e, result = .error e → e.OfRecord) :
    OnlyRecords (r.recordBest result : Attempt (Surroundings α) Unit) := by
  refine (OnlyRecords.tryAccess _ _).bind fun made => ?_
  cases made with
  | false => exact OnlyRecords.pure _
  | true =>
    refine (OnlyRecords.lift hresult).bind fun fields => ?_
    refine (OnlyRecords.tryAccess _ _).bind fun stored => ?_
    cases stored with
    | false => exact OnlyRecords.pure _
    | true => exact OnlyRecords.report _

theorem Progress.fresh_of_found? {p : Progress α τ ρ} (h : p.found? = none) : p = .fresh := by
  cases p with
  | fresh => rfl
  | searching f => cases h
  | finished f => cases h

theorem Progress.finished_of_stage {p : Progress α τ ρ} (h : p.stage = .terminated) :
    ∃ f, p = .finished f := by
  cases p with
  | fresh => cases h
  | searching f => cases h
  | finished f => exact ⟨f, rfl⟩

namespace Search

theorem onlyRecords_log (level : Level) (message : String) :
    OnlyRecords (log level message : Attempt (Running α σ τ ρ) Unit) :=
  (OnlyRecords.report _).onSurroundings

theorem onlyRecords_settle [Strategy α σ] [Printed α] (o : Outcome α) :
    OnlyRecords (settle o : Attempt (Running α σ τ ρ) Unit) := by
  refine OnlyRecords.get.bind fun r => ?_
  obtain ⟨s, w⟩ := r
  dsimp only
  cases Strategy.note s.strategy with
  | none =>
    cases s.recorder with
    | none => exact onlyRecords_log _ _
    | some r => exact (onlyRecords_recordStep r _ o).onSurroundings.bind fun _ => onlyRecords_log _ _
  | some e =>
    refine (OnlyRecords.report e).onSurroundings.bind fun _ => ?_
    cases s.recorder with
    | none => exact onlyRecords_log _ _
    | some r => exact (onlyRecords_recordStep r _ o).onSurroundings.bind fun _ => onlyRecords_log _ _

end Search

structure Found.Known (f : Found α τ ρ) : Prop where
  current : ∃ c, f.current.solution.costValue = .ok c
  best : ∃ c, f.best.solution.costValue = .ok c

namespace Search

theorem exists_bestCost {s : Search α σ τ ρ} (h : ∀ f, s.progress.found? = some f → f.Known) :
    ∃ best, s.bestCost? = .ok best := by
  rw [bestCost?]
  cases hf : s.progress.found? with
  | none => exact ⟨none, rfl⟩
  | some f =>
    obtain ⟨c, hc⟩ := (h f hf).best
    exact ⟨some c, by simp only [hc]; rfl⟩

theorem exists_count_of_ofDatum [Quantity α] {strategy : σ} {landscape : Landscape α τ ρ}
    {source : Source α} {searches : Datum} {recorder : Option Recorder} {s : Search α σ τ ρ}
    (h : ofDatum strategy landscape source searches recorder = .ok s) :
    ∃ n : Int, searches.toInt = .ok n ∧ 1 ≤ n ∧
      s = fresh strategy landscape source (.int n) recorder := by
  obtain ⟨n, hn, h⟩ := exists_of_bind_ok h
  change (if n < 1 then
      Except.error (if searches.isLong then Fault.unwritable else Fault.searches searches)
    else Except.ok (fresh strategy landscape source (.int n) recorder)) = .ok s at h
  split at h
  · cases h
  · rename_i hlow
    cases h
    exact ⟨n, hn, by omega, rfl⟩

def firstFound (first : Solution α τ ρ) : Found α τ ρ := ⟨⟨0, first.evaluated⟩, ⟨0, first.evaluated⟩⟩

theorem known_firstFound {first : Solution α τ ρ} (h : ∃ c, first.costValue = .ok c) :
    (firstFound first).Known := by
  obtain ⟨c, hc⟩ := h
  have hevaluated : first.evaluated.costValue = .ok c := by rw [Solution.costValue_evaluated, hc]
  exact ⟨⟨c, hevaluated⟩, ⟨c, hevaluated⟩⟩

def progressOf (stop : Bool) (f : Found α τ ρ) : Progress α τ ρ :=
  if stop then .finished f else .searching f

theorem stage_progressOf (stop : Bool) (f : Found α τ ρ) :
    (progressOf stop f).stage = if stop then .terminated else .searching := by
  cases stop <;> rfl

theorem found?_progressOf (stop : Bool) (f : Found α τ ρ) :
    (progressOf stop f).found? = some f := by
  cases stop <;> rfl

section
variable [ToString τ] [ToString ρ]

theorem tell_ok {s : Search α σ τ ρ} {m : Mapping τ ρ} {told : Datum} (h : s.tell m = .ok told) :
    s.landscape.writes m = true ∧ told = .dict (mappingEntries m) := by
  rw [tell] at h
  split at h
  · rename_i hwrites
    cases h
    exact ⟨hwrites, rfl⟩
  · cases h

theorem tell_of_writes {s : Search α σ τ ρ} {m : Mapping τ ρ} (h : s.landscape.writes m = true) :
    s.tell m = .ok (.dict (mappingEntries m)) := by
  rw [tell, if_pos h]

theorem tellCurrent_ok {s : Search α σ τ ρ} {told : Datum} (h : s.tellCurrent = .ok told) :
    told = s.currentMapping := by
  rw [tellCurrent] at h
  rw [currentMapping]
  cases hf : s.progress.found? with
  | none =>
    rw [hf] at h
    cases h
    rfl
  | some f =>
    rw [hf] at h
    exact (tell_ok h).2

theorem tellBest_of_writes {s : Search α σ τ ρ} {f : Found α τ ρ} (hf : s.progress.found? = some f)
    (h : s.landscape.writes f.best.solution.mapping = true) : s.tellBest = .ok s.bestMapping := by
  rw [tellBest, bestMapping, hf]
  exact tell_of_writes h

theorem fault_of_tellBest {s : Search α σ τ ρ} {e : Fault} (h : s.tellBest = .error e) :
    e = .unwritable := by
  rw [tellBest] at h
  cases hf : s.progress.found? with
  | none =>
    rw [hf] at h
    cases h
  | some f =>
    rw [hf] at h
    dsimp only at h
    rw [tell] at h
    split at h <;> cases h
    rfl

end

variable [Strategy α σ] [Printed α]

theorem exists_snapshot {s : Search α σ τ ρ} (h : ∀ f, s.progress.found? = some f → f.Known) :
    ∃ fields, s.snapshot = .ok fields := by
  obtain ⟨best, hbest⟩ := exists_bestCost h
  have hcurrent : ∃ current, s.currentCost? = .ok current := by
    rw [currentCost?]
    cases hf : s.progress.found? with
    | none => exact ⟨none, rfl⟩
    | some f =>
      obtain ⟨c, hc⟩ := (h f hf).current
      exact ⟨some c, by simp only [hc]; rfl⟩
  obtain ⟨current, hcurrent⟩ := hcurrent
  rw [snapshot, hcurrent, hbest]
  exact ⟨_, rfl⟩

variable [ToString τ] [ToString ρ]

theorem fault_of_result {s : Search α σ τ ρ} {e : Fault}
    (h : ∀ f, s.progress.found? = some f → f.Known) (he : s.result = .error e) :
    e = .unwritable := by
  obtain ⟨fields, hfields⟩ := exists_snapshot h
  rw [result, hfields] at he
  cases hbest : s.tellBest with
  | error e' =>
    have hfault : e' = .unwritable := fault_of_tellBest hbest
    rw [hbest, hfault] at he
    cases he
    rfl
  | ok best =>
    rw [hbest] at he
    change (if fields.any fun x => x.2.isLong then Except.error Fault.unwritable
      else Except.ok (fields ++ [("best_mapping", best)])) = .error e at he
    split at he <;> cases he
    rfl

theorem terminate_error {r t : Running α σ τ ρ} {e : Fault}
    (hknown : ∀ f, r.1.progress.found? = some f → f.Known)
    (h : terminate.start r = (.error e, t)) : e.OfRecord := by
  obtain ⟨s, w⟩ := r
  have hfound : ∀ f, s.progress.finish.found? = some f → f.Known := by
    intro f hf
    rw [Progress.found?_finish] at hf
    exact hknown f hf
  obtain ⟨best, hbest⟩ := exists_bestCost (s := { s with progress := s.progress.finish }) hfound
  have hresult : ∀ e, result { s with progress := s.progress.finish } = .error e → e.OfRecord :=
    fun e he => fault_of_result hfound he ▸ .unwritable
  rw [terminate, Attempt.start_bind_ok (start_onSearch _ _),
    Attempt.start_bind_ok (Attempt.start_get _)] at h
  simp only [Attempt.start_modify, hbest] at h
  cases hr : s.recorder with
  | none =>
    simp only [hr] at h
    exact ((OnlyRecords.lift_ok _).bind fun _ => onlyRecords_log _ _) _ _ e h
  | some recorder =>
    simp only [hr] at h
    exact ((onlyRecords_recordBest recorder hresult).onSurroundings.bind
      fun _ => (OnlyRecords.lift_ok _).bind fun _ => onlyRecords_log _ _) _ _ e h

theorem start_of_found {r : Running α σ τ ρ} {f : Found α τ ρ} (h : r.1.progress.found? = some f) :
    start.start r = (.ok (), r) := by
  rw [start, Attempt.start_bind_ok (Attempt.start_get r)]
  cases hp : r.1.progress with
  | fresh =>
    rw [hp] at h
    cases h
  | searching g => rfl
  | finished g => rfl

theorem start_ok {r t : Running α σ τ ρ} (hfresh : r.1.progress = .fresh)
    (h : start.start r = (.ok (), t)) :
    ∃ first source stop,
      (r.1.landscape.initial r.1.kept).start r.1.source = (.ok first, source) ∧
        (∃ c, first.costValue = .ok c) ∧ Strategy.stops r.1.strategy = .ok stop ∧
          t.1 = { r.1 with
            source := source
            kept := some first.evaluated
            progress := progressOf stop (firstFound first) } := by
  rw [start, Attempt.start_bind_ok (Attempt.start_get r), hfresh] at h
  obtain ⟨⟨first, cost⟩, u, hbegin, h⟩ := Attempt.exists_of_start_bind h
  rw [start_onSearch, Prod.mk.injEq] at hbegin
  obtain ⟨hbegin, hu⟩ := hbegin
  rcases hx : (r.1.landscape.initial r.1.kept).start r.1.source with ⟨a, source⟩
  cases a with
  | error e =>
    rw [begin_of_error hx] at hbegin
    cases hbegin
  | ok first' =>
    rw [begin_of_ok hx] at hbegin hu
    cases hc : first'.costValue with
    | error e =>
      rw [hc] at hbegin
      cases hbegin
    | ok c =>
      obtain ⟨r', u', hget, h⟩ := Attempt.exists_of_start_bind h
      cases hget
      obtain ⟨_, v, hlog, h⟩ := Attempt.exists_of_start_bind h
      have hv : v.1 = u.1 := (congrArg (fun p => p.2.1) hlog).symm.trans (idle_log _ _ u)
      obtain ⟨stop, hstop, h⟩ := Attempt.exists_of_start_lift_bind h
      refine ⟨first', source, stop, rfl, ⟨c, hc⟩, by rw [← hstop, ← hu], ?_⟩
      cases stop with
      | false =>
        cases h
        exact hv.trans (by rw [← hu]; rfl)
      | true =>
        have ht := terminate_search v
        rw [if_pos rfl] at h
        rw [h] at ht
        rw [ht, hv, ← hu]
        rfl

theorem found_of_start_ok {r t : Running α σ τ ρ} (h : start.start r = (.ok (), t)) :
    ∃ f, t.1.progress.found? = some f := by
  cases hf : r.1.progress.found? with
  | none =>
    obtain ⟨first, source, stop, -, -, -, ht⟩ := start_ok (Progress.fresh_of_found? hf) h
    exact ⟨firstFound first, by rw [ht, found?_progressOf]⟩
  | some f =>
    rw [start_of_found hf] at h
    cases h
    exact ⟨f, hf⟩

theorem start_ok_keeps {r t : Running α σ τ ρ} (h : start.start r = (.ok (), t)) :
    t.1.strategy = r.1.strategy ∧ t.1.steps = r.1.steps := by
  cases hf : r.1.progress.found? with
  | none =>
    obtain ⟨first, source, stop, -, -, -, ht⟩ := start_ok (Progress.fresh_of_found? hf) h
    rw [ht]
    exact ⟨rfl, rfl⟩
  | some f =>
    rw [start_of_found hf] at h
    cases h
    exact ⟨rfl, rfl⟩

theorem start_error {r t : Running α σ τ ρ} {e : Fault} {stop : Bool}
    (hfresh : r.1.progress = .fresh) (hstop : Strategy.stops r.1.strategy = .ok stop)
    (h : start.start r = (.error e, t)) :
    (∃ source, (r.1.landscape.initial r.1.kept).start r.1.source = (.error e, source) ∧
        t.1 = { r.1 with source := source }) ∨
      (∃ first source, (r.1.landscape.initial r.1.kept).start r.1.source = (.ok first, source) ∧
        first.costValue = .error e) ∨ e.OfRecord := by
  rw [start, Attempt.start_bind_ok (Attempt.start_get r), hfresh] at h
  rcases hx : (r.1.landscape.initial r.1.kept).start r.1.source with ⟨a, source⟩
  rcases Attempt.fault_of_start_bind h with h | ⟨⟨first, cost⟩, u, hbegin, h⟩
  · rw [start_onSearch, Prod.mk.injEq] at h
    obtain ⟨hbegin, ht⟩ := h
    cases a with
    | error e' =>
      rw [begin_of_error hx] at hbegin ht
      cases hbegin
      exact Or.inl ⟨source, rfl, by rw [← ht]⟩
    | ok first =>
      rw [begin_of_ok hx] at hbegin
      refine Or.inr (Or.inl ⟨first, source, rfl, ?_⟩)
      cases hc : first.costValue with
      | error e' =>
        rw [hc] at hbegin
        cases hbegin
        rfl
      | ok c =>
        rw [hc] at hbegin
        cases hbegin
  · rw [start_onSearch, Prod.mk.injEq] at hbegin
    obtain ⟨hbegin, hu⟩ := hbegin
    refine Or.inr (Or.inr ?_)
    cases a with
    | error e' =>
      rw [begin_of_error hx] at hbegin
      cases hbegin
    | ok first' =>
      rw [begin_of_ok hx] at hbegin hu
      have hknown : ∃ c, first'.costValue = .ok c := by
        cases hc : first'.costValue with
        | error e' =>
          rw [hc] at hbegin
          cases hbegin
        | ok c => exact ⟨c, rfl⟩
      dsimp only at h
      rw [Attempt.start_bind_ok (Attempt.start_get u)] at h
      rcases Attempt.fault_of_start_bind h with h | ⟨_, v, hlog, h⟩
      · exact onlyRecords_log _ _ _ _ e h
      · have hv : v.1 = u.1 := (congrArg (fun p => p.2.1) hlog).symm.trans (idle_log _ _ u)
        rw [← hu] at h
        rw [Attempt.start_bind_ok (by rw [Attempt.start_lift, hstop])] at h
        cases stop with
        | false => cases h
        | true =>
          refine terminate_error (fun f hf => ?_) h
          rw [hv, ← hu] at hf
          cases hf
          exact known_firstFound hknown

end Search

variable [Quantity α] [Acceptance α σ (Solution α τ ρ)]

/-- A candidate whose cost is no number is not taken. -/
theorem Found.Known.after {s : Search α σ τ ρ} {m : Meeting α τ ρ} (hm : Search.meeting? s = some m)
    (h : m.found.Known) : m.after.Known := by
  cases haccepted : m.isAccepted with
  | false => rwa [Meeting.after_of_not_accepted haccepted]
  | true =>
    have hcandidate : ∃ c, m.candidate.solution.costValue = .ok c := by
      obtain ⟨c, source, -, hc, -⟩ := Search.candidate_of_meeting hm
      cases hcost : c.costValue with
      | ok x => exact ⟨x, by rw [hc, Solution.costValue_evaluated, hcost]⟩
      | error e =>
        have hv := Search.verdict_of_meeting hm
        rw [hc, Search.verdict_of_error hcost] at hv
        rw [Meeting.isAccepted, hv] at haccepted
        cases haccepted
    rw [Meeting.after, haccepted, if_pos rfl]
    split
    · exact ⟨hcandidate, hcandidate⟩
    · exact ⟨hcandidate, h.best⟩

namespace Search

def Tried (f : Found α τ ρ) (s t : Search α σ τ ρ) : Prop :=
  ∃ source trials g, t = { s with source := source, trials := trials, progress := .searching g } ∧
    (f.Known → g.Known)

theorem tried_trial (b : Batch α) {s : Search α σ τ ρ} {f : Found α τ ρ}
    (hf : s.progress = .searching f) : Tried f s ((trial b).start s).2 := by
  obtain ⟨source, trials, ht, -⟩ := start_trial_state b s
  rw [ht, progressAfter]
  cases hm : meeting? s with
  | none => exact ⟨source, trials, f, by rw [hf], id⟩
  | some m =>
    have hfound := found_of_meeting hm
    rw [hf] at hfound
    cases hfound
    exact ⟨source, trials, m.after, by rw [hf]; rfl, fun h => h.after hm⟩

theorem tried_batch (n : Nat) {b : Batch α} {s : Search α σ τ ρ} {f : Found α τ ρ}
    (hf : s.progress = .searching f) : Tried f s ((batch n b).start s).2 := by
  induction n generalizing b s f with
  | zero => exact ⟨s.source, s.trials, f, by rw [← hf]; rfl, id⟩
  | succ n ih =>
    have htrial := tried_trial b hf
    rw [batch]
    rcases hx : (trial b).start s with ⟨r, t⟩
    rw [hx] at htrial
    cases r with
    | error e =>
      rw [Attempt.start_bind_error hx]
      exact htrial
    | ok c =>
      obtain ⟨source, trials, g, rfl, hg⟩ := htrial
      obtain ⟨source', trials', g', ht', hg'⟩ := ih (b := c) (f := g)
        (s := { s with source := source, trials := trials, progress := .searching g }) rfl
      rw [Attempt.start_bind_ok hx]
      exact ⟨source', trials', g', ht', fun h => hg' (hg h)⟩

variable [Strategy α σ]

theorem advance_ok {s t : Search α σ τ ρ} {f : Found α τ ρ} {o : Outcome α}
    (hf : s.progress = .searching f) (h : (advance f).start s = (.ok o, t)) :
    ∃ u a, Tried f s u ∧ Strategy.age s.strategy = .ok a ∧ Strategy.stops a = .ok o.done ∧
      o.iteration = s.steps + 1 ∧ t = { u with steps := s.steps + 1, strategy := a } := by
  obtain ⟨count, b, u, a, hturned⟩ := exists_turned h
  have htried := tried_batch count (b := ⟨false, .untried, o.costBefore⟩) hf
  rw [hturned.batch] at htried
  obtain ⟨source, trials, g, rfl, hg⟩ := htried
  exact ⟨_, a, ⟨source, trials, g, rfl, hg⟩, hturned.age, hturned.stops, hturned.iteration,
    hturned.after⟩

/-- Only the trials of a step fail, as long as the strategy does not and the costs are known. -/
theorem advance_error {s t : Search α σ τ ρ} {f : Found α τ ρ} {e : Fault} {a : σ} {stop : Bool}
    (hf : s.progress = .searching f) (hknown : f.Known) (hage : Strategy.age s.strategy = .ok a)
    (hstop : Strategy.stops a = .ok stop) (h : (advance f).start s = (.error e, t)) :
    Tried f s t := by
  have hnone : Tried f s s := ⟨s.source, s.trials, f, by rw [← hf], id⟩
  rw [advance] at h
  rcases Attempt.fault_of_start_lift_bind h with ⟨-, rfl⟩ | ⟨before, hbefore, h⟩
  · exact hnone
  rw [Attempt.start_bind_ok (Attempt.start_get s)] at h
  rcases Attempt.fault_of_start_lift_bind h with ⟨-, rfl⟩ | ⟨count, hcount, h⟩
  · exact hnone
  have htried := tried_batch count (b := ⟨false, .untried, before⟩) hf
  rcases Attempt.fault_of_start_bind h with h | ⟨b, u, hbatch, h⟩
  · rw [h] at htried
    exact htried
  · -- Whatever follows the trials has an answer.
    rw [hbatch] at htried
    obtain ⟨source, trials, g, rfl, hg⟩ := htried
    obtain ⟨⟨c, hc⟩, ⟨d, hd⟩⟩ := hg hknown
    simp only [Attempt.start_bind, Attempt.start_modify, Attempt.start_get, Attempt.start_lift,
      hage, hstop, Progress.found?, Option.getD_some, hc, hd] at h
    cases h

variable [Printed α] [ToString τ] [ToString ρ]

theorem toldIn_stepLog {r : Running α σ τ ρ} {f : Found α τ ρ} (hf : r.1.progress = .searching f) :
    Event.toldIn (stepLog r) =
      match (advance f).start r.1 with
      | (.ok o, _) => [o]
      | (.error _, _) => [] := by
  rw [stepLog, start_of_found (f := f) (by rw [hf]; rfl)]
  simp only [hf]
  rw [turnLog, Event.toldIn_append, Event.toldIn_map_met, List.nil_append]
  rcases (advance f).start r.1 with ⟨a, t⟩
  cases a <;> rfl

theorem metIn_stepLog {r : Running α σ τ ρ} {f : Found α τ ρ} (hf : r.1.progress = .searching f) :
    Event.metIn (stepLog r) = turnMeetings f r.1 := by
  rw [stepLog, start_of_found (f := f) (by rw [hf]; rfl)]
  simp only [hf]
  rw [turnLog, Event.metIn_append, Event.metIn_map_met]
  rcases (advance f).start r.1 with ⟨_ | _, _⟩ <;> simp

theorem step_of_finished {r : Running α σ τ ρ} {f : Found α τ ρ} (h : r.1.progress = .finished f) :
    step.start r = (.error .terminated, r) ∧ stepLog r = [] := by
  have hstart : start.start r = (.ok (), r) := start_of_found (by rw [h]; rfl)
  constructor
  · rw [step, Attempt.start_bind_ok hstart, Attempt.start_bind_ok (Attempt.start_get r)]
    simp only [h]
    rfl
  · rw [stepLog, hstart]
    simp only [h]

theorem drive_of_terminated {r : Running α σ τ ρ} (n : Nat)
    (h : r.1.progress.stage = .terminated) : (drive n).start r = (.ok true, r) := by
  cases n with
  | zero =>
    rw [drive, Attempt.start_bind_ok (Attempt.start_get r), h]
    rfl
  | succ n =>
    rw [drive, Attempt.start_bind_ok (Attempt.start_get r), h]
    rfl

theorem solve_ok {r t : Running α σ τ ρ} {limit : Nat} {best : Solution α τ ρ}
    (h : (solve limit).start r = (.ok (some best), t)) :
    ∃ f, t.1.progress.found? = some f ∧ best = f.best.solution := by
  obtain ⟨_, u, -, h⟩ := Attempt.exists_of_start_bind h
  obtain ⟨isOver, v, -, h⟩ := Attempt.exists_of_start_bind h
  cases isOver with
  | false => cases h
  | true =>
    rw [if_pos rfl, Attempt.start_bind_ok (Attempt.start_get v), Attempt.start_pure,
      Prod.mk.injEq] at h
    obtain ⟨hbest, rfl⟩ := h
    cases hf : v.1.progress.found? with
    | none =>
      rw [hf] at hbest
      cases hbest
    | some f =>
      rw [hf] at hbest
      cases hbest
      exact ⟨f, rfl, rfl⟩

theorem step_of_start {r t : Running α σ τ ρ} {f : Found α τ ρ} (h : start.start r = (.ok (), t))
    (hf : t.1.progress.found? = some f) : step.start r = step.start t ∧ stepLog r = stepLog t := by
  have ht := start_of_found hf
  constructor
  · rw [step, Attempt.start_bind_ok h, Attempt.start_bind_ok ht]
  · rw [stepLog, stepLog, h, ht]

theorem step_of_start_error {r t : Running α σ τ ρ} {e : Fault} (h : start.start r = (.error e, t)) :
    step.start r = (.error e, t) ∧ stepLog r = [] := by
  constructor
  · rw [step, Attempt.start_bind_error h]
  · rw [stepLog, h]

omit [Acceptance α σ (Solution α τ ρ)] in
theorem conclude_ok {r t : Running α σ τ ρ} {started : α} {o o' : Outcome α}
    (h : (conclude started o).start r = (.ok o', t)) :
    o' = o ∧ ∃ time, t.1 = { r.1 with
      solveTime := time
      progress := if o.done then r.1.progress.finish else r.1.progress } := by
  rw [conclude] at h
  obtain ⟨_, u, hsettle, h⟩ := Attempt.exists_of_start_bind h
  have hu : u.1 = r.1 := (congrArg (fun p => p.2.1) hsettle).symm.trans (idle_settle o r)
  rw [Attempt.start_bind_ok (start_readClock u), Attempt.start_bind_ok (start_onSearch _ _),
    Attempt.start_modify] at h
  dsimp only at h
  rw [hu] at h
  cases hdone : o.done with
  | false =>
    rw [hdone] at h
    cases h
    exact ⟨rfl, _, rfl⟩
  | true =>
    rw [hdone, if_pos rfl] at h
    obtain ⟨_, v, hend, h⟩ := Attempt.exists_of_start_bind h
    have hv := (congrArg (fun p => p.2.1) hend).symm
    rw [terminate_search] at hv
    cases h
    exact ⟨rfl, _, hv⟩

omit [Acceptance α σ (Solution α τ ρ)] in
theorem conclude_error {r t : Running α σ τ ρ} {started : α} {o : Outcome α} {e : Fault}
    (hknown : ∀ f, r.1.progress.found? = some f → f.Known)
    (h : (conclude started o).start r = (.error e, t)) : e.OfRecord := by
  rw [conclude] at h
  rcases Attempt.fault_of_start_bind h with h | ⟨_, u, hsettle, h⟩
  · exact onlyRecords_settle o _ _ e h
  · have hu : u.1 = r.1 := (congrArg (fun p => p.2.1) hsettle).symm.trans (idle_settle o r)
    rw [Attempt.start_bind_ok (start_readClock u), Attempt.start_bind_ok (start_onSearch _ _),
      Attempt.start_modify] at h
    dsimp only at h
    cases hdone : o.done with
    | false =>
      rw [hdone] at h
      cases h
    | true =>
      rw [hdone, if_pos rfl] at h
      rcases Attempt.fault_of_start_bind h with h | ⟨_, v, -, h⟩
      · refine terminate_error (fun f hf => ?_) h
        rw [hu] at hf
        exact hknown f hf
      · cases h

/-- An answered step counts once, ages the strategy once and ends the search if that is to stop. -/
theorem step_ok {r t : Running α σ τ ρ} {f : Found α τ ρ} {o : Outcome α}
    (hf : r.1.progress = .searching f) (h : step.start r = (.ok o, t)) :
    ∃ source trials g a time, (f.Known → g.Known) ∧ Strategy.age r.1.strategy = .ok a ∧
      Strategy.stops a = .ok o.done ∧ o.iteration = r.1.steps + 1 ∧
      t.1 = { r.1 with
        source := source
        trials := trials
        progress := progressOf o.done g
        steps := r.1.steps + 1
        strategy := a
        solveTime := time } ∧ Event.toldIn (stepLog r) = [o] := by
  have htold := toldIn_stepLog hf
  rw [step_of_searching hf] at h
  rcases hx : (advance f).start r.1 with ⟨b, s⟩
  rw [hx] at h htold
  cases b with
  | error e => cases h
  | ok o' =>
    obtain ⟨u, a, ⟨source, trials, g, rfl, hg⟩, hage, hstop, hiteration, rfl⟩ := advance_ok hf hx
    obtain ⟨rfl, time, ht⟩ := conclude_ok h
    refine ⟨source, trials, g, a, time, hg, hage, hstop, hiteration, ?_, htold⟩
    rw [ht, progressOf]
    rfl

theorem searching_of_step_ok {r t : Running α σ τ ρ} {o : Outcome α}
    (h : step.start r = (.ok o, t)) :
    ∃ u f, start.start r = (.ok (), u) ∧ u.1.progress = .searching f ∧
      step.start u = (.ok o, t) := by
  rcases hx : start.start r with ⟨a, u⟩
  cases a with
  | error e =>
    rw [(step_of_start_error hx).1] at h
    cases h
  | ok _ =>
    obtain ⟨f, hf⟩ := found_of_start_ok hx
    rw [(step_of_start hx hf).1] at h
    cases hp : u.1.progress with
    | fresh =>
      rw [hp] at hf
      cases hf
    | searching g => exact ⟨u, g, rfl, hp, h⟩
    | finished g =>
      rw [(step_of_finished hp).1] at h
      cases h

theorem found_of_step_ok {r t : Running α σ τ ρ} {o : Outcome α} (h : step.start r = (.ok o, t)) :
    ∃ f, t.1.progress.found? = some f := by
  obtain ⟨u, f, -, hf, hstep⟩ := searching_of_step_ok h
  obtain ⟨source, trials, g, a, time, -, -, -, -, ht, -⟩ := step_ok hf hstep
  exact ⟨g, by rw [ht]; exact found?_progressOf o.done g⟩

/-- A step that fails with anything but a record has only made trials. -/
theorem step_error {r t : Running α σ τ ρ} {f : Found α τ ρ} {e : Fault} {a : σ} {stop : Bool}
    (hf : r.1.progress = .searching f) (hknown : f.Known)
    (hage : Strategy.age r.1.strategy = .ok a) (hstop : Strategy.stops a = .ok stop)
    (h : step.start r = (.error e, t)) :
    e.OfRecord ∨ Tried f r.1 t.1 ∧ Event.toldIn (stepLog r) = [] := by
  have htold := toldIn_stepLog hf
  rw [step_of_searching hf] at h
  rcases hx : (advance f).start r.1 with ⟨b, s⟩
  rw [hx] at h htold
  cases b with
  | error e' =>
    cases h
    exact Or.inr ⟨advance_error hf hknown hage hstop hx, htold⟩
  | ok o =>
    obtain ⟨u, a', ⟨source, trials, g, rfl, hg⟩, -, -, -, rfl⟩ := advance_ok hf hx
    refine Or.inl (conclude_error (fun g' hg' => ?_) h)
    cases hg'
    exact hg hknown

end Search
end AssignmentSearch
