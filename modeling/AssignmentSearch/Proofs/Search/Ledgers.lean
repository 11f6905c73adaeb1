import AssignmentSearch.Proofs.Search.Records
import AssignmentSearch.Proofs.Strategy.Schedules

/-!
# The course of a recorded search

Under a strategy that keeps to a schedule a search comes to one outcome after the other, each recorded
as it comes, until the schedule is to stop. What the records keep is shown once for a step with an
outcome; it then holds after any sequence of calls.
-/

namespace AssignmentSearch

variable {α σ τ ρ : Type} [Strategy α σ]

namespace Search

/-- A search and its outcomes so far are where the schedule of the first strategy puts them. No cost
need be known, but if the current one is, so is the best. -/
structure Stepwise (first : σ) (stop : Nat → Bool) (os : List (Outcome α)) (s : Search α σ τ ρ) :
    Prop where
  ages : Strategy.Ages s.steps first s.strategy
  iterations : os.map (·.iteration) = List.range' 1 s.steps
  done : ∀ o ∈ os, o.done = stop o.iteration
  earlier : ∀ n < s.steps, stop n = false
  fresh : s.progress = .fresh → s.steps = 0
  held : ∀ f, s.progress.found? = some f → s.progress = progressOf (stop s.steps) f
  known : ∀ f c, s.progress.found? = some f → f.current.solution.costValue = .ok c → f.Known

namespace Stepwise

variable {first : σ} {stop : Nat → Bool} {os : List (Outcome α)}

theorem of_fresh {s : Search α σ τ ρ} (hfresh : s.progress = .fresh) (hsteps : s.steps = 0)
    (hstrategy : s.strategy = first) : Stepwise first stop [] s where
  ages := by
    rw [hsteps]
    exact Strategy.ages_zero.mpr hstrategy.symm
  iterations := by rw [hsteps]; rfl
  done := by simp
  earlier := by
    intro n hn
    omega
  fresh _ := hsteps
  held := by
    intro f hf
    rw [hfresh] at hf
    cases hf
  known := by
    intro f c hf
    rw [hfresh] at hf
    cases hf

theorem stop_of_searching {s : Search α σ τ ρ} {f : Found α τ ρ} (h : Stepwise first stop os s)
    (hf : s.progress = .searching f) : stop s.steps = false := by
  have hprogress := h.held f (by rw [hf]; rfl)
  cases hstop : stop s.steps with
  | false => rfl
  | true =>
    rw [hf, hstop] at hprogress
    cases hprogress

theorem begun {s : Search α σ τ ρ} (h : Stepwise first stop os s) (hfresh : s.progress = .fresh)
    (hgoes : stop 0 = false) (source : Source α) (solution : Solution α τ ρ) :
    Stepwise first stop os { s with
      source := source
      kept := some solution.evaluated
      progress := .searching (firstFound solution) } := by
  have hsteps := h.fresh hfresh
  refine ⟨h.ages, h.iterations, h.done, h.earlier, fun _ => hsteps, fun f hf => ?_,
    fun f c hf hc => ?_⟩
  · cases hf
    dsimp only
    rw [hsteps, hgoes]
    rfl
  · cases hf
    exact ⟨⟨c, hc⟩, ⟨c, hc⟩⟩

theorem tried {s t : Search α σ τ ρ} {f : Found α τ ρ} (h : Stepwise first stop os s)
    (hf : s.progress = .searching f) (hknown : f.Known) (ht : Tried f s t) :
    Stepwise first stop os t := by
  obtain ⟨source, trials, g, rfl, hg⟩ := ht
  have hstop := h.stop_of_searching hf
  refine ⟨h.ages, h.iterations, h.done, h.earlier, (fun hfresh => by cases hfresh),
    fun g' hg' => ?_, fun g' c hg' _ => ?_⟩
  · cases hg'
    rw [hstop]
    rfl
  · cases hg'
    exact hg hknown

variable [Quantity α] [Acceptance α σ (Solution α τ ρ)]

theorem failed {s t : Search α σ τ ρ} {f : Found α τ ρ} {e : Fault}
    (hschedule : Strategy.Schedule first stop) (h : Stepwise first stop os s)
    (hf : s.progress = .searching f) (hadvance : (advance f).start s = (.error e, t)) :
    t.recorder = s.recorder ∧ (∃ g, t.progress = .searching g) ∧ Stepwise first stop os t := by
  cases hc : f.current.solution.costValue with
  | error e' =>
    rw [advance, hc, Attempt.start_bind_error (Attempt.start_lift _ _)] at hadvance
    cases hadvance
    exact ⟨rfl, ⟨f, hf⟩, h⟩
  | ok c =>
    have hknown := h.known f c (by rw [hf]; rfl) hc
    obtain ⟨a, ha⟩ := hschedule.exists_age h.ages
    have htried := advance_error hf hknown ha (hschedule.stops_eq (h.ages.next ha)) hadvance
    have hstepwise := h.tried hf hknown htried
    obtain ⟨source, trials, g, rfl, -⟩ := htried
    exact ⟨rfl, ⟨g, rfl⟩, hstepwise⟩

theorem told {s t : Search α σ τ ρ} {f : Found α τ ρ} {o : Outcome α}
    (hschedule : Strategy.Schedule first stop) (h : Stepwise first stop os s)
    (hf : s.progress = .searching f) (hadvance : (advance f).start s = (.ok o, t)) (time : α) :
    t.recorder = s.recorder ∧ ∃ g, t.progress = .searching g ∧ g.Known ∧
      Stepwise first stop (os ++ [o])
        { t with solveTime := time, progress := progressOf o.done g } := by
  obtain ⟨count, b, u, a, hturned⟩ := exists_turned hadvance
  have hknown := h.known f o.costBefore (by rw [hf]; rfl) hturned.costBefore
  obtain ⟨u, a, ⟨source, trials, g, rfl, hg⟩, hage, hstop, hiteration, rfl⟩ := advance_ok hf hadvance
  have hages := h.ages.next hage
  have hnext : o.done = stop (s.steps + 1) := by
    rw [hschedule.stops_eq hages] at hstop
    exact (Except.ok.inj hstop).symm
  refine ⟨rfl, g, rfl, hg hknown, hages, ?_, fun o' ho' => ?_, fun n hn => ?_, fun hfresh => ?_,
    fun g' hg' => ?_, fun g' c hg' _ => ?_⟩
  · rw [List.map_append, h.iterations, List.range'_concat, List.map_singleton, hiteration]
    congr 2
    omega
  · rcases List.mem_append.mp ho' with ho' | ho'
    · exact h.done o' ho'
    · rw [List.mem_singleton.mp ho', hiteration, hnext]
  · rcases Nat.lt_succ_iff_lt_or_eq.mp hn with hn | rfl
    · exact h.earlier n hn
    · exact h.stop_of_searching hf
  · have hfound := found?_progressOf o.done g
    dsimp only at hfresh
    rw [hfresh] at hfound
    cases hfound
  · dsimp only at hg'
    rw [found?_progressOf] at hg'
    cases hg'
    dsimp only
    rw [hnext]
  · dsimp only at hg'
    rw [found?_progressOf] at hg'
    cases hg'
    exact hg hknown

end Stepwise

/-- A relation between the outcomes so far and a search in its surroundings that holds on while no files
change, and that a recorded step with one more outcome keeps. -/
structure Booked [Printed α] [ToString τ] [ToString ρ] (r : Recorder) (first : σ) (stop : Nat → Bool)
    (Q : List (Outcome α) → Running α σ τ ρ → Prop) : Prop where
  idle : ∀ {os p q}, p.1.progress.stage ≠ .terminated → q.1.progress.stage ≠ .terminated →
    q.2.files = p.2.files → p.2.journal <:+ q.2.journal → Q os p → Q os q
  told : ∀ {os o p t w}, p.1.progress.stage ≠ .terminated →
    t.progress.stage = (if o.done then .terminated else .searching) →
      (∀ f, t.progress.found? = some f → f.Known) → Stepwise first stop (os ++ [o]) t →
        Posted r o t p.2 w → Q os p → Q (os ++ [o]) (t, w)

/-- A search with a recorder, where the schedule puts it, and related to its outcomes. -/
structure Ledger (r : Recorder) (first : σ) (stop : Nat → Bool)
    (Q : List (Outcome α) → Running α σ τ ρ → Prop) (os : List (Outcome α))
    (p : Running α σ τ ρ) : Prop where
  recorder : p.1.recorder = some r
  stepwise : Stepwise first stop os p.1
  booked : Q os p

variable [Printed α] [ToString τ] [ToString ρ] {r : Recorder} {first : σ} {stop : Nat → Bool}
  {Q : List (Outcome α) → Running α σ τ ρ → Prop}

namespace Booked

theorem start (hQ : Booked r first stop Q) (hschedule : Strategy.Schedule first stop)
    (hgoes : stop 0 = false) {os : List (Outcome α)} {p : Running α σ τ ρ}
    (h : Ledger r first stop Q os p) : Ledger r first stop Q os (Search.start.start p).2 := by
  cases hf : p.1.progress.found? with
  | some f =>
    rw [start_of_found hf]
    exact h
  | none =>
    have hfresh := Progress.fresh_of_found? hf
    have hsteps := h.stepwise.fresh hfresh
    have hstop : Strategy.stops p.1.strategy = .ok false := by
      rw [hschedule.stops_eq h.stepwise.ages, hsteps, hgoes]
    have hstage : p.1.progress.stage ≠ .terminated := by simp [hfresh, Progress.stage]
    obtain ⟨source, journal, hjournal, hstart | ⟨solution, hstart⟩⟩ := start_start hfresh hstop
    · rw [hstart]
      obtain ⟨hages, hiterations, hdone, hearlier, hzero, hheld, hknown⟩ := h.stepwise
      exact ⟨h.recorder, ⟨hages, hiterations, hdone, hearlier, hzero, hheld, hknown⟩,
        hQ.idle hstage hstage rfl hjournal h.booked⟩
    · rw [hstart]
      exact ⟨h.recorder, h.stepwise.begun hfresh hgoes source solution,
        hQ.idle hstage (by simp [Progress.stage]) rfl hjournal h.booked⟩

variable [Quantity α] [Acceptance α σ (Solution α τ ρ)]

theorem turn (hQ : Booked r first stop Q) (hplain : r.IsPlain)
    (hschedule : Strategy.Schedule first stop) {os : List (Outcome α)} {p : Running α σ τ ρ}
    {f : Found α τ ρ} (hf : p.1.progress = .searching f) (h : Ledger r first stop Q os p) :
    Ledger r first stop Q (os ++ Event.toldIn (stepLog p)) (Search.step.start p).2 := by
  have hstage : p.1.progress.stage ≠ .terminated := by simp [hf, Progress.stage]
  rw [step_of_searching hf, toldIn_stepLog hf]
  rcases hx : (advance f).start p.1 with ⟨a, s⟩
  cases a with
  | error e =>
    obtain ⟨hrecorder, ⟨g, hg⟩, hstepwise⟩ := h.stepwise.failed hschedule hf hx
    have hstill : s.progress.stage ≠ .terminated := by simp [hg, Progress.stage]
    rw [List.append_nil]
    exact ⟨hrecorder.trans h.recorder, hstepwise,
      hQ.idle hstage hstill rfl List.suffix_rfl h.booked⟩
  | ok o =>
    obtain ⟨hrecorder, g, hg, hknown, -⟩ := h.stepwise.told hschedule hf hx p.1.solveTime
    have hrs : s.recorder = some r := hrecorder.trans h.recorder
    obtain ⟨b, time, w, hconclude, hrecorded⟩ := start_conclude hplain hrs (p.2.now + p.2.tick) o
      { p.2 with now := p.2.now + p.2.tick }
    obtain ⟨-, g', hg', -, hstepwise⟩ := h.stepwise.told hschedule hf hx time
    have hprogress : (if o.done then s.progress.finish else s.progress) = progressOf o.done g := by
      rw [hg]
      rfl
    obtain rfl : g = g' := by
      rw [hg] at hg'
      exact Progress.searching.inj hg'
    rw [hprogress] at hconclude hrecorded
    dsimp only
    rw [hconclude]
    refine ⟨hrs, hstepwise, hQ.told hstage (stage_progressOf _ _) (fun f' hf' => ?_) hstepwise
      ⟨hrecorded.troubles, hrecorded.answer, hrecorded.files⟩ h.booked⟩
    rw [found?_progressOf] at hf'
    cases hf'
    exact hknown

/-- What holds on while no files change, and is kept by every recorded step, holds after any calls. -/
theorem attended (hQ : Booked r first stop Q) (hplain : r.IsPlain)
    (hschedule : Strategy.Schedule first stop) (hgoes : stop 0 = false) :
    Attended fun l (p : Running α σ τ ρ) => Ledger r first stop Q (Event.toldIn l) p where
  start h := hQ.start hschedule hgoes h
  turn hf h := by
    rw [Event.toldIn_append]
    exact hQ.turn hplain hschedule hf h

end Booked
end Search
end AssignmentSearch
