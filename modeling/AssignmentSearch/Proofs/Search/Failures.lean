import AssignmentSearch.Proofs.Search.Summaries
import AssignmentSearch.Proofs.Solution.Charges

/-!
# Costs that cannot be computed

A search that begins with a solution without a cost is under way all the same, and goes nowhere from
there. A step that comes upon a candidate without a cost fails with what its earlier candidates have
made of the solutions held; its count, its strategy and its stage are those from before.
-/

namespace AssignmentSearch

open Event

variable {α σ τ ρ : Type}

def Found.IsStuck (f : Found α τ ρ) (e : Fault) : Prop :=
  f.best = f.current ∧ f.current.solution.costValue = .error e

section Meetings

variable [Quantity α]

def Found.afterAll (f : Found α τ ρ) (ms : List (Meeting α τ ρ)) : Found α τ ρ :=
  (ms.getLast?.map (·.after)).getD f

theorem Found.afterAll_cons (f : Found α τ ρ) (m : Meeting α τ ρ) (ms : List (Meeting α τ ρ)) :
    f.afterAll (m :: ms) = m.after.afterAll ms := by
  rw [afterAll, afterAll, List.getLast?_cons]
  cases ms.getLast? <;> rfl

end Meetings

variable [Quantity α] [Acceptance α σ (Solution α τ ρ)]

namespace Search

theorem trials_trial {s : Search α σ τ ρ} {f : Found α τ ρ} (hf : s.progress.found? = some f)
    (b : Batch α) : ((trial b).start s).2.trials = s.trials + 1 := by
  rw [trial, Attempt.start_bind_ok (Attempt.start_get s), hf]
  dsimp only
  rcases hn : (neighbor f.current.solution).start s with ⟨_ | c, t⟩
  · rw [Attempt.start_bind_error hn, neighbor_state hn]
  · have ht : t.trials = s.trials + 1 := by rw [neighbor_state hn]
    rw [Attempt.start_bind_ok hn]
    cases c.solution.costValue with
    | error e => exact ht
    | ok cost =>
      rw [Attempt.start_bind_ok (Attempt.start_lift _ _)]
      obtain ⟨-, hassess⟩ := start_assess f.current.solution c.solution.evaluated t
      rcases ha : (assess f.current.solution c.solution.evaluated).start t with ⟨_ | reason, u⟩
      all_goals
        rw [ha] at hassess
        have hu : u.trials = s.trials + 1 := by
          rcases hassess with h | h <;> rw [← ht] <;> exact congrArg (·.trials) h
      · rw [Attempt.start_bind_error ha]
        exact hu
      · rw [Attempt.start_bind_ok ha]
        by_cases haccepts : reason.accepts = true
        · rw [if_pos haccepts, Attempt.start_bind, start_take]
          cases c.solution.evaluated.isBetterThan f.best.solution <;> exact hu
        · rw [if_neg haccepts]
          exact hu

theorem trial_of_costless {s : Search α σ τ ρ} {m : Meeting α τ ρ} (hm : meeting? s = some m)
    {e : Fault} (he : m.candidate.solution.costValue = .error e) (b : Batch α) :
    ∃ source, (trial b).start s =
      (.error e, { s with source := source, trials := s.trials + 1 }) := by
  obtain ⟨c, source, hc, hcandidate, -⟩ := candidate_of_meeting hm
  rw [hcandidate, Solution.costValue_evaluated] at he
  rw [trial, Attempt.start_bind_ok (Attempt.start_get s), found_of_meeting hm]
  dsimp only
  rw [Attempt.start_bind, start_neighbor, hc]
  dsimp only [Except.map]
  rw [he, Attempt.start_bind_error (Attempt.start_lift _ _)]
  exact ⟨source, rfl⟩

theorem after_of_trial_ok {s t : Search α σ τ ρ} {f : Found α τ ρ} {b c : Batch α}
    (hf : s.progress.found? = some f) (ht : (trial b).start s = (.ok c, t)) :
    ∃ m source, meeting? s = some m ∧ m.found = f ∧
      t = { s with
        source := source, trials := s.trials + 1, progress := s.progress.holding m.after } := by
  obtain ⟨source, trials, hstate, -⟩ := start_trial_state b s
  have hcount := trials_trial hf b
  rw [ht] at hstate hcount
  dsimp only at hstate hcount
  rcases trial_answer ht with ⟨hnone, -⟩ | ⟨m, reason, cost, hm, -, -, -⟩
  · rw [hf] at hnone
    cases hnone
  · have hfound := found_of_meeting hm
    rw [hf, Option.some.injEq] at hfound
    refine ⟨m, source, hm, hfound.symm, ?_⟩
    rw [hstate] at hcount
    rw [hstate, progressAfter, hm, ← hcount]

theorem known_of_batch {n : Nat} {b : Batch α} {s : Search α σ τ ρ} {f : Found α τ ρ}
    (hf : s.progress.found? = some f) (hknown : f.Known) :
    ∀ m ∈ batchMeetings n b s, m.found.Known := by
  induction n generalizing b s f with
  | zero => simp [batchMeetings]
  | succ n ih =>
    intro m hm
    rcases mem_batchMeetings_succ.mp hm with hmet | ⟨c, t, ht, hm⟩
    · have hfound := found_of_meeting hmet
      rw [hf, Option.some.injEq] at hfound
      exact hfound ▸ hknown
    · obtain ⟨m₀, source, hmet, rfl, rfl⟩ := after_of_trial_ok hf ht
      exact ih (Progress.found?_holding hf _) (hknown.after hmet) m hm

/-- A batch ends with the first candidate that has no cost. What is held then is what the earlier
candidates have left: the solutions from before if none of them was taken, others if one was. -/
theorem batch_of_costless {n : Nat} {b : Batch α} {s : Search α σ τ ρ} {f : Found α τ ρ}
    (hf : s.progress.found? = some f) {m : Meeting α τ ρ} (hm : m ∈ batchMeetings n b s) {e : Fault}
    (he : m.candidate.solution.costValue = .error e) :
    ∃ earlier source trials, batchMeetings n b s = earlier ++ [m] ∧
      (batch n b).start s =
        (.error e, { s with
          source := source, trials := trials, progress := s.progress.holding m.found }) ∧
      m.found = f.afterAll earlier ∧
      ((∀ k ∈ earlier, k.isAccepted = false) ∧ m.found = f ∨
        (∃ k ∈ earlier, k.isAccepted = true) ∧ s.trials < m.found.current.trial) := by
  induction n generalizing b s f with
  | zero => exact absurd hm List.not_mem_nil
  | succ n ih =>
    rcases mem_batchMeetings_succ.mp hm with hmet | ⟨c, t, ht, hrest⟩
    · have hfound := found_of_meeting hmet
      obtain ⟨source, htrial⟩ := trial_of_costless hmet he b
      have hholding : s.progress.holding m.found = s.progress := Progress.holding_found hfound
      rw [hf, Option.some.injEq] at hfound
      refine ⟨[], source, s.trials + 1, ?_, ?_, hfound.symm, Or.inl ⟨by simp, hfound.symm⟩⟩
      · rw [batchMeetings, hmet, htrial]
        rfl
      · rw [batch, Attempt.start_bind_error htrial, hholding]
    · obtain ⟨m₀, source₀, hmet, rfl, rfl⟩ := after_of_trial_ok hf ht
      obtain ⟨earlier, source, trials, hms, hbatch, hafter, hheld⟩ :=
        ih (Progress.found?_holding hf _) hrest
      refine ⟨m₀ :: earlier, source, trials, ?_, ?_, ?_, ?_⟩
      · rw [batchMeetings, hmet, ht]
        simp only [hms]
        rfl
      · rw [batch, Attempt.start_bind_ok ht, hbatch]
        simp only [Progress.holding_holding]
      · rw [Found.afterAll_cons, hafter]
      · rcases hheld with ⟨hnone, hsame⟩ | ⟨⟨k, hk, htaken⟩, hlater⟩
        · cases haccepted : m₀.isAccepted with
          | false =>
            refine Or.inl ⟨List.forall_mem_cons.mpr ⟨haccepted, hnone⟩, ?_⟩
            rw [hsame, Meeting.after_of_not_accepted haccepted]
          | true =>
            obtain ⟨_, _, -, hcandidate, -⟩ := candidate_of_meeting hmet
            refine Or.inr ⟨⟨m₀, List.mem_cons_self, haccepted⟩, ?_⟩
            rw [hsame, Meeting.after_current_of_accepted haccepted, hcandidate]
            exact Nat.lt_succ_self _
        · refine Or.inr ⟨⟨k, List.mem_cons_of_mem _ hk, htaken⟩, ?_⟩
          exact (Nat.lt_succ_self _).trans hlater

theorem left_of_stuck {s : Search α σ τ ρ} {m : Meeting α τ ρ} (hm : meeting? s = some m) {e : Fault}
    (hstuck : m.found.IsStuck e) : m.isAccepted = false := by
  obtain ⟨e', he'⟩ : ∃ e', m.candidate.solution.isBetterThan m.found.current.solution = .error e' := by
    rw [Solution.isBetterThan, Solution.compare, hstuck.2]
    cases m.candidate.solution.costValue with
    | error e' => exact ⟨e', rfl⟩
    | ok x => exact ⟨e, rfl⟩
  have hverdict : m.verdict = .error e' := by
    rw [verdict_of_meeting hm, verdict, he']
    rfl
  rw [Meeting.isAccepted, hverdict]

/-- What is held has costs, unless the search has begun without one; and the current solution was
met in one of the trials so far. -/
def IsSound (s : Search α σ τ ρ) : Prop :=
  ∀ f, s.progress.found? = some f →
    f.current.trial ≤ s.trials ∧ (f.Known ∨ ∃ e, f.IsStuck e)

theorem IsSound.trial {s : Search α σ τ ρ} (h : s.IsSound) (b : Batch α) :
    ((trial b).start s).2.IsSound := by
  intro g hg
  obtain ⟨source, trials, ht, -⟩ := start_trial_state b s
  cases hf : s.progress.found? with
  | none =>
    rw [ht, progressAfter, meeting?_of_none hf] at hg
    rw [hf] at hg
    cases hg
  | some f =>
    obtain ⟨htrial, hheld⟩ := h f hf
    rw [trials_trial hf b]
    rw [ht, progressAfter] at hg
    dsimp only at hg
    cases hm : meeting? s with
    | none =>
      rw [hm, hf, Option.some.injEq] at hg
      exact hg ▸ ⟨htrial.trans (Nat.le_succ _), hheld⟩
    | some m =>
      have hfound := found_of_meeting hm
      rw [hm, Progress.found?_holding hfound, Option.some.injEq] at hg
      rw [hf, Option.some.injEq] at hfound
      subst hg hfound
      constructor
      · rcases m.after_current with hafter | hafter
        · obtain ⟨_, _, -, hcandidate, -⟩ := candidate_of_meeting hm
          rw [hafter, hcandidate]
        · rw [hafter]
          exact htrial.trans (Nat.le_succ _)
      · rcases hheld with hknown | ⟨e, hstuck⟩
        · exact Or.inl (hknown.after hm)
        · rw [Meeting.after_of_not_accepted (left_of_stuck hm hstuck)]
          exact Or.inr ⟨e, hstuck⟩

variable [Strategy α σ]

theorem kept_isSound :
    Kept fun (_ : List (Event α τ ρ)) (s : Search α σ τ ρ) => s.IsSound where
  fault h _ _ := h
  begin := by
    intro l s first source _ _ _ f hf
    cases hf
    refine ⟨Nat.zero_le _, ?_⟩
    cases hc : first.costValue with
    | ok c => exact Or.inl (known_firstFound ⟨c, hc⟩)
    | error e => exact Or.inr ⟨e, rfl, by rw [Solution.costValue_evaluated, hc]⟩
  trial b h := h.trial b
  count h := h
  age h _ := h
  told _ _ h _ := h
  finish := by
    intro l s h f hf
    rw [Progress.found?_finish] at hf
    exact h f hf
  time _ h := h

variable [Printed α] [ToString τ] [ToString ρ]

omit [Quantity α] [Acceptance α σ (Solution α τ ρ)] in
theorem start_of_costless {r : Running α σ τ ρ} (hfresh : r.1.progress = .fresh)
    {first : Solution α τ ρ} {source : Source α}
    (hfirst : (r.1.landscape.initial r.1.kept).start r.1.source = (.ok first, source)) {e : Fault}
    (he : first.costValue = .error e) :
    start.start r = (.error e, ({ r.1 with
      source := source
      kept := some first
      progress := .searching ⟨⟨0, first⟩, ⟨0, first⟩⟩ }, r.2)) := by
  rw [start, Attempt.start_bind_ok (Attempt.start_get r), hfresh]
  dsimp only
  rw [Attempt.start_bind, start_onSearch, begin_of_ok hfirst, he, Solution.evaluated_of_error he]
  rfl

theorem step_of_stuck {r : Running α σ τ ρ} {f : Found α τ ρ} (hf : r.1.progress = .searching f)
    {e : Fault} (he : f.current.solution.costValue = .error e) :
    (step.start r).1 = .error e ∧ (step.start r).2.1 = r.1 := by
  rw [step_of_searching hf, advance, he, Attempt.start_bind_error (Attempt.start_lift _ _)]
  exact ⟨rfl, rfl⟩

theorem exists_batch_of_mem {r : Running α σ τ ρ} {f : Found α τ ρ}
    (hf : r.1.progress = .searching f) {m : Meeting α τ ρ} (hm : m ∈ metIn (stepLog r)) :
    ∃ before count, f.current.solution.costValue = .ok before ∧
      rounds r.1.searches = .ok count ∧
        metIn (stepLog r) = batchMeetings count ⟨false, .untried, before⟩ r.1 := by
  rw [metIn_stepLog hf, turnMeetings] at hm ⊢
  cases hbefore : f.current.solution.costValue with
  | error e => simp [hbefore] at hm
  | ok before =>
    cases hrounds : rounds r.1.searches with
    | error e => simp [hbefore, hrounds] at hm
    | ok count => exact ⟨before, count, rfl, rfl, rfl⟩

theorem step_of_costless {r : Running α σ τ ρ} {f : Found α τ ρ}
    (hf : r.1.progress = .searching f) {m : Meeting α τ ρ} (hm : m ∈ metIn (stepLog r)) {e : Fault}
    (he : m.candidate.solution.costValue = .error e) :
    ∃ earlier source trials, metIn (stepLog r) = earlier ++ [m] ∧
      (step.start r).1 = .error e ∧
      (step.start r).2.1 =
        { r.1 with source := source, trials := trials, progress := .searching m.found } ∧
      m.found = f.afterAll earlier ∧
      ((∀ k ∈ earlier, k.isAccepted = false) ∧ m.found = f ∨
        (∃ k ∈ earlier, k.isAccepted = true) ∧ r.1.trials < m.found.current.trial) := by
  have hfound : r.1.progress.found? = some f := by rw [hf]; rfl
  obtain ⟨before, count, hbefore, hrounds, hmet⟩ := exists_batch_of_mem hf hm
  rw [hmet] at hm
  obtain ⟨earlier, source, trials, hms, hbatch, hafter, hheld⟩ := batch_of_costless hfound hm he
  have hadvance : (advance f).start r.1 = (.error e, { r.1 with
      source := source, trials := trials, progress := r.1.progress.holding m.found }) := by
    rw [advance, hbefore, Attempt.start_bind_ok (Attempt.start_lift _ _),
      Attempt.start_bind_ok (Attempt.start_get _), hrounds,
      Attempt.start_bind_ok (Attempt.start_lift _ _), Attempt.start_bind_error hbatch]
  refine ⟨earlier, source, trials, hmet.trans hms, ?_, ?_, hafter, hheld⟩
  · rw [step_of_searching hf, hadvance]
  · rw [step_of_searching hf, hadvance, hf]
    rfl

/-- Where candidates keep costs but for excused faults, the candidates of a step are without one only
for those faults if the current solution has one. -/
theorem failsOnly_of_keepsCosts {excused : Fault → Prop} {calls : List Call} {r : Running α σ τ ρ}
    (hfresh : r.1.progress = .fresh) (hkept : r.1.kept = none)
    (hcosts : r.1.landscape.KeepsCosts excused) {f : Found α τ ρ}
    (hf : (Call.after calls r).1.progress = .searching f) (hknown : f.Known) :
    ∀ m ∈ metIn (stepLog (Call.after calls r)),
      FailsOnly excused m.candidate.solution.costValue := by
  intro m hm
  obtain ⟨I, hconfines⟩ := hcosts
  have hconfined := confined_of_landscape (calls ++ [.step]) hconfines hfresh hkept
  have hlog : m ∈ metIn (Call.logs (calls ++ [.step]) r) := by
    rw [Call.logs_append, mem_metIn_append]
    refine Or.inr ?_
    simpa only [Call.logs, Call.log, List.append_nil] using hm
  obtain ⟨before, count, -, -, hmet⟩ := exists_batch_of_mem hf hm
  rw [hmet] at hm
  exact (hconfined.log m hlog).related
    (known_of_batch (by rw [hf]; rfl) hknown m hm).current

end Search

variable [Strategy α σ] [Printed α] [ToString τ] [ToString ρ]

/-- What calls leave behind that fail as a cost cannot be computed. A search that cannot compute its
first cost is under way with that solution, and to begin it again does nothing and is answered. A step
of it leaves it as it is. A step that meets a candidate without a cost keeps the stage, the strategy
and the count of steps, and holds what its earlier candidates have left: the solutions from before
exactly if none of them was taken. Where resources are exchanged and what is spare is charged there are
no such candidates; where its square is charged there are only those with a square out of range. -/
theorem failures_leave_moves_standing [BEq ρ] [LawfulBEq ρ] [Key ρ] (calls : List Call)
    {r₀ r : Running α σ τ ρ} (hfresh : r₀.1.progress = .fresh) (hr : Call.after calls r₀ = r) :
    (∀ f, r.1.progress.found? = some f →
      Search.start.start r = (.ok (), r) ∧ (f.Known ∨ ∃ e, f.IsStuck e)) ∧
    (∀ first source e, r.1.progress = .fresh →
      (r.1.landscape.initial r.1.kept).start r.1.source = (.ok first, source) →
        first.costValue = .error e →
          ∃ t, Search.start.start r = (.error e, t) ∧
            t = ({ r.1 with
              source := source
              kept := some first
              progress := .searching ⟨⟨0, first⟩, ⟨0, first⟩⟩ }, r.2) ∧
            Search.start.start t = (.ok (), t)) ∧
    (∀ f e, r.1.progress = .searching f → f.current.solution.costValue = .error e →
      (Search.step.start r).1 = .error e ∧ (Search.step.start r).2.1 = r.1) ∧
    (∀ f m e, r.1.progress = .searching f → m ∈ metIn (Search.stepLog r) →
      m.candidate.solution.costValue = .error e →
        ∃ earlier source trials, metIn (Search.stepLog r) = earlier ++ [m] ∧
          (Search.step.start r).1 = .error e ∧
          (Search.step.start r).2.1 =
            { r.1 with source := source, trials := trials, progress := .searching m.found } ∧
          m.found = f.afterAll earlier ∧
          (m.found = f ↔ ∀ k ∈ earlier, k.isAccepted = false)) ∧
    (∀ excused, r₀.1.landscape.KeepsCosts excused → r₀.1.kept = none →
      ∀ f, r.1.progress = .searching f → f.Known →
        ∀ m ∈ metIn (Search.stepLog r), FailsOnly excused m.candidate.solution.costValue) ∧
    (∀ name (demand : τ → Except Fault α) (capacity : ρ → Except Fault α) (m : Mapping τ ρ),
      (Landscape.exchanging (.of (.spare name demand capacity) m)).KeepsCosts (fun _ => False) ∧
        (Landscape.exchanging (.of (.squared name demand capacity) m)).KeepsCosts
          (· = .squareTooLarge)) ∧
    ∀ vms hosts,
      (Placement.landscape vms hosts : Landscape Float (Vm Int) (Host Int)).KeepsCosts
        fun _ => False := by
  have hsound : r.1.IsSound := by
    rw [← hr]
    refine Search.kept_isSound.run calls fun f hf => ?_
    rw [hfresh] at hf
    cases hf
  refine ⟨fun f hf => ⟨Search.start_of_found hf, (hsound f hf).2⟩, ?_,
    fun f e hf he => Search.step_of_stuck hf he, ?_, ?_,
    fun name demand capacity m =>
      ⟨Landscape.keepsCosts_exchanging (CostModel.rearrangeable_spare name) m,
        Landscape.keepsCosts_exchanging (CostModel.rearrangeable_squared name) m⟩,
    fun vms hosts => Placement.keepsCosts_landscape vms hosts⟩
  · intro first source e hf hfirst he
    exact ⟨_, Search.start_of_costless hf hfirst he, rfl, Search.start_of_found rfl⟩
  · intro f m e hf hm he
    obtain ⟨htrial, -⟩ := hsound f (by rw [hf]; rfl)
    obtain ⟨earlier, source, trials, hms, hanswer, hstate, hafter, hheld⟩ :=
      Search.step_of_costless hf hm he
    refine ⟨earlier, source, trials, hms, hanswer, hstate, hafter, ?_⟩
    rcases hheld with ⟨hnone, hsame⟩ | ⟨⟨k, hk, htaken⟩, hlater⟩
    · exact iff_of_true hsame hnone
    · refine iff_of_false (fun hsame => ?_) fun hnone => ?_
      · rw [hsame] at hlater
        omega
      · rw [hnone k hk] at htaken
        cases htaken
  · intro excused hcosts hkept f hf hknown
    subst hr
    exact Search.failsOnly_of_keepsCosts hfresh hkept hcosts hf hknown

/-- A search under gravity that makes two trials in a step, among candidates with listed costs. -/
def pairedSearch (costs : List (Except Fault Float)) : Running Float (Plan Float) Nat Int :=
  (.fresh (.gravity ⟨⟨0, 4⟩⟩) (.listed "Listed" costs) (.repeating [.real 0.5]) (.int 2) none,
    ⟨0, 0, .empty, []⟩)

/-- A first solution without a cost, and a step whose second candidate is without one: the first
candidate, which is better, stays the current solution. -/
theorem failures_leave_moves_standing_paired :
    (∃ t, Search.start.start (pairedSearch [.error .intTooLarge]) = (.error .intTooLarge, t) ∧
      t.1.progress.stage = .searching ∧ Search.start.start t = (.ok (), t)) ∧
    let r := Call.after [.start] (pairedSearch [.ok 5, .ok 3, .error .intTooLarge])
    (Search.step.start r).2.1.progress.found?.map (·.current.trial) = some 1 ∧
      ∀ f m e, r.1.progress = .searching f → m ∈ metIn (Search.stepLog r) →
        m.candidate.solution.costValue = .error e →
          (Search.step.start r).1 = .error e ∧ m.found ≠ f := by
  have hone : (pairedSearch [.error .intTooLarge]).1.progress = .fresh := rfl
  have hthree : (pairedSearch [.ok 5, .ok 3, .error .intTooLarge]).1.progress = .fresh := rfl
  refine ⟨?_, by decide +kernel, fun f m e hf hm he => ?_⟩
  · obtain ⟨-, hstart, -⟩ := failures_leave_moves_standing [] hone rfl
    obtain ⟨t, hanswer, rfl, hagain⟩ := hstart _ _ .intTooLarge rfl rfl rfl
    exact ⟨_, hanswer, rfl, hagain⟩
  · obtain ⟨-, -, -, hstep, -⟩ := failures_leave_moves_standing [.start] hthree rfl
    obtain ⟨earlier, source, trials, hms, hanswer, -, -, hsame⟩ := hstep f m e hf hm he
    refine ⟨hanswer, fun hfound => ?_⟩
    have htaken : (metIn (Search.stepLog (Call.after [.start]
        (pairedSearch [.ok 5, .ok 3, .error .intTooLarge])))).map (·.isAccepted) =
          [true] ++ [false] := by decide +kernel
    rw [hms, List.map_append] at htaken
    have hearlier : true ∈ earlier.map (·.isAccepted) := by
      rw [(List.append_inj' htaken rfl).1]
      exact List.mem_singleton_self true
    obtain ⟨k, hk, hkept⟩ := List.mem_map.mp hearlier
    rw [hsame.mp hfound k hk] at hkept
    cases hkept

end AssignmentSearch
