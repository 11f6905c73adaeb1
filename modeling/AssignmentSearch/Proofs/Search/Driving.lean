import AssignmentSearch.Proofs.Search.Steps

/-!
# Driving a search by hand

Whoever begins a search, makes some of its steps and asks for its state before running it to its end
gets where the run alone would get. The questions compute nothing that is not known already.
-/

namespace AssignmentSearch

variable {α σ τ ρ : Type} [Quantity α] [Strategy α σ] [Acceptance α σ (Solution α τ ρ)]

/-- What is asked of a search before it is run to its end. -/
inductive Ask where
  | start
  | step
  | snapshot
  | bestCost
  deriving DecidableEq, Repr

structure Found.Evaluated (f : Found α τ ρ) : Prop where
  current : f.current.solution.evaluated = f.current.solution
  best : f.best.solution.evaluated = f.best.solution

theorem kept_evaluated :
    Kept fun (_ : List (Event α τ ρ)) (s : Search α σ τ ρ) =>
      ∀ f, s.progress.found? = some f → f.Evaluated where
  fault h _ _ := h
  begin := by
    intro l s first source _ _ _ f hf
    cases hf
    exact ⟨first.evaluated_evaluated, first.evaluated_evaluated⟩
  trial := by
    intro l s b h
    obtain ⟨source, trials, ht, -⟩ := Search.start_trial_state b s
    rw [ht, Search.progressAfter]
    cases hm : Search.meeting? s with
    | none => exact h
    | some m =>
      have hfound := Search.found_of_meeting hm
      have hheld := h m.found hfound
      obtain ⟨c, _, -, hcandidate, -⟩ := Search.candidate_of_meeting hm
      have hmet : m.candidate.solution.evaluated = m.candidate.solution := by
        rw [hcandidate, Solution.evaluated_evaluated]
      intro f hf
      dsimp only at hf
      rw [Progress.found?_holding hfound, Option.some_inj] at hf
      rw [← hf]
      constructor
      · rcases m.after_current with hafter | hafter
        · rw [hafter]
          exact hmet
        · rw [hafter]
          exact hheld.current
      · rcases m.after_best with hafter | hafter
        · rw [hafter]
          exact hmet
        · rw [hafter]
          exact hheld.best
  count h := h
  age h _ := h
  told _ _ h _ := h
  finish := by
    intro l s h
    rw [Progress.found?_finish]
    exact h
  time _ h := h

variable [Printed α] [ToString τ] [ToString ρ]

namespace Ask

def run : Ask → Attempt (Running α σ τ ρ) Unit
  | start => Search.start
  | step => do let _ ← Search.step
  | snapshot => do let _ ← Attempt.lift (← get).1.snapshot
  | bestCost => do let _ ← Attempt.lift (← get).1.bestCost?

def after : List Ask → Running α σ τ ρ → Running α σ τ ρ
  | [], r => r
  | q :: rest, r => after rest (q.run.start r).2

def Passes : Ask → Running α σ τ ρ → Prop
  | start, r => (Search.start.start r).1 = .ok ()
  | step, r => (∃ o, (Search.step.start r).1 = .ok o) ∨
      ∃ t, Search.start.start r = (.ok (), t) ∧ t.1.progress.stage = .terminated
  | snapshot, _ | bestCost, _ => True

def AllPass : List Ask → Running α σ τ ρ → Prop
  | [], _ => True
  | q :: rest, r => q.Passes r ∧ AllPass rest (q.run.start r).2

def made (asks : List Ask) (r : Running α σ τ ρ) : Nat := (after asks r).1.steps - r.1.steps

end Ask

namespace Search

theorem solve_of_start {r t : Running α σ τ ρ} (h : start.start r = (.ok (), t)) (limit : Nat) :
    (solve limit).start r = (solve limit).start t := by
  obtain ⟨f, hf⟩ := found_of_start_ok h
  rw [solve, Attempt.start_bind_ok h, Attempt.start_bind_ok (start_of_found hf)]

theorem solve_of_start_error {r t : Running α σ τ ρ} {e : Fault}
    (h : start.start r = (.error e, t)) (limit : Nat) : (solve limit).start r = (.error e, t) := by
  rw [solve, Attempt.start_bind_error h]

theorem solve_of_step {r t : Running α σ τ ρ} {o : Outcome α} (h : step.start r = (.ok o, t))
    (limit : Nat) : (solve (limit + 1)).start r = (solve limit).start t := by
  obtain ⟨u, f, hstart, hf, hstep⟩ := searching_of_step_ok h
  obtain ⟨g, hg⟩ := found_of_step_ok h
  have hstage : u.1.progress.stage = .searching := by rw [hf]; rfl
  have hdrive : (drive (limit + 1)).start u = (drive limit).start t := by
    rw [drive, Attempt.start_bind_ok (Attempt.start_get u), if_pos hstage,
      Attempt.start_bind_ok hstep]
  rw [solve, solve, Attempt.start_bind_ok hstart, Attempt.start_bind_ok (start_of_found hg),
    Attempt.start_bind, Attempt.start_bind, hdrive]

theorem solve_of_step_error {r u t : Running α σ τ ρ} {f : Found α τ ρ} {e : Fault}
    (hstart : start.start r = (.ok (), u)) (hf : u.1.progress = .searching f)
    (h : step.start u = (.error e, t)) (limit : Nat) :
    (solve (limit + 1)).start r = (.error e, t) := by
  have hstage : u.1.progress.stage = .searching := by rw [hf]; rfl
  have hdrive : (drive (limit + 1)).start u = (.error e, t) := by
    rw [drive, Attempt.start_bind_ok (Attempt.start_get u), if_pos hstage,
      Attempt.start_bind_error h]
  rw [solve, Attempt.start_bind_ok hstart, Attempt.start_bind_error hdrive]

theorem steps_of_step_ok {r t : Running α σ τ ρ} {o : Outcome α} (h : step.start r = (.ok o, t)) :
    t.1.steps = r.1.steps + 1 := by
  obtain ⟨u, f, hstart, hf, hstep⟩ := searching_of_step_ok h
  obtain ⟨source, trials, g, a, time, -, -, -, -, ht, -⟩ := step_ok hf hstep
  rw [ht, ← (start_ok_keeps hstart).2]

theorem drive_succ {n : Nat} {r t : Running α σ τ ρ} (h : (drive n).start r = (.ok true, t)) :
    (drive (n + 1)).start r = (.ok true, t) := by
  induction n generalizing r with
  | zero =>
    rw [drive, Attempt.start_bind_ok (Attempt.start_get r), Attempt.start_pure, Prod.mk.injEq] at h
    obtain ⟨hover, rfl⟩ := h
    exact drive_of_terminated 1 (of_decide_eq_true (Except.ok.inj hover))
  | succ n ih =>
    rw [drive, Attempt.start_bind_ok (Attempt.start_get r)] at h ⊢
    by_cases hs : r.1.progress.stage = .searching
    · rw [if_pos hs] at h ⊢
      obtain ⟨o, u, hstep, h⟩ := Attempt.exists_of_start_bind h
      rw [Attempt.start_bind_ok hstep]
      exact ih h
    · rw [if_neg hs] at h ⊢
      exact h

theorem solve_succ {limit : Nat} {r t : Running α σ τ ρ} {best : Solution α τ ρ}
    (h : (solve limit).start r = (.ok (some best), t)) :
    (solve (limit + 1)).start r = (.ok (some best), t) := by
  rw [solve] at h ⊢
  obtain ⟨_, u, hstart, h⟩ := Attempt.exists_of_start_bind h
  obtain ⟨isOver, v, hdrive, h⟩ := Attempt.exists_of_start_bind h
  cases isOver with
  | false => cases h
  | true => rw [Attempt.start_bind_ok hstart, Attempt.start_bind_ok (drive_succ hdrive), h]

theorem solve_zero {r u t : Running α σ τ ρ} {f : Found α τ ρ} {best : Solution α τ ρ}
    (hstart : start.start r = (.ok (), u)) (hf : u.1.progress = .searching f) :
    (solve 0).start r ≠ (.ok (some best), t) := by
  have hdrive : (drive 0).start u = (.ok false, u) := by
    rw [drive, Attempt.start_bind_ok (Attempt.start_get u), hf]
    rfl
  rw [solve, Attempt.start_bind_ok hstart, Attempt.start_bind_ok hdrive]
  intro h
  cases h

end Search

namespace Search

/-- Several steps of which the last one, and no other, reports that the search is over. -/
inductive Strides : Nat → Running α σ τ ρ → Outcome α → Running α σ τ ρ → Prop
  | last {r t : Running α σ τ ρ} {o : Outcome α} (step : Search.step.start r = (.ok o, t))
      (done : o.done = true) : Strides 1 r o t
  | next {n : Nat} {r s t : Running α σ τ ρ} {o ending : Outcome α}
      (step : Search.step.start r = (.ok o, s)) (more : o.done = false)
      (rest : Strides n s ending t) : Strides (n + 1) r ending t

theorem reports_of_step_ok {r t : Running α σ τ ρ} {o : Outcome α}
    (h : step.start r = (.ok o, t)) :
    ∃ f, t.1.progress = progressOf o.done f ∧ f.best.solution.costValue = .ok o.bestCost := by
  obtain ⟨u, f, -, hf, hstep⟩ := searching_of_step_ok h
  rw [step_of_searching hf] at hstep
  rcases hx : (advance f).start u.1 with ⟨a, s⟩
  rw [hx] at hstep
  cases a with
  | error e => cases hstep
  | ok o' =>
    obtain ⟨rfl, time, ht⟩ := conclude_ok hstep
    obtain ⟨source, a, ⟨_, _, g, rfl, -⟩, -, -, -, rfl⟩ := advance_ok hf hx
    obtain ⟨k, hk, hreport⟩ := (advance_answer hf hx).report
    cases hk
    exact ⟨g, by rw [ht]; rfl, hreport.bestCost⟩

theorem Strides.finished {n : Nat} {r t : Running α σ τ ρ} {o : Outcome α}
    (h : Strides n r o t) :
    ∃ f, t.1.progress = .finished f ∧ f.best.solution.costValue = .ok o.bestCost := by
  induction h with
  | last step done =>
    obtain ⟨f, hf, hcost⟩ := reports_of_step_ok step
    rw [done] at hf
    exact ⟨f, hf, hcost⟩
  | next step more rest ih => exact ih

theorem Strides.pos {n : Nat} {r t : Running α σ τ ρ} {o : Outcome α} (h : Strides n r o t) :
    0 < n := by
  cases h <;> omega

theorem solve_of_finished {r : Running α σ τ ρ} {f : Found α τ ρ}
    (h : r.1.progress = .finished f) (limit : Nat) :
    (solve limit).start r = (.ok (some f.best.solution), r) := by
  have hover : r.1.progress.stage = .terminated := by rw [h]; rfl
  rw [solve, Attempt.start_bind_ok (start_of_found (f := f) (by rw [h]; rfl)),
    Attempt.start_bind_ok (drive_of_terminated limit hover), if_pos rfl,
    Attempt.start_bind_ok (Attempt.start_get r), h]
  rfl

theorem Strides.solve {n : Nat} {r t : Running α σ τ ρ} {o : Outcome α} {f : Found α τ ρ}
    (h : Strides n r o t) (hf : t.1.progress = .finished f) :
    (Search.solve n).start r = (.ok (some f.best.solution), t) := by
  induction h with
  | last step done => rw [solve_of_step step, solve_of_finished hf]
  | next step more rest ih => rw [solve_of_step step, ih hf]

theorem strides_of_solve {limit : Nat} {r t : Running α σ τ ρ} {f : Found α τ ρ}
    {best : Solution α τ ρ} (hf : r.1.progress = .searching f)
    (h : (solve limit).start r = (.ok (some best), t)) : ∃ n o, Strides n r o t := by
  have hstart : start.start r = (.ok (), r) := start_of_found (f := f) (by rw [hf]; rfl)
  induction limit generalizing r f with
  | zero => exact absurd h (solve_zero hstart hf)
  | succ limit ih =>
    rcases hstep : step.start r with ⟨a, u⟩
    cases a with
    | error e =>
      rw [solve_of_step_error hstart hf hstep] at h
      cases h
    | ok o =>
      rw [solve_of_step hstep] at h
      obtain ⟨g, hg, -⟩ := reports_of_step_ok hstep
      cases hdone : o.done with
      | true =>
        rw [hdone] at hg
        rw [solve_of_finished hg] at h
        cases h
        exact ⟨1, o, .last hstep hdone⟩
      | false =>
        rw [hdone] at hg
        obtain ⟨n, o', hrest⟩ := ih hg h (start_of_found (f := g) (by rw [hg]; rfl))
        exact ⟨n + 1, o', .next hstep hdone hrest⟩

end Search

namespace Ask

/-- What is asked of a search by how it changes the search. -/
inductive Passed (r : Running α σ τ ρ) : Ask → Running α σ τ ρ → Prop
  | begun {q : Ask} {t : Running α σ τ ρ} (begun : Search.start.start r = (.ok (), t)) :
      Passed r q t
  | stepped {o : Outcome α} {t : Running α σ τ ρ} (stepped : Search.step.start r = (.ok o, t)) :
      Passed r step t
  | told {q : Ask} : Passed r q r

theorem Passes.passed {q : Ask} {r : Running α σ τ ρ} (h : q.Passes r) :
    Passed r q (q.run.start r).2 := by
  cases q with
  | start => exact .begun (Prod.ext h rfl)
  | step =>
    rcases h with ⟨o, ho⟩ | ⟨t, hstart, hover⟩
    · have hstep : Search.step.start r = (.ok o, (Search.step.start r).2) := Prod.ext ho rfl
      rw [run, Attempt.start_bind_ok hstep]
      exact .stepped hstep
    · obtain ⟨f, hf⟩ := Progress.finished_of_stage hover
      have hstep : Search.step.start r = (.error .terminated, t) := by
        rw [(Search.step_of_start hstart (f := f) (by rw [hf]; rfl)).1]
        exact (Search.step_of_finished hf).1
      rw [run, Attempt.start_bind_error hstep]
      exact .begun hstart
  | snapshot =>
    rw [run, Attempt.start_bind_ok (Attempt.start_get r), Attempt.start_bind, Attempt.start_lift]
    cases r.1.snapshot <;> exact .told
  | bestCost =>
    rw [run, Attempt.start_bind_ok (Attempt.start_get r), Attempt.start_bind, Attempt.start_lift]
    cases r.1.bestCost? <;> exact .told

theorem Passed.solve {q : Ask} {r t : Running α σ τ ρ} (h : Passed r q t) :
    ∃ n, t.1.steps = r.1.steps + n ∧
      ∀ limit, (Search.solve limit).start t = (Search.solve (limit + n)).start r := by
  cases h with
  | begun hstart =>
    exact ⟨0, (Search.start_ok_keeps hstart).2, fun limit => (Search.solve_of_start hstart limit).symm⟩
  | stepped hstep =>
    exact ⟨1, Search.steps_of_step_ok hstep, fun limit => (Search.solve_of_step hstep limit).symm⟩
  | told => exact ⟨0, rfl, fun _ => rfl⟩

theorem AllPass.solve {asks : List Ask} {r : Running α σ τ ρ} (h : AllPass asks r) (limit : Nat) :
    r.1.steps ≤ (after asks r).1.steps ∧
      (Search.solve limit).start (after asks r) =
        (Search.solve (limit + made asks r)).start r := by
  induction asks generalizing r with
  | nil =>
    refine ⟨Nat.le_refl _, ?_⟩
    rw [made, after, Nat.sub_self]
    rfl
  | cons q rest ih =>
    obtain ⟨hq, hrest⟩ := h
    obtain ⟨n, hsteps, hsolve⟩ := hq.passed.solve
    obtain ⟨hle, hrun⟩ := ih hrest
    have hmade : made (q :: rest) r = made rest (q.run.start r).2 + n := by
      rw [made, made, after]
      omega
    rw [after]
    refine ⟨by omega, ?_⟩
    rw [hrun, hsolve, hmade, Nat.add_assoc]

/-- Whatever is asked of a search that comes to its end passes and leaves that end as it is. -/
theorem passes_of_solve {q : Ask} {r t : Running α σ τ ρ} {limit : Nat} {best : Solution α τ ρ}
    (h : (Search.solve limit).start r = (.ok (some best), t)) :
    q.Passes r ∧ (Search.solve limit).start (q.run.start r).2 = (.ok (some best), t) := by
  rcases hstart : Search.start.start r with ⟨a, u⟩
  cases a with
  | error e =>
    rw [Search.solve_of_start_error hstart] at h
    cases h
  | ok _ =>
    have hpasses : q.Passes r := by
      cases q with
      | start => rw [Passes, hstart]
      | step =>
        cases hp : u.1.progress with
        | fresh =>
          obtain ⟨f, hf⟩ := Search.found_of_start_ok hstart
          rw [hp] at hf
          cases hf
        | finished f => exact Or.inr ⟨u, hstart, by rw [hp]; rfl⟩
        | searching f =>
          -- A step that fails here would be the run's own next step, and the run does not fail.
          cases limit with
          | zero => exact absurd h (Search.solve_zero hstart hp)
          | succ n =>
            rcases hstep : Search.step.start u with ⟨b, v⟩
            cases b with
            | error e =>
              rw [Search.solve_of_step_error hstart hp hstep] at h
              cases h
            | ok o =>
              refine Or.inl ⟨o, ?_⟩
              rw [(Search.step_of_start hstart (f := f) (by rw [hp]; rfl)).1, hstep]
      | snapshot => trivial
      | bestCost => trivial
    refine ⟨hpasses, ?_⟩
    obtain ⟨n, -, hsolve⟩ := hpasses.passed.solve
    rw [hsolve]
    clear hsolve
    induction n with
    | zero => exact h
    | succ n ih => exact Search.solve_succ ih

/-- What does not pass fails as the run does, and leaves the search where the run leaves it. -/
theorem solve_of_not_passes {q : Ask} {r : Running α σ τ ρ} (h : ¬ q.Passes r) :
    ∃ e, (q.run.start r).1 = .error e ∧
      ∀ limit, (Search.solve (limit + 1)).start r = (.error e, (q.run.start r).2) := by
  rcases hstart : Search.start.start r with ⟨a, u⟩
  cases q with
  | start =>
    cases a with
    | ok _ => exact absurd (by rw [Passes, hstart]) h
    | error e =>
      rw [run, hstart]
      exact ⟨e, rfl, fun limit => Search.solve_of_start_error hstart (limit + 1)⟩
  | step =>
    cases a with
    | error e =>
      rw [run, Attempt.start_bind_error (Search.step_of_start_error hstart).1]
      exact ⟨e, rfl, fun limit => Search.solve_of_start_error hstart (limit + 1)⟩
    | ok _ =>
      obtain ⟨f, hf⟩ := Search.found_of_start_ok hstart
      have hsame := (Search.step_of_start hstart hf).1
      cases hp : u.1.progress with
      | fresh =>
        rw [hp] at hf
        cases hf
      | finished g => exact absurd (Or.inr ⟨u, hstart, by rw [hp]; rfl⟩) h
      | searching g =>
        rcases hstep : Search.step.start u with ⟨b, v⟩
        rw [hstep] at hsame
        cases b with
        | ok o => exact absurd (Or.inl ⟨o, by rw [hsame]⟩) h
        | error e =>
          rw [run, Attempt.start_bind_error hsame]
          exact ⟨e, rfl, Search.solve_of_step_error hstart hp hstep⟩
  | snapshot => exact absurd trivial h
  | bestCost => exact absurd trivial h

theorem keep_after {P : Search α σ τ ρ → Prop}
    (hP : Kept fun (_ : List (Event α τ ρ)) (s : Search α σ τ ρ) => P s) (asks : List Ask)
    {r : Running α σ τ ρ} (h : P r.1) : P (after asks r).1 := by
  induction asks generalizing r with
  | nil => exact h
  | cons q rest ih =>
    refine ih ?_
    cases q with
    | start => exact hP.start (l := []) h
    | step =>
      have hstep := hP.step (l := []) h
      rw [run, Attempt.start_bind]
      rcases hx : Search.step.start r with ⟨a, t⟩
      rw [hx] at hstep
      cases a <;> exact hstep
    | snapshot =>
      rw [run, Attempt.start_bind_ok (Attempt.start_get r), Attempt.start_bind, Attempt.start_lift]
      cases r.1.snapshot <;> exact h
    | bestCost =>
      rw [run, Attempt.start_bind_ok (Attempt.start_get r), Attempt.start_bind, Attempt.start_lift]
      cases r.1.bestCost? <;> exact h

end Ask

/-- How a run after some asking compares with the run alone: under a limit that is less by the steps
made they are the same; a run that comes to its end is not disturbed; what does not pass is a fault
that the run has too. The costs that a question needs are in the caches already. -/
structure AgreesWithRun (asks : List Ask) (r : Running α σ τ ρ) : Prop where
  passed : Ask.AllPass asks r → ∀ limit, (Search.solve limit).start (Ask.after asks r) =
    (Search.solve (limit + Ask.made asks r)).start r
  ended : ∀ limit best t, (Search.solve limit).start r = (.ok (some best), t) →
    Ask.AllPass asks r ∧ (Search.solve limit).start (Ask.after asks r) = (.ok (some best), t)
  failed : ∀ q : Ask, Ask.AllPass asks r → ¬ q.Passes (Ask.after asks r) →
    ∃ e, (q.run.start (Ask.after asks r)).1 = .error e ∧
      ∀ limit, (Search.solve (limit + 1 + Ask.made asks r)).start r =
        (.error e, (q.run.start (Ask.after asks r)).2)
  cached : r.1.progress = .fresh →
    ∀ f, (Ask.after asks r).1.progress.found? = some f → f.Evaluated

theorem agreesWithRun (asks : List Ask) (r : Running α σ τ ρ) : AgreesWithRun asks r where
  passed h limit := (h.solve limit).2
  ended := by
    intro limit best t h
    induction asks generalizing r with
    | nil => exact ⟨trivial, h⟩
    | cons q rest ih =>
      obtain ⟨hq, hnext⟩ := Ask.passes_of_solve (q := q) h
      obtain ⟨hrest, hend⟩ := ih _ hnext
      exact ⟨⟨hq, hrest⟩, hend⟩
  failed := by
    intro q hpass hnot
    obtain ⟨e, hfault, hrun⟩ := Ask.solve_of_not_passes hnot
    refine ⟨e, hfault, fun limit => ?_⟩
    rw [← (hpass.solve (limit + 1)).2, hrun limit]
  cached hfresh := Ask.keep_after kept_evaluated asks fun f hf => by
    rw [hfresh] at hf
    cases hf

end AssignmentSearch
