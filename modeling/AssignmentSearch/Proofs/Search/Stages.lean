import AssignmentSearch.Proofs.Search.Steps
import AssignmentSearch.Proofs.Strategy.Schedules

/-!
# The stages of a search

A search under a strategy that keeps to a schedule goes from one stage to the next and never back.
Its count of steps is the age of the strategy and the number of outcomes told, and the schedule at
that count decides whether it is over.
-/

namespace AssignmentSearch

variable {α σ τ ρ β γ : Type}

/-- The place of a stage in the course of a search. -/
def Stage.depth : Stage → Nat
  | uninitialized => 0
  | searching => 1
  | terminated => 2

theorem one_le_depth {p : Progress α τ ρ} {f : Found α τ ρ} (h : p.found? = some f) :
    1 ≤ p.stage.depth := by
  cases p with
  | fresh => cases h
  | searching g => exact Nat.le_refl 1
  | finished g => exact Nat.le_succ 1

section
variable [Quantity α] [Strategy α σ] [Acceptance α σ (Solution α τ ρ)]

theorem kept_depth (n : Nat) :
    Kept fun (_ : List (Event α τ ρ)) (s : Search α σ τ ρ) => n ≤ s.progress.stage.depth where
  fault h _ _ := h
  begin := by
    intro l s first source h hfresh _
    rw [hfresh] at h
    exact Nat.le_trans h (Nat.zero_le 1)
  trial := by
    intro l s b h
    obtain ⟨source, trials, ht, -⟩ := Search.start_trial_state b s
    rw [ht, Search.progressAfter]
    cases Search.meeting? s with
    | none => exact h
    | some m =>
      revert h
      cases s.progress <;> exact id
  count h := h
  age h _ := h
  told _ _ h _ := h
  finish := by
    intro l s h
    revert h
    cases s.progress with
    | fresh => exact id
    | searching f => exact fun h => Nat.le_trans h (Nat.le_succ 1)
    | finished f => exact id
  time _ h := h

end

namespace Search

/-- An answer that is no fault of a record. -/
def Recorded (answer : Except Fault β) : Prop := ∀ e, answer = .error e → ¬ e.OfRecord

theorem Recorded.of_bind {θ : Type} {x : Attempt θ β} {f : β → Attempt θ γ} {s : θ}
    (h : Recorded ((x >>= f).start s).1) : Recorded (x.start s).1 :=
  fun e he => h e (Attempt.error_of_bind he)

/-- If the search is about to begin, the cost of its first solution is known. -/
def FirstKnown (s : Search α σ τ ρ) : Prop :=
  s.progress = .fresh → ∀ first source,
    (s.landscape.initial s.kept).start s.source = (.ok first, source) →
      ∃ c, first.costValue = .ok c

theorem firstKnown_of_found {s : Search α σ τ ρ} {f : Found α τ ρ}
    (h : s.progress.found? = some f) : s.FirstKnown := by
  intro hfresh
  rw [hfresh] at h
  cases h

variable [Strategy α σ]

/-- A search and its outcomes so far are where the schedule of the first strategy puts them. -/
structure Paced (first : σ) (stop : Nat → Bool) (os : List (Outcome α)) (s : Search α σ τ ρ) :
    Prop where
  ages : Strategy.Ages s.steps first s.strategy
  iterations : os.map (·.iteration) = List.range' 1 s.steps
  done : ∀ o ∈ os, o.done = stop o.iteration
  earlier : ∀ n < s.steps, stop n = false
  fresh : s.progress = .fresh → s.steps = 0
  held : ∀ f, s.progress.found? = some f → s.progress = progressOf (stop s.steps) f ∧ f.Known

namespace Paced

variable {first : σ} {stop : Nat → Bool} {os : List (Outcome α)}

theorem of_fresh {s : Search α σ τ ρ} (hfresh : s.progress = .fresh) (hsteps : s.steps = 0)
    (hstrategy : s.strategy = first) : Paced first stop [] s where
  ages := by
    rw [hsteps]
    exact Strategy.ages_zero.mpr hstrategy.symm
  iterations := by rw [hsteps]; rfl
  done := by simp
  earlier := by
    intro n hn
    omega
  fresh _ := hsteps
  held := by
    intro f hf
    rw [hfresh] at hf
    cases hf

theorem stop_of_searching {s : Search α σ τ ρ} {f : Found α τ ρ} (h : Paced first stop os s)
    (hf : s.progress = .searching f) : stop s.steps = false ∧ f.Known := by
  obtain ⟨hprogress, hknown⟩ := h.held f (by rw [hf]; rfl)
  refine ⟨?_, hknown⟩
  cases hstop : stop s.steps with
  | false => rfl
  | true =>
    rw [hf, hstop] at hprogress
    cases hprogress

theorem tried {s t : Search α σ τ ρ} {f : Found α τ ρ} (h : Paced first stop os s)
    (hf : s.progress = .searching f) (ht : Tried f s t) : Paced first stop os t := by
  obtain ⟨source, trials, g, rfl, hg⟩ := ht
  obtain ⟨hstop, hknown⟩ := h.stop_of_searching hf
  refine ⟨h.ages, h.iterations, h.done, h.earlier, (fun hfresh => by cases hfresh), fun g' hg' => ?_⟩
  cases hg'
  exact ⟨by rw [hstop]; rfl, hg hknown⟩

variable [Printed α] [ToString τ] [ToString ρ]

theorem start_cases {r : Running α σ τ ρ} (hschedule : Strategy.Schedule first stop)
    (h : Paced first stop os r.1) (hfresh : r.1.progress = .fresh) (hcost : r.1.FirstKnown)
    (hrecorded : Recorded (Search.start.start r).1) :
    (∃ e source t, (r.1.landscape.initial r.1.kept).start r.1.source = (.error e, source) ∧
        Search.start.start r = (.error e, t) ∧ t.1 = { r.1 with source := source }) ∨
      ∃ x source t, (r.1.landscape.initial r.1.kept).start r.1.source = (.ok x, source) ∧
        Search.start.start r = (.ok (), t) ∧ Paced first stop os t.1 ∧
          t.1.progress = progressOf (stop 0) (firstFound x) := by
  have hsteps := h.fresh hfresh
  have hstop : Strategy.stops r.1.strategy = .ok (stop 0) := by
    rw [← hsteps]
    exact hschedule.stops_eq h.ages
  rcases hx : Search.start.start r with ⟨a, t⟩
  cases a with
  | error e =>
    rcases start_error hfresh hstop hx with ⟨source, hsource, ht⟩ | ⟨x, source, hsource, hfault⟩ | hrecord
    · exact Or.inl ⟨e, source, t, hsource, rfl, ht⟩
    · obtain ⟨c, hc⟩ := hcost hfresh x source hsource
      rw [hc] at hfault
      cases hfault
    · rw [hx] at hrecorded
      exact absurd hrecord (hrecorded e rfl)
  | ok u =>
    obtain ⟨x, source, done, hsource, hknown, hdone, ht⟩ := start_ok hfresh hx
    rw [hstop] at hdone
    cases hdone
    refine Or.inr ⟨x, source, t, hsource, rfl, ?_, by rw [ht]⟩
    rw [ht]
    refine ⟨h.ages, h.iterations, h.done, h.earlier, fun _ => hsteps, fun f hf => ?_⟩
    rw [found?_progressOf] at hf
    cases hf
    exact ⟨by rw [hsteps], known_firstFound hknown⟩

theorem start {r : Running α σ τ ρ} (hschedule : Strategy.Schedule first stop)
    (h : Paced first stop os r.1) (hcost : r.1.FirstKnown)
    (hrecorded : Recorded (Search.start.start r).1) :
    Paced first stop os (Search.start.start r).2.1 := by
  cases hf : r.1.progress.found? with
  | some f =>
    rw [start_of_found hf]
    exact h
  | none =>
    have hfresh := Progress.fresh_of_found? hf
    rcases h.start_cases hschedule hfresh hcost hrecorded with
      ⟨e, source, t, -, hstart, ht⟩ | ⟨x, source, t, -, hstart, ht, -⟩
    · rw [hstart, ht]
      refine ⟨h.ages, h.iterations, h.done, h.earlier, h.fresh, h.held⟩
    · rw [hstart]
      exact ht

variable [Quantity α] [Acceptance α σ (Solution α τ ρ)]

theorem step_of_searching {r : Running α σ τ ρ} {f : Found α τ ρ}
    (hschedule : Strategy.Schedule first stop) (h : Paced first stop os r.1)
    (hf : r.1.progress = .searching f) (hrecorded : Recorded (Search.step.start r).1) :
    Event.toldIn (stepLog r) = (Search.step.start r).1.toOption.toList ∧
      Paced first stop (os ++ Event.toldIn (stepLog r)) (Search.step.start r).2.1 := by
  obtain ⟨hstop, hknown⟩ := h.stop_of_searching hf
  rcases hx : Search.step.start r with ⟨a, t⟩
  cases a with
  | error e =>
    obtain ⟨b, hage⟩ := hschedule.exists_age h.ages
    rcases step_error hf hknown hage (hschedule.stops_eq (h.ages.next hage)) hx with
      hrecord | ⟨ht, htold⟩
    · rw [hx] at hrecorded
      exact absurd hrecord (hrecorded e rfl)
    · rw [htold, List.append_nil]
      exact ⟨rfl, h.tried hf ht⟩
  | ok o =>
    obtain ⟨source, trials, g, b, time, hg, hage, hdone, hiteration, ht, htold⟩ := step_ok hf hx
    have hages := h.ages.next hage
    have hnext : o.done = stop (r.1.steps + 1) := by
      rw [hschedule.stops_eq hages] at hdone
      exact (Except.ok.inj hdone).symm
    rw [htold, ht]
    refine ⟨rfl, hages, ?_, fun o' ho' => ?_, fun n hn => ?_, fun hfresh => ?_, fun g' hg' => ?_⟩
    · rw [List.map_append, h.iterations, List.range'_concat, List.map_cons, List.map_nil, hiteration]
      congr 2
      omega
    · rcases List.mem_append.mp ho' with ho' | ho'
      · exact h.done o' ho'
      · rw [List.mem_singleton.mp ho', hiteration, hnext]
    · rcases Nat.lt_succ_iff_lt_or_eq.mp hn with hn | rfl
      · exact h.earlier n hn
      · exact hstop
    · have hfound := found?_progressOf o.done g
      dsimp only at hfresh
      rw [hfresh] at hfound
      cases hfound
    · dsimp only at hg'
      rw [found?_progressOf] at hg'
      cases hg'
      exact ⟨by rw [hnext], hg hknown⟩

theorem step {r : Running α σ τ ρ} (hschedule : Strategy.Schedule first stop)
    (h : Paced first stop os r.1) (hcost : r.1.FirstKnown)
    (hrecorded : Recorded (Search.step.start r).1) :
    Event.toldIn (stepLog r) = (Search.step.start r).1.toOption.toList ∧
      Paced first stop (os ++ Event.toldIn (stepLog r)) (Search.step.start r).2.1 := by
  have ht := h.start hschedule hcost hrecorded.of_bind
  rcases hx : Search.start.start r with ⟨a, t⟩
  rw [hx] at ht
  cases a with
  | error e =>
    obtain ⟨hstep, hlog⟩ := step_of_start_error hx
    rw [hstep, hlog, Event.toldIn_nil, List.append_nil]
    exact ⟨rfl, ht⟩
  | ok u =>
    obtain ⟨f, hf⟩ := found_of_start_ok hx
    obtain ⟨hstep, hlog⟩ := step_of_start hx hf
    rw [hstep] at hrecorded ⊢
    rw [hlog]
    cases hp : t.1.progress with
    | fresh =>
      rw [hp] at hf
      cases hf
    | searching g => exact ht.step_of_searching hschedule hp hrecorded
    | finished g =>
      obtain ⟨hover, hnone⟩ := step_of_finished hp
      rw [hover, hnone, Event.toldIn_nil, List.append_nil]
      exact ⟨rfl, ht⟩

theorem drive {r : Running α σ τ ρ} {f : Found α τ ρ} (n : Nat)
    (hschedule : Strategy.Schedule first stop) (h : Paced first stop os r.1)
    (hf : r.1.progress.found? = some f) (hrecorded : Recorded ((Search.drive n).start r).1) :
    Paced first stop (os ++ Event.toldIn (driveLog n r)) ((Search.drive n).start r).2.1 := by
  induction n generalizing os r f with
  | zero =>
    rw [driveLog, Event.toldIn_nil, List.append_nil]
    exact h
  | succ n ih =>
    rw [Search.drive, Attempt.start_bind_ok (Attempt.start_get r)] at hrecorded ⊢
    rw [driveLog]
    by_cases hs : r.1.progress.stage = .searching
    · rw [if_pos hs] at hrecorded ⊢
      rw [if_pos hs, Event.toldIn_append, ← List.append_assoc]
      have hstep := (h.step hschedule (firstKnown_of_found hf)
        hrecorded.of_bind).2
      rcases hx : Search.step.start r with ⟨a, t⟩
      rw [hx] at hstep
      cases a with
      | error e =>
        rw [Attempt.start_bind_error hx, Event.toldIn_nil, List.append_nil]
        exact hstep
      | ok o =>
        rw [Attempt.start_bind_ok hx] at hrecorded ⊢
        obtain ⟨g, hg⟩ := found_of_step_ok hx
        exact ih hstep hg hrecorded
    · rw [if_neg hs, if_neg hs, Event.toldIn_nil, List.append_nil]
      exact h

theorem solve {r : Running α σ τ ρ} (limit : Nat) (hschedule : Strategy.Schedule first stop)
    (h : Paced first stop os r.1) (hcost : r.1.FirstKnown)
    (hrecorded : Recorded ((Search.solve limit).start r).1) :
    Paced first stop (os ++ Event.toldIn ((Call.solve limit).log r))
      ((Search.solve limit).start r).2.1 := by
  have ht := h.start hschedule hcost hrecorded.of_bind
  rcases hx : Search.start.start r with ⟨a, t⟩
  rw [hx] at ht
  rw [Call.log, hx]
  cases a with
  | error e =>
    rw [Search.solve, Attempt.start_bind_error hx, Event.toldIn_nil, List.append_nil]
    exact ht
  | ok u =>
    obtain ⟨f, hf⟩ := found_of_start_ok hx
    rw [Search.solve, Attempt.start_bind_ok hx] at hrecorded ⊢
    have hdrive := ht.drive limit hschedule hf hrecorded.of_bind
    rcases hy : (Search.drive limit).start t with ⟨b, v⟩
    rw [hy] at hdrive
    cases b with
    | error e =>
      rw [Attempt.start_bind_error hy]
      exact hdrive
    | ok isOver =>
      rw [Attempt.start_bind_ok hy]
      cases isOver <;> exact hdrive

end Paced
end Search

namespace Call
variable [Quantity α] [Strategy α σ]
  [Acceptance α σ (Solution α τ ρ)] [Printed α] [ToString τ] [ToString ρ]

/-- No call computes a cost of a first solution that is a fault, and none fails with a record. -/
def AreSmooth : List Call → Running α σ τ ρ → Prop
  | [], _ => True
  | c :: rest, r =>
    r.1.FirstKnown ∧ Search.Recorded (c.run.start r).1 ∧ AreSmooth rest (c.run.start r).2

def Begins : List Call → Running α σ τ ρ → Prop
  | [], _ => False
  | c :: rest, r =>
    (∃ first source, (r.1.landscape.initial r.1.kept).start r.1.source = (.ok first, source)) ∨
      Begins rest (c.run.start r).2

variable {first : σ} {stop : Nat → Bool} {os : List (Outcome α)}

theorem run_of_start_error (c : Call) {r t : Running α σ τ ρ} {e : Fault}
    (h : Search.start.start r = (.error e, t)) : c.run.start r = (.error e, t) := by
  cases c with
  | start => exact h
  | step => rw [run, Attempt.start_bind_error (Search.step_of_start_error h).1]
  | solve limit =>
    rw [run, Attempt.start_bind_error]
    rw [Search.solve, Attempt.start_bind_error h]

theorem run_of_start (c : Call) {r t : Running α σ τ ρ} (h : Search.start.start r = (.ok (), t)) :
    c.run.start r = c.run.start t := by
  obtain ⟨f, hf⟩ := Search.found_of_start_ok h
  have ht := Search.start_of_found hf
  cases c with
  | start => exact h.trans ht.symm
  | step => rw [run, Attempt.start_bind, Attempt.start_bind, (Search.step_of_start h hf).1]
  | solve limit =>
    have hsolve : (Search.solve limit).start r = (Search.solve limit).start t := by
      rw [Search.solve, Attempt.start_bind_ok h, Attempt.start_bind_ok ht]
    rw [run, Attempt.start_bind, Attempt.start_bind, hsolve]

theorem paced_run (c : Call) {r : Running α σ τ ρ} (hschedule : Strategy.Schedule first stop)
    (h : Search.Paced first stop os r.1) (hcost : r.1.FirstKnown)
    (hrecorded : Search.Recorded (c.run.start r).1) :
    Search.Paced first stop (os ++ Event.toldIn (c.log r)) (c.run.start r).2.1 := by
  cases c with
  | start =>
    rw [log, Event.toldIn_nil, List.append_nil]
    exact h.start hschedule hcost hrecorded
  | step =>
    have hstep := (h.step hschedule hcost hrecorded.of_bind).2
    rw [run, Attempt.start_bind]
    rcases hx : Search.step.start r with ⟨a, t⟩
    rw [hx] at hstep
    cases a <;> exact hstep
  | solve limit =>
    have hsolve := h.solve limit hschedule hcost hrecorded.of_bind
    rw [run, Attempt.start_bind]
    rcases hx : (Search.solve limit).start r with ⟨a, t⟩
    rw [hx] at hsolve
    cases a <;> exact hsolve

theorem paced_after (calls : List Call) {r : Running α σ τ ρ}
    (hschedule : Strategy.Schedule first stop) (h : Search.Paced first stop os r.1)
    (hsmooth : AreSmooth calls r) :
    Search.Paced first stop (os ++ outcomes calls r) (after calls r).1 := by
  induction calls generalizing os r with
  | nil =>
    rw [outcomes, logs, Event.toldIn_nil, List.append_nil]
    exact h
  | cons c rest ih =>
    obtain ⟨hcost, hrecorded, hrest⟩ := hsmooth
    rw [outcomes, logs, Event.toldIn_append, ← List.append_assoc]
    exact ih (paced_run c hschedule h hcost hrecorded) hrest

def areAnswered : List Call → Running α σ τ ρ → Bool
  | [], _ => true
  | c :: rest, r =>
    match c.run.start r with
    | (.ok _, t) => areAnswered rest t
    | (.error _, _) => false

theorem areSmooth_of_areAnswered {calls : List Call} {r : Running α σ τ ρ}
    (h : areAnswered calls r = true) : AreSmooth calls r := by
  induction calls generalizing r with
  | nil => trivial
  | cons c rest ih =>
    rw [areAnswered] at h
    rcases hx : c.run.start r with ⟨a, t⟩
    rw [hx] at h
    cases a with
    | error e => cases h
    | ok u =>
      have hrecorded : Search.Recorded (c.run.start r).1 := by
        intro e he
        rw [hx] at he
        cases he
      refine ⟨fun hfresh x source hsource => ?_, hrecorded, by rw [hx]; exact ih h⟩
      rcases hs : Search.start.start r with ⟨b, v⟩
      cases b with
      | error e =>
        rw [run_of_start_error c hs] at hx
        cases hx
      | ok _ =>
        obtain ⟨x', source', _, hsource', hknown, -, -⟩ := Search.start_ok hfresh hs
        rw [hsource] at hsource'
        cases hsource'
        exact hknown

theorem depth_le_after (calls : List Call) (r : Running α σ τ ρ) :
    r.1.progress.stage.depth ≤ (after calls r).1.progress.stage.depth :=
  (kept_depth r.1.progress.stage.depth).calls calls (l := []) (Nat.le_refl _)

theorem fresh_iff_not_begins (calls : List Call) {r : Running α σ τ ρ}
    (hschedule : Strategy.Schedule first stop) (h : Search.Paced first stop os r.1)
    (hfresh : r.1.progress = .fresh) (hsmooth : AreSmooth calls r) :
    (after calls r).1.progress.stage = .uninitialized ↔ ¬ Begins calls r := by
  induction calls generalizing r os with
  | nil =>
    rw [after, hfresh]
    exact iff_of_true rfl id
  | cons c rest ih =>
    obtain ⟨hcost, hrecorded, hrest⟩ := hsmooth
    have hstart : Search.Recorded (Search.start.start r).1 := by
      intro e he
      apply hrecorded
      rw [run_of_start_error c (Prod.ext he rfl)]
    rcases h.start_cases hschedule hfresh hcost hstart with
      ⟨e, source, t, hsource, hfault, ht⟩ | ⟨x, source, t, hsource, hbegun, -, ht⟩
    · have hrun := run_of_start_error c hfault
      have hnext := paced_run c hschedule h hcost hrecorded
      rw [after, Begins, hsource]
      rw [hrun] at hrest hnext ⊢
      rw [ih hnext (by rw [ht]; exact hfresh) hrest]
      simp
    · have hdepth := depth_le_after (c :: rest) t
      rw [after, ← run_of_start c hbegun] at hdepth
      have hone : 1 ≤ t.1.progress.stage.depth :=
        one_le_depth (f := Search.firstFound x) (by rw [ht, Search.found?_progressOf])
      rw [after]
      refine iff_of_false (fun hstage => ?_) (not_not.mpr (Or.inl ⟨x, source, hsource⟩))
      rw [hstage] at hdepth
      exact Nat.not_succ_le_zero 0 (Nat.le_trans hone hdepth)

end Call

variable [Quantity α] [Strategy α σ]
  [Acceptance α σ (Solution α τ ρ)] [Printed α] [ToString τ] [ToString ρ]

/-- What a caller sees after some calls on a search that had not begun: its stage, its solutions, its
count of steps and the outcomes it has told. -/
structure Orderly (first : σ) (stop : Nat → Bool) (calls : List Call) (r now : Running α σ τ ρ) :
    Prop where
  uninitialized : now.1.progress.stage = .uninitialized ↔ ¬ Call.Begins calls r
  searching : now.1.progress.stage = .searching ↔ Call.Begins calls r ∧ stop now.1.steps = false
  terminated : now.1.progress.stage = .terminated ↔ Call.Begins calls r ∧ stop now.1.steps = true
  absent : now.1.progress.found? = none ↔ now.1.progress.stage = .uninitialized
  count : now.1.steps = (Call.outcomes calls r).length
  ages : Strategy.Ages now.1.steps first now.1.strategy
  iterations : (Call.outcomes calls r).map (·.iteration) = List.range' 1 now.1.steps
  done : ∀ o ∈ Call.outcomes calls r,
    o.done = true ↔ o.iteration = now.1.steps ∧ now.1.progress.stage = .terminated

/-- What the next call does to a search: it moves on to a later stage at most, a step tells what it
answers, and nothing happens to a search that is over. -/
structure Onward (now : Running α σ τ ρ) : Prop where
  forward : ∀ calls,
    now.1.progress.stage.depth ≤ (Call.after calls now).1.progress.stage.depth
  answer : ∀ o t, Search.step.start now = (.ok o, t) →
    Event.toldIn (Call.step.log now) = [o] ∧ o.iteration = now.1.steps + 1 ∧
      t.1.steps = now.1.steps + 1 ∧ (o.done = true ↔ t.1.progress.stage = .terminated)
  ended : now.1.progress.stage = .terminated →
    Search.start.start now = (.ok (), now) ∧
      (∀ limit, (Search.solve limit).start now =
        (.ok (now.1.progress.found?.map (·.best.solution)), now)) ∧
      Search.step.start now = (.error .terminated, now)
  atOnce : ∀ t, Search.start.start now = (.ok (), t) → t.1.progress.stage = .terminated →
    Search.step.start now = (.error .terminated, t)

variable {first : σ} {stop : Nat → Bool}

theorem Search.Paced.orderly {calls : List Call} {r now : Running α σ τ ρ}
    (h : Paced first stop (Call.outcomes calls r) now.1)
    (hbegins : now.1.progress.stage = .uninitialized ↔ ¬ Call.Begins calls r) :
    Orderly first stop calls r now := by
  have hcount : now.1.steps = (Call.outcomes calls r).length := by
    have hlength := congrArg List.length h.iterations
    rw [List.length_map, List.length_range'] at hlength
    exact hlength.symm
  have hstage : ∀ f, now.1.progress.found? = some f →
      now.1.progress.stage = if stop now.1.steps then .terminated else .searching := by
    intro f hf
    rw [(h.held f hf).1, stage_progressOf]
  cases hf : now.1.progress.found? with
  | none =>
    have hfresh := Progress.fresh_of_found? hf
    have hnot : ¬ Call.Begins calls r := hbegins.mp (by rw [hfresh]; rfl)
    have hnil : Call.outcomes calls r = [] := by
      rw [h.fresh hfresh] at hcount
      exact List.eq_nil_of_length_eq_zero hcount.symm
    refine ⟨hbegins, ?_, ?_, ?_, hcount, h.ages, h.iterations, ?_⟩
    · rw [hfresh]
      exact iff_of_false (fun heq => by cases heq) fun hb => hnot hb.1
    · rw [hfresh]
      exact iff_of_false (fun heq => by cases heq) fun hb => hnot hb.1
    · rw [hfresh]
      exact iff_of_true rfl rfl
    · rw [hnil]
      simp
  | some f =>
    have hs := hstage f hf
    have hbegun : Call.Begins calls r := by
      by_contra hnot
      rw [hbegins.mpr hnot] at hs
      cases hstop : stop now.1.steps <;> rw [hstop] at hs <;> cases hs
    refine ⟨hbegins, ?_, ?_, ?_, hcount, h.ages, h.iterations, ?_⟩
    · rw [hs]
      cases stop now.1.steps <;> simp [hbegun]
    · rw [hs]
      cases stop now.1.steps <;> simp [hbegun]
    · rw [hf, hs]
      cases stop now.1.steps <;> simp
    · intro o ho
      have hrange : o.iteration ∈ List.range' 1 now.1.steps := by
        rw [← h.iterations]
        exact List.mem_map_of_mem ho
      obtain ⟨hlow, hhigh⟩ := List.mem_range'_1.mp hrange
      rw [h.done o ho, hs]
      constructor
      · intro hstop
        have hlast : o.iteration = now.1.steps := by
          by_contra hne
          have := h.earlier o.iteration (by omega)
          rw [hstop] at this
          cases this
        rw [← hlast, hstop]
        exact ⟨rfl, rfl⟩
      · rintro ⟨hlast, hterminated⟩
        rw [hlast]
        cases hstop : stop now.1.steps with
        | true => rfl
        | false =>
          rw [hstop] at hterminated
          cases hterminated

theorem Search.onward (now : Running α σ τ ρ) : Onward now where
  forward calls := Call.depth_le_after calls now
  answer := by
    intro o t h
    obtain ⟨u, f, hstart, hf, hstep⟩ := searching_of_step_ok h
    obtain ⟨source, trials, g, a, time, -, -, -, hiteration, ht, htold⟩ := step_ok hf hstep
    have hsteps := (start_ok_keeps hstart).2
    rw [hsteps] at hiteration ht
    refine ⟨?_, hiteration, by rw [ht], ?_⟩
    · rw [Call.log, (step_of_start hstart (f := f) (by rw [hf]; rfl)).2, htold]
    · rw [ht, stage_progressOf]
      cases o.done <;> simp
  ended := by
    intro hstage
    obtain ⟨f, hp⟩ := Progress.finished_of_stage hstage
    have hstart : start.start now = (.ok (), now) := start_of_found (f := f) (by rw [hp]; rfl)
    refine ⟨hstart, fun limit => ?_, (step_of_finished hp).1⟩
    rw [solve, Attempt.start_bind_ok hstart, Attempt.start_bind_ok (drive_of_terminated limit hstage),
      if_pos rfl, Attempt.start_bind_ok (Attempt.start_get now), hp]
    rfl
  atOnce := by
    intro t hstart hstage
    obtain ⟨f, hf⟩ := found_of_start_ok hstart
    obtain ⟨g, hp⟩ := Progress.finished_of_stage hstage
    rw [(step_of_start hstart hf).1]
    exact (step_of_finished hp).1

/-- Under a strategy whose age alone decides when to stop, every sequence of calls goes through the
stages in order and counts its steps. -/
theorem stages_follow_schedule (hschedule : Strategy.Schedule first stop)
    (landscape : Landscape α τ ρ) (source : Source α) (searches : Datum)
    (recorder : Option Recorder) (w : Surroundings α) (calls : List Call)
    (hsmooth : Call.AreSmooth calls
      (Search.fresh first landscape source searches recorder, w)) :
    Orderly first stop calls (Search.fresh first landscape source searches recorder, w)
        (Call.after calls (Search.fresh first landscape source searches recorder, w)) ∧
      Onward (Call.after calls (Search.fresh first landscape source searches recorder, w)) := by
  have hfresh : Search.Paced first stop [] (Search.fresh first landscape source searches recorder :
      Search α σ τ ρ) := Search.Paced.of_fresh rfl rfl rfl
  have hpaced := Call.paced_after calls hschedule
    (r := (Search.fresh first landscape source searches recorder, w)) hfresh hsmooth
  rw [List.nil_append] at hpaced
  exact ⟨hpaced.orderly (Call.fresh_iff_not_begins calls hschedule hfresh rfl hsmooth),
    Search.onward _⟩

def gravitySearch : Running Float (GravityOver Float) Nat Nat :=
  (.fresh ⟨⟨0, 2⟩⟩ (.listed "Listed" [.ok 5, .ok 3, .ok 4]) (.repeating [.real 0.5]) (.int 1) none,
    ⟨0, 1, .empty, []⟩)

theorem stages_follow_schedule_gravity :
    Call.AreSmooth [.start, .step, .solve 3] gravitySearch ∧
      Orderly ⟨⟨0, 2⟩⟩ (fun n => decide ((2 : Int) ≤ (0 + n : Nat))) [.start, .step, .solve 3]
        gravitySearch (Call.after [.start, .step, .solve 3] gravitySearch) ∧
      (Call.after [.start, .step, .solve 3] gravitySearch).1.progress.stage = .terminated := by
  have hsmooth : Call.AreSmooth [.start, .step, .solve 3] gravitySearch :=
    Call.areSmooth_of_areAnswered (by decide +kernel)
  have hrun := stages_follow_schedule (Gravity.schedule (⟨⟨0, 2⟩⟩ : GravityOver Float))
    (.listed "Listed" [.ok 5, .ok 3, .ok 4]) (.repeating [.real 0.5]) (.int 1) none
    ⟨0, 1, .empty, []⟩ [.start, .step, .solve 3] hsmooth
  exact ⟨hsmooth, hrun.1, by decide +kernel⟩

end AssignmentSearch
