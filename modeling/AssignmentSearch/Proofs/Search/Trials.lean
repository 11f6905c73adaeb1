import AssignmentSearch.Proofs.Search.BestSoFar
import AssignmentSearch.Proofs.Search.Clerical

/-!
# Trials one by one

A step makes its trials in one go. Here a single trial is described by itself: it changes the
solutions held, the source and the number of trials, under a strategy that cannot change. A step is
as many of these one after the other, and only then one ageing of the strategy.
-/

namespace AssignmentSearch

variable {α σ τ ρ β : Type}

/-- All that trials change: the solutions held, the random source, and how many trials there were. -/
structure Standing (α τ ρ : Type) where
  found : Found α τ ρ
  source : Source α
  trials : Nat

/-- What a single trial tells: its reason and the cost of its candidate. -/
structure Sighting (α : Type) where
  reason : Reason α
  cost : α

namespace Standing

def withSource (x : Attempt (Source α) β) : Attempt (Standing α τ ρ) β :=
  Attempt.zoom (·.source) (fun source w => { w with source }) x

variable [Quantity α] [Acceptance α σ (Solution α τ ρ)]

/-- Decides on a candidate. A better one is taken without a sample, and an impossible one is left
without a sample. -/
def judge (strategy : σ) (current candidate : Solution α τ ρ) :
    Attempt (Source α) (Reason α) := do
  if ← Attempt.lift (candidate.isBetterThan current) then return .better
  let p ← Attempt.lift (Strategy.acceptance strategy candidate current)
  if ← Attempt.lift p.isAtMostZero then return .impossible
  let r ← Source.draw
  let isLucky ← Attempt.lift (r.le p)
  let p ← Attempt.lift p.quantity
  let r ← Attempt.lift r.quantity
  return if isLucky then .lucky p r else .unlucky p r

/-- A single trial: a neighbor of the current solution is met and judged, becomes the current
solution if it is taken, and the best one if it is better than that. -/
def tryOne (strategy : σ) (landscape : Landscape α τ ρ) :
    Attempt (Standing α τ ρ) (Sighting α) := do
  modify fun w => { w with trials := w.trials + 1 }
  let ⟨f, _, trials⟩ ← get
  let met ← withSource (landscape.neighbor trials f.current.solution)
  let cost ← Attempt.lift met.costValue
  let candidate : Candidate α τ ρ := ⟨trials, met.evaluated⟩
  let reason ← withSource (judge strategy f.current.solution candidate.solution)
  if reason.accepts then
    modify fun w => { w with found := { w.found with current := candidate } }
    if ← Attempt.lift (candidate.solution.isBetterThan f.best.solution) then
      modify fun w => { w with found := { w.found with best := candidate } }
  return ⟨reason, cost⟩

/-- Single trials one after the other, under one strategy. -/
def tryMany (strategy : σ) (landscape : Landscape α τ ρ) :
    Nat → Attempt (Standing α τ ρ) (List (Sighting α))
  | 0 => return []
  | k + 1 => do
    let d ← tryOne strategy landscape
    let ds ← tryMany strategy landscape k
    return d :: ds

theorem length_of_tryMany {strategy : σ} {landscape : Landscape α τ ρ} {k : Nat}
    {w w' : Standing α τ ρ} {ds : List (Sighting α)}
    (h : (tryMany strategy landscape k).start w = (.ok ds, w')) : ds.length = k := by
  induction k generalizing w ds with
  | zero =>
    cases h
    rfl
  | succ k ih =>
    obtain ⟨d, u, -, h⟩ := Attempt.exists_of_start_bind h
    obtain ⟨es, v, hes, h⟩ := Attempt.exists_of_start_bind h
    cases h
    rw [List.length_cons, ih hes]

theorem tryMany_add (strategy : σ) (landscape : Landscape α τ ρ) (k₁ k₂ : Nat) :
    tryMany strategy landscape (k₁ + k₂) = do
      let ds ← tryMany strategy landscape k₁
      let es ← tryMany strategy landscape k₂
      return ds ++ es := by
  induction k₁ with
  | zero => simp [tryMany]
  | succ k₁ ih =>
    rw [Nat.succ_add, tryMany, ih, tryMany]
    simp

end Standing

def Batch.afterOne (b : Batch α) (d : Sighting α) : Batch α :=
  ⟨b.accepted || d.reason.accepts, d.reason, d.cost⟩

theorem Batch.accepted_foldl (b : Batch α) (ds : List (Sighting α)) :
    (ds.foldl afterOne b).accepted = (b.accepted || ds.any (·.reason.accepts)) := by
  induction ds generalizing b with
  | nil => simp
  | cons d ds ih => rw [List.foldl_cons, ih, List.any_cons, afterOne, Bool.or_assoc]

theorem Batch.last_foldl (b : Batch α) {ds : List (Sighting α)} {d : Sighting α}
    (h : ds.getLast? = some d) :
    (ds.foldl afterOne b).reason = d.reason ∧ (ds.foldl afterOne b).candidateCost = d.cost := by
  obtain ⟨init, rfl⟩ := List.getLast?_eq_some_iff.mp h
  rw [List.foldl_append]
  exact ⟨rfl, rfl⟩

namespace Search

def standing? (s : Search α σ τ ρ) : Option (Standing α τ ρ) :=
  s.progress.found?.map fun f => ⟨f, s.source, s.trials⟩

def standingAt (s : Search α σ τ ρ) (w : Standing α τ ρ) : Search α σ τ ρ :=
  { s with source := w.source, trials := w.trials, progress := .searching w.found }

variable [Quantity α] [Acceptance α σ (Solution α τ ρ)]

theorem start_assess_judge (current candidate : Solution α τ ρ) (s : Search α σ τ ρ) :
    (assess current candidate).start s =
      (((Standing.judge s.strategy current candidate).start s.source).1,
        { s with source := ((Standing.judge s.strategy current candidate).start s.source).2 }) := by
  rw [assess, Standing.judge]
  cases candidate.isBetterThan current with
  | error e => rfl
  | ok isBetter =>
    cases isBetter with
    | true => rfl
    | false =>
      simp only [Attempt.start_bind, Attempt.start_lift, Attempt.start_get, Bool.false_eq_true,
        if_false]
      cases Strategy.acceptance s.strategy candidate current with
      | error e => rfl
      | ok p =>
        dsimp only
        cases p.isAtMostZero with
        | error e => rfl
        | ok isZero =>
          cases isZero with
          | true => rfl
          | false =>
            simp only [Bool.false_eq_true, if_false, Attempt.start_bind, start_withSource,
              Source.start_draw, Attempt.start_lift]
            cases s.source.sample.1.le p with
            | error e => rfl
            | ok isLucky =>
              cases p.quantity with
              | error e => rfl
              | ok x => cases s.source.sample.1.quantity <;> rfl

/-- A trial of a search is a single trial of its standing. -/
theorem start_trial (s : Search α σ τ ρ) (w : Standing α τ ρ) (b : Batch α) :
    (trial b).start (s.standingAt w) =
      (((Standing.tryOne s.strategy s.landscape).start w).1.map b.afterOne,
        s.standingAt ((Standing.tryOne s.strategy s.landscape).start w).2) := by
  rw [trial, Standing.tryOne, Attempt.start_bind_ok (Attempt.start_get _),
    Attempt.start_bind_ok (Attempt.start_modify _ _), Attempt.start_bind_ok (Attempt.start_get _)]
  dsimp only [standingAt, Progress.found?]
  rw [Attempt.start_bind, start_neighbor, Attempt.start_bind, Standing.withSource,
    Attempt.start_zoom]
  dsimp only
  rcases (s.landscape.neighbor (w.trials + 1) w.found.current.solution).start w.source with
    ⟨_ | met, source⟩
  · rfl
  dsimp only [Except.map]
  cases met.costValue with
  | error e => rfl
  | ok cost =>
    rw [Attempt.start_bind_ok (Attempt.start_lift _ _),
      Attempt.start_bind_ok (Attempt.start_lift _ _), Attempt.start_bind, start_assess_judge,
      Attempt.start_bind, Standing.withSource, Attempt.start_zoom]
    dsimp only
    rcases (Standing.judge s.strategy w.found.current.solution met.evaluated).start source with
      ⟨_ | reason, source'⟩
    · rfl
    dsimp only
    by_cases haccepts : reason.accepts = true
    · rw [if_pos haccepts, if_pos haccepts, Attempt.start_bind, start_take,
        Attempt.start_bind_ok (Attempt.start_modify _ _)]
      dsimp only
      cases met.evaluated.isBetterThan w.found.best.solution with
      | error e => rfl
      | ok isBetter => cases isBetter <;> rfl
    · rw [if_neg haccepts, if_neg haccepts]
      rfl

theorem start_batch (k : Nat) (s : Search α σ τ ρ) (w : Standing α τ ρ) (b : Batch α) :
    (batch k b).start (s.standingAt w) =
      (((Standing.tryMany s.strategy s.landscape k).start w).1.map (List.foldl Batch.afterOne b),
        s.standingAt ((Standing.tryMany s.strategy s.landscape k).start w).2) := by
  induction k generalizing w b with
  | zero => rfl
  | succ k ih =>
    rw [batch, Standing.tryMany, Attempt.start_bind, start_trial, Attempt.start_bind]
    rcases (Standing.tryOne s.strategy s.landscape).start w with ⟨_ | d, u⟩
    · rfl
    dsimp only [Except.map]
    rw [ih, Attempt.start_bind]
    rcases (Standing.tryMany s.strategy s.landscape k).start u with ⟨_ | ds, v⟩ <;> rfl

theorem batch_add (k₁ k₂ : Nat) (b : Batch α) :
    (batch (k₁ + k₂) b : Attempt (Search α σ τ ρ) (Batch α)) = batch k₁ b >>= batch k₂ := by
  induction k₁ generalizing b with
  | zero => simp [batch]
  | succ k₁ ih =>
    rw [Nat.succ_add, batch, batch, bind_assoc]
    exact congrArg (trial b >>= ·) (funext ih)

omit [Quantity α] [Acceptance α σ (Solution α τ ρ)] in
theorem standingAt_self {s : Search α σ τ ρ} {f : Found α τ ρ} (hf : s.progress = .searching f) :
    s.standingAt ⟨f, s.source, s.trials⟩ = s := by
  rw [standingAt, ← hf]

theorem known_of_tryMany {s : Search α σ τ ρ} {f : Found α τ ρ} (hf : s.progress = .searching f)
    (hknown : f.Known) (k : Nat) :
    ((Standing.tryMany s.strategy s.landscape k).start ⟨f, s.source, s.trials⟩).2.found.Known := by
  cases hc : f.current.solution.costValue with
  | error e =>
    obtain ⟨c, hok⟩ := hknown.current
    rw [hc] at hok
    cases hok
  | ok c =>
    have htried := tried_batch k (b := ⟨false, .untried, c⟩) hf
    have hbatch := start_batch k s ⟨f, s.source, s.trials⟩ ⟨false, .untried, c⟩
    rw [standingAt_self hf] at hbatch
    rw [hbatch] at htried
    obtain ⟨source, trials, g, hg, hkept⟩ := htried
    have hfound := congrArg (fun t : Search α σ τ ρ => t.progress) hg
    cases hfound
    exact hkept hknown

end Search

/-- What the outcome of a step says of the trials in it; `f` is held before them and `g` after. -/
structure Sums (f g : Found α τ ρ) (ds : List (Sighting α)) (o : Outcome α) :
    Prop where
  accepted : o.accepted = ds.any (·.reason.accepts)
  last : ∃ d, ds.getLast? = some d ∧ o.reason = d.reason ∧ o.candidateCost = d.cost
  costBefore : f.current.solution.costValue = .ok o.costBefore
  cost : g.current.solution.costValue = .ok o.cost
  bestCost : g.best.solution.costValue = .ok o.bestCost

namespace Search

variable [Quantity α] [Strategy α σ] [Acceptance α σ (Solution α τ ρ)]

/-- What a step carries out leaves the standing that single trials lead to, whatever becomes of
its strategy. -/
theorem advance_standing {s : Search α σ τ ρ} {f : Found α τ ρ} (hf : s.progress = .searching f)
    {before : α} (hbefore : f.current.solution.costValue = .ok before) {k : Nat}
    (hrounds : rounds s.searches = .ok k) :
    ∃ steps strategy, ((advance f).start s).2 =
      { s.standingAt ((Standing.tryMany s.strategy s.landscape k).start
          ⟨f, s.source, s.trials⟩).2 with steps := steps, strategy := strategy } := by
  have hbatch := start_batch k s ⟨f, s.source, s.trials⟩ ⟨false, .untried, before⟩
  rw [standingAt_self hf] at hbatch
  rw [advance, hbefore, Attempt.start_bind_ok (Attempt.start_lift _ _),
    Attempt.start_bind_ok (Attempt.start_get s), hrounds,
    Attempt.start_bind_ok (Attempt.start_lift _ _), Attempt.start_bind, hbatch]
  rcases (Standing.tryMany s.strategy s.landscape k).start ⟨f, s.source, s.trials⟩ with ⟨_ | ds, w⟩
  · exact ⟨s.steps, s.strategy, rfl⟩
  · dsimp only [Except.map]
    rw [Attempt.start_bind_ok (Attempt.start_modify _ _), Attempt.start_bind_ok
      (Attempt.start_get _)]
    dsimp only [standingAt]
    cases Strategy.age s.strategy with
    | error e => exact ⟨s.steps + 1, s.strategy, rfl⟩
    | ok a =>
      refine ⟨s.steps + 1, a, ?_⟩
      simp only [Attempt.start_bind, Attempt.start_lift, Attempt.start_modify, Attempt.start_get]
      cases Strategy.stops a with
      | error e => rfl
      | ok done =>
        dsimp only [Progress.found?, Option.getD_some]
        cases w.found.current.solution.costValue with
        | error e => rfl
        | ok cost => cases w.found.best.solution.costValue <;> rfl

theorem advance_of_fault {s : Search α σ τ ρ} {f : Found α τ ρ} (hf : s.progress = .searching f)
    {before : α} (hbefore : f.current.solution.costValue = .ok before) {k : Nat}
    (hrounds : rounds s.searches = .ok k) {e : Fault} {w : Standing α τ ρ}
    (hw : (Standing.tryMany s.strategy s.landscape k).start ⟨f, s.source, s.trials⟩ =
      (.error e, w)) : (advance f).start s = (.error e, s.standingAt w) := by
  have hbatch := start_batch k s ⟨f, s.source, s.trials⟩ ⟨false, .untried, before⟩
  rw [standingAt_self hf, hw] at hbatch
  rw [advance, hbefore, Attempt.start_bind_ok (Attempt.start_lift _ _),
    Attempt.start_bind_ok (Attempt.start_get s), hrounds,
    Attempt.start_bind_ok (Attempt.start_lift _ _)]
  exact Attempt.start_bind_error hbatch

theorem advance_of_tries {s : Search α σ τ ρ} {f : Found α τ ρ} (hf : s.progress = .searching f)
    (hknown : f.Known) {k : Nat} (hrounds : rounds s.searches = .ok k) (hk : 1 ≤ k)
    {ds : List (Sighting α)} {w : Standing α τ ρ}
    (hw : (Standing.tryMany s.strategy s.landscape k).start ⟨f, s.source, s.trials⟩ = (.ok ds, w))
    {a : σ} (hage : Strategy.age s.strategy = .ok a) {stop : Bool}
    (hstop : Strategy.stops a = .ok stop) :
    ∃ o, (advance f).start s =
        (.ok o, { s.standingAt w with steps := s.steps + 1, strategy := a }) ∧
      Sums f w.found ds o ∧ o.iteration = s.steps + 1 ∧ o.done = stop := by
  obtain ⟨before, hbefore⟩ := hknown.current
  have hafter := known_of_tryMany hf hknown k
  rw [hw] at hafter
  obtain ⟨⟨cost, hcost⟩, ⟨best, hbest⟩⟩ := hafter
  have hbatch := start_batch k s ⟨f, s.source, s.trials⟩ ⟨false, .untried, before⟩
  rw [standingAt_self hf, hw] at hbatch
  have hne : ds ≠ [] := by
    have hlength := Standing.length_of_tryMany hw
    rintro rfl
    rw [List.length_nil] at hlength
    omega
  obtain ⟨hreason, hcandidate⟩ := Batch.last_foldl ⟨false, .untried, before⟩
    (List.getLast?_eq_getLast_of_ne_nil hne)
  have haccepted := Batch.accepted_foldl ⟨false, .untried, before⟩ ds
  rw [Bool.false_or] at haccepted
  have hturned : Turned f s { s.standingAt w with steps := s.steps + 1, strategy := a }
      ⟨s.steps + 1, ds.any (·.reason.accepts), (ds.getLast hne).reason, before,
        (ds.getLast hne).cost, cost, best, stop⟩ k _ (s.standingAt w) a :=
    ⟨hbefore, hrounds, hbatch, hage, hstop, rfl, rfl,
      ⟨haccepted.symm, hreason.symm, hcandidate.symm⟩, hcost, hbest⟩
  exact ⟨_, hturned.start, ⟨rfl, ⟨_, List.getLast?_eq_getLast_of_ne_nil hne, rfl, rfl⟩, hbefore,
    hcost, hbest⟩, rfl, rfl⟩

variable [Printed α] [ToString τ] [ToString ρ]

omit [Acceptance α σ (Solution α τ ρ)] in
theorem conclude_search (started : α) (o : Outcome α) (r : Running α σ τ ρ) :
    ∃ time p, ((conclude started o).start r).2.1 =
      { r.1 with solveTime := time, progress := p } ∧ p.found? = r.1.progress.found? := by
  refine (idle_settle o).keep (Q := fun s => ∃ time p,
    s = { r.1 with solveTime := time, progress := p } ∧ p.found? = r.1.progress.found?) ?_
    ⟨r.1.solveTime, r.1.progress, rfl, rfl⟩
  rintro _ ⟨_, v⟩ ⟨time, p, rfl, hp⟩
  rw [Attempt.start_bind_ok (start_readClock _), Attempt.start_bind_ok (start_onSearch _ _),
    Attempt.start_modify]
  dsimp only
  cases o.done with
  | false => exact ⟨_, p, rfl, hp⟩
  | true =>
    rw [if_pos rfl, Attempt.start_bind]
    have hend := terminate_search ({ r.1 with
      solveTime := time + (v.now + v.tick - started), progress := p },
      { v with now := v.now + v.tick })
    rcases hx : terminate.start (({ r.1 with
      solveTime := time + (v.now + v.tick - started), progress := p } : Search α σ τ ρ),
      { v with now := v.now + v.tick }) with ⟨b, t⟩
    rw [hx] at hend
    have hover : ∃ time p, t.1 = { r.1 with solveTime := time, progress := p } ∧
        p.found? = r.1.progress.found? :=
      ⟨_, p.finish, hend, (Progress.found?_finish p).trans hp⟩
    cases b <;> exact hover

omit [Acceptance α σ (Solution α τ ρ)] in
theorem answer_conclude {s : Search α σ τ ρ} {f : Found α τ ρ} (hf : s.progress = .searching f)
    (hknown : f.Known) (world : Surroundings α) (started : α) (o : Outcome α) :
    ((conclude started o).start (s, world)).1 = .ok o ∨
      s.recorder ≠ none ∧ ∃ e, e.OfRecord ∧ ((conclude started o).start (s, world)).1 = .error e := by
  rcases hanswer : (conclude started o).start (s, world) with ⟨e | o', u⟩
  · have hrecord : e.OfRecord := by
      refine conclude_error (fun g hg => ?_) hanswer
      rw [hf] at hg
      cases hg
      exact hknown
    refine Or.inr ⟨fun hnone => ?_, e, hrecord, rfl⟩
    -- Without a recorder there is nothing that can fail.
    have hplain : s.IsPlain := by
      intro recorder hr
      rw [hnone] at hr
      cases hr
    obtain ⟨b, w', hcases, -, hb⟩ := conclude_cases hplain world started o hf hknown
    rw [hanswer] at hcases
    cases hcases
    rcases hb with hb | ⟨-, huntold⟩
    · cases hb
    · exact huntold.recorded hnone
  · rw [(conclude_ok hanswer).1]
    exact Or.inl rfl

theorem step_standing {r : Running α σ τ ρ} {f : Found α τ ρ} (hf : r.1.progress = .searching f)
    (hknown : f.Known) {k : Nat} (hrounds : rounds r.1.searches = .ok k) :
    (step.start r).2.1.standing? = some ((Standing.tryMany r.1.strategy r.1.landscape k).start
      ⟨f, r.1.source, r.1.trials⟩).2 := by
  obtain ⟨before, hbefore⟩ := hknown.current
  obtain ⟨steps, strategy, hadvance⟩ := advance_standing hf hbefore hrounds
  rw [step_of_searching hf]
  rcases hx : (advance f).start r.1 with ⟨_ | o, s⟩
  · rw [hx] at hadvance
    dsimp only at hadvance ⊢
    rw [hadvance]
    rfl
  · rw [hx] at hadvance
    dsimp only at hadvance ⊢
    obtain ⟨time, p, hconclude, hp⟩ := conclude_search (r.2.now + r.2.tick) o
      (s, { r.2 with now := r.2.now + r.2.tick })
    rw [hconclude, hadvance] at *
    rw [standing?]
    dsimp only
    rw [hp]
    rfl

/-- An answered step that does not end the search, and another one under the same strategy, make
all their trials in turn. -/
theorem standing_of_two_steps {r : Running α σ τ ρ} {f : Found α τ ρ}
    (hf : r.1.progress = .searching f) (hknown : f.Known) {k₁ k₂ : Nat}
    (hrounds : rounds r.1.searches = .ok k₁) {searches : Datum}
    (hsearches : rounds searches = .ok k₂) {o : Outcome α} {u : Running α σ τ ρ}
    (hstep : step.start r = (.ok o, u)) (hdone : o.done = false) (world : Surroundings α) :
    (step.start ({ u.1 with searches := searches, strategy := r.1.strategy }, world)).2.1.standing? =
      some ((Standing.tryMany r.1.strategy r.1.landscape (k₁ + k₂)).start
        ⟨f, r.1.source, r.1.trials⟩).2 := by
  have hstanding := step_standing hf hknown hrounds
  have hafter := known_of_tryMany hf hknown k₁
  obtain ⟨before, hbefore⟩ := hknown.current
  obtain ⟨source, trials, g, a, time, -, -, -, -, hu, -⟩ := step_ok hf hstep
  rw [Standing.tryMany_add, Attempt.start_bind]
  rcases hw : (Standing.tryMany r.1.strategy r.1.landscape k₁).start
    ⟨f, r.1.source, r.1.trials⟩ with ⟨_ | ds, w⟩
  · -- A step whose trials fail has no answer.
    rw [step_of_searching hf, advance_of_fault hf hbefore hrounds hw] at hstep
    cases hstep
  · rw [hstep, hw, hu, hdone] at hstanding
    cases hstanding
    rw [hw] at hafter
    have hsecond := step_standing (f := g)
      (r := ({ u.1 with searches := searches, strategy := r.1.strategy }, world))
      (by rw [hu, hdone]; rfl) hafter hsearches
    rw [hsecond, hu]
    dsimp only
    rw [Attempt.start_bind]
    rcases (Standing.tryMany r.1.strategy r.1.landscape k₂).start ⟨g, source, trials⟩ with
      ⟨_ | es, v⟩ <;> rfl

end Search

open Search

variable [Quantity α] [Strategy α σ]
  [Acceptance α σ (Solution α τ ρ)] [Printed α] [ToString τ] [ToString ρ]

/-- A step is so many single trials in turn, all under the strategy that it begins with. It leaves
the solutions, the source and the count of trials that they leave. It fails where one of them fails;
else it sums them up and ages the strategy once, and only records may still fail. Steps may be made
in two parts. -/
theorem step_is_single_trials_in_turn {r : Running α σ τ ρ} {f : Found α τ ρ}
    (hf : r.1.progress = .searching f) (hknown : f.Known) {k : Nat}
    (hrounds : rounds r.1.searches = .ok k) (hk : 1 ≤ k) {x : Except Fault (List (Sighting α))}
    {w : Standing α τ ρ} (hw : (Standing.tryMany r.1.strategy r.1.landscape k).start
      ⟨f, r.1.source, r.1.trials⟩ = (x, w)) :
    (step.start r).2.1.standing? = some w ∧
      (∀ e, x = .error e →
        (step.start r).1 = .error e ∧ (step.start r).2.1 = r.1.standingAt w) ∧
      (∀ ds a stop, x = .ok ds → Strategy.age r.1.strategy = .ok a →
        Strategy.stops a = .ok stop →
          ds.length = k ∧
          (step.start r).2.1.steps = r.1.steps + 1 ∧ (step.start r).2.1.strategy = a ∧
          ∃ o, Sums f w.found ds o ∧ o.iteration = r.1.steps + 1 ∧ o.done = stop ∧
            ((step.start r).1 = .ok o ∨
              r.1.recorder ≠ none ∧ ∃ e, e.OfRecord ∧ (step.start r).1 = .error e)) ∧
      -- Two steps that share out the trials come to the same, if the strategy stays as it is.
      (∀ k₁ k₂ d₁ d₂, k = k₁ + k₂ → rounds d₁ = .ok k₁ → rounds d₂ = .ok k₂ →
        ∀ o u, step.start ({ r.1 with searches := d₁ }, r.2) = (.ok o, u) → o.done = false →
          ∀ world, (step.start ({ u.1 with searches := d₂, strategy := r.1.strategy },
            world)).2.1.standing? = some w) ∧
      (∀ k₁ k₂ b, k = k₁ + k₂ →
        (batch k b : Attempt (Search α σ τ ρ) (Batch α)) = batch k₁ b >>= batch k₂) := by
  obtain ⟨before, hbefore⟩ := hknown.current
  have hstanding := step_standing hf hknown hrounds
  have hafter := known_of_tryMany hf hknown k
  rw [hw] at hstanding hafter
  refine ⟨hstanding, ?_, ?_, ?_, ?_⟩
  · rintro e rfl
    rw [step_of_searching hf, advance_of_fault hf hbefore hrounds hw]
    exact ⟨rfl, rfl⟩
  · rintro ds a stop rfl hage hstop
    obtain ⟨o, hadvance, hsums, hiteration, hdone⟩ :=
      advance_of_tries hf hknown hrounds hk hw hage hstop
    rw [step_of_searching hf, hadvance]
    dsimp only
    obtain ⟨time, p, hconclude, hp⟩ := conclude_search (r.2.now + r.2.tick) o
      ({ r.1.standingAt w with steps := r.1.steps + 1, strategy := a },
        { r.2 with now := r.2.now + r.2.tick })
    exact ⟨Standing.length_of_tryMany hw, by rw [hconclude], by rw [hconclude], o, hsums,
      hiteration, hdone, answer_conclude rfl hafter _ _ o⟩
  · rintro k₁ k₂ d₁ d₂ rfl hd₁ hd₂ o u hstep hdone world
    have htwo := standing_of_two_steps (r := ({ r.1 with searches := d₁ }, r.2)) hf hknown
      hd₁ hd₂ hstep hdone world
    rw [hw] at htwo
    exact htwo
  · rintro k₁ k₂ b rfl
    exact batch_add k₁ k₂ b

def threeAtOnce : Running Float (Plan Float) Nat Nat :=
  let r := listedSearch (.gravity ⟨⟨0, 9⟩⟩) [5, 3, 4, 2] 0.5
  (start.start ({ r.1 with searches := .int 3 }, r.2)).2

/-- The first and the last of three trials are taken, and each of them becomes the best. -/
theorem step_is_single_trials_in_turn_threeAtOnce :
    ((step.start threeAtOnce).2.1.standing?.map fun w =>
        (w.found.current.trial, w.found.best.trial, w.trials)) = some (3, 3, 3) ∧
      (step.start threeAtOnce).2.1.steps = 1 ∧
        ∃ o, (step.start threeAtOnce).1 = .ok o ∧ o.accepted = true := by
  let first : Candidate Float Nat Nat := ⟨0, ⟨.fixed "Listed" (.ok 5), .empty, .store 5⟩⟩
  obtain ⟨hstanding, -, hanswer, -⟩ := step_is_single_trials_in_turn (r := threeAtOnce)
    (f := ⟨first, first⟩) rfl ⟨⟨5, rfl⟩, ⟨5, rfl⟩⟩ (k := 3) rfl (by decide) (Prod.eta _).symm
  let three := (Standing.tryMany threeAtOnce.1.strategy threeAtOnce.1.landscape 3).start
    ⟨⟨first, first⟩, threeAtOnce.1.source, threeAtOnce.1.trials⟩
  have htaken : three.1.toOption.map (·.any (·.reason.accepts)) = some true := by
    decide +kernel
  rcases hx : three.1 with e | ds <;> rw [hx] at htaken
  · cases htaken
  · obtain ⟨-, hsteps, -, o, hsums, -, -, ho⟩ := hanswer ds _ _ hx rfl rfl
    refine ⟨by rw [hstanding]; decide +kernel, hsteps, o, ?_, ?_⟩
    · exact ho.resolve_right fun h => h.1 rfl
    · exact hsums.accepted.trans (Option.some.inj htaken)

end AssignmentSearch
