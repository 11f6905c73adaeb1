import AssignmentSearch.Proofs.Solution.Costs
import AssignmentSearch.Search.Basic

/-!
# Meetings

What one trial does: it meets a candidate, comes to a verdict, and holds other solutions if the
candidate is taken. Nothing else of the search changes but its random source and its count of
trials.
-/

namespace AssignmentSearch

/-- A candidate that was met, the solutions held before, the sample at hand for the decision, and
the decision. -/
structure Meeting (α τ ρ : Type) where
  found : Found α τ ρ
  candidate : Candidate α τ ρ
  sample : Scalar α
  verdict : Except Fault (Reason α)

namespace Meeting

variable {α τ ρ : Type}

def isAccepted (m : Meeting α τ ρ) : Bool :=
  match m.verdict with
  | .ok reason => reason.accepts
  | .error _ => false

variable [Quantity α]

def after (m : Meeting α τ ρ) : Found α τ ρ :=
  if m.isAccepted then
    match m.candidate.solution.isBetterThan m.found.best.solution with
    | .ok true => ⟨m.candidate, m.candidate⟩
    | _ => ⟨m.candidate, m.found.best⟩
  else m.found

theorem after_of_not_accepted {m : Meeting α τ ρ} (h : m.isAccepted = false) :
    m.after = m.found := by
  rw [after, h]
  rfl

theorem after_current (m : Meeting α τ ρ) :
    m.after.current = m.candidate ∨ m.after.current = m.found.current := by
  rw [after]
  split
  · refine Or.inl ?_
    split <;> rfl
  · exact Or.inr rfl

theorem after_best (m : Meeting α τ ρ) :
    m.after.best = m.candidate ∨ m.after.best = m.found.best := by
  rw [after]
  split
  · split
    · exact Or.inl rfl
    · exact Or.inr rfl
  · exact Or.inr rfl

end Meeting

namespace Progress

variable {α τ ρ : Type}

theorem holding_found {p : Progress α τ ρ} {f : Found α τ ρ} (h : p.found? = some f) :
    p.holding f = p := by
  cases p with
  | fresh => cases h
  | searching g =>
    cases h
    rfl
  | finished g =>
    cases h
    rfl

theorem holding_holding (p : Progress α τ ρ) (f g : Found α τ ρ) :
    (p.holding f).holding g = p.holding g := by
  cases p <;> rfl

theorem found?_holding {p : Progress α τ ρ} {f : Found α τ ρ} (h : p.found? = some f)
    (g : Found α τ ρ) : (p.holding g).found? = some g := by
  cases p with
  | fresh => cases h
  | searching _ => rfl
  | finished _ => rfl

theorem found?_finish (p : Progress α τ ρ) : p.finish.found? = p.found? := by
  cases p <;> rfl

theorem fresh_of_holding {p : Progress α τ ρ} {f : Found α τ ρ} (h : p.holding f = .fresh) :
    p = .fresh := by
  cases p with
  | fresh => rfl
  | searching _ => cases h
  | finished _ => cases h

theorem fresh_of_finish {p : Progress α τ ρ} (h : p.finish = .fresh) : p = .fresh := by
  cases p with
  | fresh => rfl
  | searching _ => cases h
  | finished _ => cases h

end Progress

@[simp] theorem Source.start_draw {α : Type} [Quantity α] (s : Source α) :
    draw.start s = (.ok s.sample.1, s.sample.2) := rfl

namespace Search

variable {α σ τ ρ : Type}

@[simp] theorem start_withSource {β : Type} (x : Attempt (Source α) β) (s : Search α σ τ ρ) :
    (withSource x).start s =
      ((x.start s.source).1, { s with source := (x.start s.source).2 }) := rfl

theorem start_neighbor (near : Solution α τ ρ) (s : Search α σ τ ρ) :
    (neighbor near).start s =
      (((s.landscape.neighbor (s.trials + 1) near).start s.source).1.map (⟨s.trials + 1, ·⟩),
        { s with
          source := ((s.landscape.neighbor (s.trials + 1) near).start s.source).2
          trials := s.trials + 1 }) := by
  simp only [neighbor, Attempt.start_bind, Attempt.start_modify, Attempt.start_get,
    start_withSource]
  rcases (s.landscape.neighbor (s.trials + 1) near).start s.source with ⟨r, source⟩
  cases r <;> rfl

def sourceAfter (near : Solution α τ ρ) (s : Search α σ τ ρ) : Source α :=
  ((s.landscape.neighbor (s.trials + 1) near).start s.source).2

theorem neighbor_state {near : Solution α τ ρ} {s t : Search α σ τ ρ}
    {r : Except Fault (Candidate α τ ρ)} (h : (neighbor near).start s = (r, t)) :
    t = { s with source := sourceAfter near s, trials := s.trials + 1 } := by
  rw [start_neighbor] at h
  cases h
  rfl

theorem begin_of_error {s : Search α σ τ ρ} {e : Fault} {source : Source α}
    (h : (s.landscape.initial s.kept).start s.source = (.error e, source)) :
    begin.start s = (.error e, { s with source := source }) := by
  simp only [begin, initial, Attempt.start_bind, Attempt.start_get, start_withSource, h]

theorem begin_of_ok {s : Search α σ τ ρ} {first : Solution α τ ρ} {source : Source α}
    (h : (s.landscape.initial s.kept).start s.source = (.ok first, source)) :
    begin.start s =
      (first.costValue.map (first, ·),
        { s with
          source := source
          kept := some first.evaluated
          progress := .searching ⟨⟨0, first.evaluated⟩, ⟨0, first.evaluated⟩⟩ }) := by
  simp only [begin, initial, Attempt.start_bind, Attempt.start_get, start_withSource, h,
    Attempt.start_modify, Attempt.start_pure, Attempt.start_lift]
  cases hc : first.costValue with
  | error e => rw [Solution.evaluated_of_error hc]; rfl
  | ok cost => rfl

theorem bestCost?_eq_some {s : Search α σ τ ρ} {c : α} (h : s.bestCost? = .ok (some c)) :
    ∃ f, s.progress.found? = some f ∧ f.best.solution.costValue = .ok c := by
  rw [bestCost?] at h
  cases hf : s.progress.found? with
  | none => simp [hf] at h
  | some f =>
    rw [hf] at h
    cases hc : f.best.solution.costValue with
    | error e =>
      simp only [hc] at h
      cases h
    | ok d =>
      simp only [hc] at h
      cases h
      exact ⟨f, rfl, hc⟩

variable [Quantity α]

theorem start_take (f : Found α τ ρ) (c : Candidate α τ ρ) (s : Search α σ τ ρ) :
    (take f c).start s =
      ((c.solution.isBetterThan f.best.solution).map fun _ => (),
        { s with
          progress := s.progress.holding
            (match c.solution.isBetterThan f.best.solution with
            | .ok true => ⟨c, c⟩
            | _ => ⟨c, f.best⟩) }) := by
  simp only [take, Attempt.start_bind, Attempt.start_modify, Attempt.start_lift]
  cases c.solution.isBetterThan f.best.solution with
  | error e => rfl
  | ok isBetter =>
    cases isBetter with
    | false => rfl
    | true =>
      simp only [if_true, Attempt.start_modify, Progress.holding_holding]
      rfl

theorem take_ok {f : Found α τ ρ} {c : Candidate α τ ρ} {x y : α}
    (hx : c.solution.costValue = .ok x) (hy : f.best.solution.costValue = .ok y)
    (s : Search α σ τ ρ) :
    ∃ best, (take f c).start s = (.ok (), { s with progress := s.progress.holding ⟨c, best⟩ }) ∧
      (best = c ∨ best = f.best) := by
  rw [start_take, Solution.isBetterThan_of_costs hx hy]
  cases decide (0 < Solution.compareCosts x y) with
  | false => exact ⟨f.best, rfl, Or.inr rfl⟩
  | true => exact ⟨c, rfl, Or.inl rfl⟩

private theorem start_decided {m : Meeting α τ ρ} {reason : Reason α} (hv : m.verdict = .ok reason)
    {u : Search α σ τ ρ} (hu : u.progress.found? = some m.found) (x : Batch α) :
    ((do
      if reason.accepts then take m.found m.candidate
      return x : Attempt (Search α σ τ ρ) (Batch α)).start u).2 =
        { u with progress := u.progress.holding m.after } := by
  have haccepted : m.isAccepted = reason.accepts := by rw [Meeting.isAccepted, hv]
  rw [Meeting.after, haccepted]
  cases reason.accepts with
  | false =>
    simp only [Bool.false_eq_true, if_false, Progress.holding_found hu]
    rfl
  | true =>
    simp only [if_true, Attempt.start_bind, start_take]
    cases m.candidate.solution.isBetterThan m.found.best.solution <;> rfl

variable [Acceptance α σ (Solution α τ ρ)]

/-- The decision on a candidate that is no better, given the probability and the sample. -/
def weigh (p r : Scalar α) : Except Fault (Reason α) := do
  if ← p.isAtMostZero then return .impossible
  let isLucky ← r.le p
  let p ← p.quantity
  let r ← r.quantity
  return if isLucky then .lucky p r else .unlucky p r

def verdict (strategy : σ) (sample : Scalar α) (current candidate : Solution α τ ρ) :
    Except Fault (Reason α) := do
  if ← candidate.isBetterThan current then return .better
  weigh (← Strategy.acceptance strategy candidate current) sample

theorem start_assess (current candidate : Solution α τ ρ) (s : Search α σ τ ρ) :
    ((assess current candidate).start s).1 =
        verdict s.strategy s.source.sample.1 current candidate ∧
      (((assess current candidate).start s).2 = s ∨
        ((assess current candidate).start s).2 = { s with source := s.source.sample.2 }) := by
  simp only [assess, verdict, Attempt.start_bind, Attempt.start_lift]
  cases candidate.isBetterThan current with
  | error e => exact ⟨rfl, Or.inl rfl⟩
  | ok isBetter =>
    cases isBetter with
    | true => exact ⟨rfl, Or.inl rfl⟩
    | false =>
      simp only [Bool.false_eq_true, if_false, Attempt.start_bind, Attempt.start_get,
        Attempt.start_lift]
      cases Strategy.acceptance s.strategy candidate current with
      | error e => exact ⟨rfl, Or.inl rfl⟩
      | ok p =>
        dsimp only
        change _ = weigh p s.source.sample.1 ∧ _
        rw [weigh]
        cases p.isAtMostZero with
        | error e => exact ⟨rfl, Or.inl rfl⟩
        | ok isZero =>
          cases isZero with
          | true => exact ⟨rfl, Or.inl rfl⟩
          | false =>
            simp only [Bool.false_eq_true, if_false, Attempt.start_bind, start_withSource,
              Source.start_draw, Attempt.start_lift]
            cases s.source.sample.1.le p with
            | error e => exact ⟨rfl, Or.inr rfl⟩
            | ok isLucky =>
              cases p.quantity with
              | error e => exact ⟨rfl, Or.inr rfl⟩
              | ok x => cases s.source.sample.1.quantity <;> exact ⟨rfl, Or.inr rfl⟩

theorem start_assess_of_not_better {current candidate : Solution α τ ρ} {s : Search α σ τ ρ}
    {p : Scalar α} {isZero : Bool} (hnot : candidate.isBetterThan current = .ok false)
    (hp : Strategy.acceptance s.strategy candidate current = .ok p)
    (hzero : p.isAtMostZero = .ok isZero) :
    ((assess current candidate).start s).2 =
      if isZero then s else { s with source := s.source.sample.2 } := by
  rw [assess, hnot, Attempt.start_bind_ok (Attempt.start_lift _ _), if_neg Bool.false_ne_true,
    Attempt.start_bind_ok (Attempt.start_get s), hp, Attempt.start_bind_ok (Attempt.start_lift _ _),
    hzero, Attempt.start_bind_ok (Attempt.start_lift _ _)]
  cases isZero with
  | true => rfl
  | false =>
    simp only [Bool.false_eq_true, if_false, Attempt.start_bind, start_withSource,
      Source.start_draw, Attempt.start_lift]
    cases s.source.sample.1.le p with
    | error e => rfl
    | ok isLucky =>
      cases p.quantity with
      | error e => rfl
      | ok x => cases s.source.sample.1.quantity <;> rfl

/-- The meeting of a trial that begins in a state; none if no candidate comes about. -/
def meeting? (s : Search α σ τ ρ) : Option (Meeting α τ ρ) :=
  match s.progress.found? with
  | none => none
  | some f =>
    match (neighbor f.current.solution).start s with
    | (.error _, _) => none
    | (.ok c, t) =>
      some
        { found := f
          candidate := { c with solution := c.solution.evaluated }
          sample := t.source.sample.1
          verdict := verdict t.strategy t.source.sample.1 f.current.solution c.solution.evaluated }

/-- How far the search has come after a trial. -/
def progressAfter (s : Search α σ τ ρ) : Progress α τ ρ :=
  match meeting? s with
  | none => s.progress
  | some m => s.progress.holding m.after

theorem meeting?_of_none {s : Search α σ τ ρ} (hf : s.progress.found? = none) :
    meeting? s = none := by
  rw [meeting?, hf]

theorem meeting?_of_error {s t : Search α σ τ ρ} {f : Found α τ ρ} {e : Fault}
    (hf : s.progress.found? = some f)
    (hn : (neighbor f.current.solution).start s = (.error e, t)) : meeting? s = none := by
  simp only [meeting?, hf, hn]

theorem meeting?_of_ok {s t : Search α σ τ ρ} {f : Found α τ ρ} {c : Candidate α τ ρ}
    (hf : s.progress.found? = some f)
    (hn : (neighbor f.current.solution).start s = (.ok c, t)) :
    meeting? s = some
      { found := f
        candidate := { c with solution := c.solution.evaluated }
        sample := t.source.sample.1
        verdict := verdict t.strategy t.source.sample.1 f.current.solution
          c.solution.evaluated } := by
  simp only [meeting?, hf, hn]

theorem found_of_meeting {s : Search α σ τ ρ} {m : Meeting α τ ρ} (h : meeting? s = some m) :
    s.progress.found? = some m.found := by
  cases hf : s.progress.found? with
  | none => simp [meeting?_of_none hf] at h
  | some f =>
    rcases hn : (neighbor f.current.solution).start s with ⟨r, t⟩
    cases r with
    | error e => simp [meeting?_of_error hf hn] at h
    | ok c =>
      rw [meeting?_of_ok hf hn] at h
      cases h
      rfl

theorem verdict_of_error {strategy : σ} {sample : Scalar α} {current candidate : Solution α τ ρ}
    {e : Fault} (h : candidate.costValue = .error e) :
    verdict strategy sample current candidate.evaluated = .error e := by
  simp only [verdict, Solution.isBetterThan, Solution.compare, Solution.costValue_evaluated, h]
  rfl

private theorem undecided {s : Search α σ τ ρ} {m : Meeting α τ ρ} (hm : meeting? s = some m)
    {e : Fault} (hv : m.verdict = .error e) : progressAfter s = s.progress := by
  have haccepted : m.isAccepted = false := by rw [Meeting.isAccepted, hv]
  rw [progressAfter, hm]
  simp only [Meeting.after_of_not_accepted haccepted]
  exact Progress.holding_found (found_of_meeting hm)

/-- A source that a trial may leave behind: nothing may be drawn, or a candidate alone, or a
sample for the decision on it as well. -/
def MayLeave (s : Search α σ τ ρ) (source : Source α) : Prop :=
  source = s.source ∨
    ∃ near, source = sourceAfter near s ∨ source = (sourceAfter near s).sample.2

theorem start_trial_state (b : Batch α) (s : Search α σ τ ρ) :
    ∃ source trials, ((trial b).start s).2 =
      { s with source := source, trials := trials, progress := progressAfter s } ∧
        MayLeave s source := by
  rw [trial, Attempt.start_bind_ok (Attempt.start_get s)]
  cases hf : s.progress.found? with
  | none =>
    refine ⟨s.source, s.trials, ?_, Or.inl rfl⟩
    rw [progressAfter, meeting?_of_none hf]
    rfl
  | some f =>
    rcases hn : (neighbor f.current.solution).start s with ⟨r, t⟩
    have ht := neighbor_state hn
    have hleaves : MayLeave s t.source := by
      rw [ht]
      exact Or.inr ⟨_, Or.inl rfl⟩
    cases r with
    | error e =>
      refine ⟨t.source, s.trials + 1, ?_, hleaves⟩
      rw [Attempt.start_bind_error hn, progressAfter, meeting?_of_error hf hn, ht]
    | ok c =>
      have hm := meeting?_of_ok hf hn
      have hfound : t.progress.found? = some f := by
        rw [ht]
        exact hf
      rw [Attempt.start_bind_ok hn]
      cases hc : c.solution.costValue with
      | error e =>
        refine ⟨t.source, s.trials + 1, ?_, hleaves⟩
        rw [undecided hm (verdict_of_error hc), Attempt.start_bind_error (Attempt.start_lift _ _), ht]
      | ok cost =>
        rw [Attempt.start_bind_ok (Attempt.start_lift _ _)]
        rcases ha : (assess f.current.solution c.solution.evaluated).start t with ⟨v, u⟩
        obtain ⟨hv, hu⟩ := start_assess f.current.solution c.solution.evaluated t
        simp only [ha] at hv hu
        obtain ⟨hsource, hleaves⟩ :
            u = { t with source := u.source } ∧ MayLeave s u.source := by
          rcases hu with rfl | rfl
          · exact ⟨rfl, hleaves⟩
          · refine ⟨rfl, ?_⟩
            rw [ht]
            exact Or.inr ⟨_, Or.inr rfl⟩
        refine ⟨u.source, s.trials + 1, ?_, hleaves⟩
        cases v with
        | error e =>
          rw [undecided hm hv.symm, Attempt.start_bind_error ha]
          exact hsource.trans (by rw [ht])
        | ok reason =>
          have hufound : u.progress.found? = some f := by
            rw [hsource]
            exact hfound
          rw [← hv] at hm
          rw [Attempt.start_bind_ok ha, progressAfter, hm]
          have hdecided := start_decided (m := ⟨f, { c with solution := c.solution.evaluated },
            t.source.sample.1, .ok reason⟩) rfl hufound ⟨b.accepted || reason.accepts, reason, cost⟩
          rw [hdecided]
          generalize u.source = source at *
          rw [hsource, ht]

theorem candidate_of_meeting {s : Search α σ τ ρ} {m : Meeting α τ ρ} (h : meeting? s = some m) :
    ∃ c source,
      (s.landscape.neighbor (s.trials + 1) m.found.current.solution).start s.source =
        (.ok c, source) ∧ m.candidate = ⟨s.trials + 1, c.evaluated⟩ ∧
          m.sample = source.sample.1 := by
  cases hf : s.progress.found? with
  | none => simp [meeting?_of_none hf] at h
  | some f =>
    rcases hn : (neighbor f.current.solution).start s with ⟨r, t⟩
    cases r with
    | error e => simp [meeting?_of_error hf hn] at h
    | ok c =>
      rw [meeting?_of_ok hf hn] at h
      cases h
      rw [start_neighbor] at hn
      rcases hx : (s.landscape.neighbor (s.trials + 1) f.current.solution).start s.source with
        ⟨a, source⟩
      rw [hx] at hn
      cases a with
      | error e => cases hn
      | ok a =>
        cases hn
        exact ⟨a, source, rfl, rfl, rfl⟩

theorem verdict_of_meeting {s : Search α σ τ ρ} {m : Meeting α τ ρ} (h : meeting? s = some m) :
    m.verdict = verdict s.strategy m.sample m.found.current.solution m.candidate.solution := by
  cases hf : s.progress.found? with
  | none => simp [meeting?_of_none hf] at h
  | some f =>
    rcases hn : (neighbor f.current.solution).start s with ⟨r, t⟩
    have ht := neighbor_state hn
    cases r with
    | error e => simp [meeting?_of_error hf hn] at h
    | ok c =>
      rw [meeting?_of_ok hf hn] at h
      cases h
      rw [ht]

theorem verdict_of_better {strategy : σ} {sample : Scalar α} {current candidate : Solution α τ ρ}
    (h : candidate.isBetterThan current = .ok true) :
    verdict strategy sample current candidate = .ok .better := by
  rw [verdict, h]
  rfl

theorem verdict_of_not_better {strategy : σ} {sample : Scalar α}
    {current candidate : Solution α τ ρ} (h : candidate.isBetterThan current = .ok false) :
    verdict strategy sample current candidate =
      (Strategy.acceptance strategy candidate current >>= (weigh · sample)) := by
  rw [verdict, h]
  rfl

theorem trial_answer {b c : Batch α} {s t : Search α σ τ ρ} (h : (trial b).start s = (.ok c, t)) :
    (s.progress.found? = none ∧ c = b) ∨
      ∃ m reason cost, meeting? s = some m ∧ m.verdict = .ok reason ∧
        m.candidate.solution.costValue = .ok cost ∧
        c = ⟨b.accepted || reason.accepts, reason, cost⟩ := by
  rw [trial, Attempt.start_bind_ok (Attempt.start_get s)] at h
  cases hf : s.progress.found? with
  | none =>
    rw [hf] at h
    cases h
    exact Or.inl ⟨rfl, rfl⟩
  | some f =>
    rw [hf] at h
    obtain ⟨met, t₁, hn, h⟩ := Attempt.exists_of_start_bind h
    obtain ⟨cost, hc, h⟩ := Attempt.exists_of_start_lift_bind h
    obtain ⟨reason, u, ha, h⟩ := Attempt.exists_of_start_bind h
    have hv := (start_assess f.current.solution met.solution.evaluated t₁).1
    rw [ha] at hv
    refine Or.inr ⟨_, reason, cost, meeting?_of_ok hf hn, hv.symm, ?_, ?_⟩
    · rw [Solution.costValue_evaluated]
      exact hc
    · cases hr : reason.accepts with
      | false =>
        simp only [hr, Bool.false_eq_true, if_false] at h
        cases h
        rfl
      | true =>
        simp only [hr, if_true] at h
        obtain ⟨_, _, -, h⟩ := Attempt.exists_of_start_bind h
        cases h
        rfl

end Search

end AssignmentSearch
