import AssignmentSearch.Proofs.Search.Logs

/-!
# Invariants of runs

What holds of a search and of the log so far is shown once for each way in which a search changes:
it begins, meets a candidate, counts a step, ages its strategy, reports an outcome, ends, or adds to
its time. It then holds after any sequence of calls.
-/

namespace AssignmentSearch

variable {α σ τ ρ : Type} [Quantity α] [Strategy α σ] [Acceptance α σ (Solution α τ ρ)]

/-- What the outcome of a step says about the solutions held before and after it, `f` and `g`, and
about the meetings in between. -/
structure Report (f g : Found α τ ρ) (ms : List (Meeting α τ ρ)) (o : Outcome α) : Prop where
  costBefore : f.current.solution.costValue = .ok o.costBefore
  accepted : o.accepted = ms.any (·.isAccepted)
  last : ms = [] ∧ o.candidateCost = o.costBefore ∨
    ∃ init m, ms = init ++ [m] ∧ m.verdict = .ok o.reason ∧
      m.candidate.solution.costValue = .ok o.candidateCost
  cost : g.current.solution.costValue = .ok o.cost
  bestCost : g.best.solution.costValue = .ok o.bestCost

/-- What the outcome of a step says about it: `s` is the search before the step, `t` the one
after it. -/
structure Summary (f : Found α τ ρ) (s t : Search α σ τ ρ) (ms : List (Meeting α τ ρ))
    (o : Outcome α) : Prop where
  rounds : Search.rounds s.searches = .ok ms.length
  kept : t.kept = s.kept
  report : ∃ g, t.progress.found? = some g ∧ Report f g ms o
  iteration : o.iteration = t.steps
  done : Strategy.stops t.strategy = .ok o.done

/-- A property of the log and the search that every change of a search keeps. -/
structure Kept (P : List (Event α τ ρ) → Search α σ τ ρ → Prop) : Prop where
  fault : ∀ {l s e source}, P l s → s.progress = .fresh →
    (s.landscape.initial s.kept).start s.source = (.error e, source) →
      P l { s with source := source }
  begin : ∀ {l s first source}, P l s → s.progress = .fresh →
    (s.landscape.initial s.kept).start s.source = (.ok first, source) →
      P l { s with
        source := source
        kept := some first.evaluated
        progress := .searching ⟨⟨0, first.evaluated⟩, ⟨0, first.evaluated⟩⟩ }
  trial : ∀ {l s} (b : Batch α), P l s →
    P (l ++ (Search.meeting? s).toList.map .met) ((Search.trial b).start s).2
  count : ∀ {l s}, P l s → P l { s with steps := s.steps + 1 }
  age : ∀ {l s a}, P l s → Strategy.age s.strategy = .ok a → P l { s with strategy := a }
  told : ∀ {l f s t ms o}, P l s → s.progress = .searching f → P (l ++ ms.map .met) t →
    Summary f s t ms o → P (l ++ ms.map .met ++ [.told o]) t
  finish : ∀ {l s}, P l s → P l { s with progress := s.progress.finish }
  time : ∀ {l s} (x : α), P l s → P l { s with solveTime := x }

namespace Search

omit [Strategy α σ] in
theorem found?_trial {s : Search α σ τ ρ} {f : Found α τ ρ} (h : s.progress.found? = some f)
    (b : Batch α) : ∃ g, ((trial b).start s).2.progress.found? = some g := by
  obtain ⟨source, trials, ht, -⟩ := start_trial_state b s
  rw [ht, progressAfter]
  cases meeting? s with
  | none => exact ⟨f, h⟩
  | some m => exact ⟨m.after, Progress.found?_holding h _⟩

omit [Strategy α σ] in
theorem kept_trial (b : Batch α) (s : Search α σ τ ρ) : ((trial b).start s).2.kept = s.kept := by
  obtain ⟨source, trials, ht, -⟩ := start_trial_state b s
  rw [ht]

omit [Strategy α σ] in
theorem batch_answer {n : Nat} {b c : Batch α} {s t : Search α σ τ ρ} {f : Found α τ ρ}
    (hf : s.progress.found? = some f) (h : (batch n b).start s = (.ok c, t)) :
    (batchMeetings n b s).length = n ∧
      c.accepted = (b.accepted || (batchMeetings n b s).any (·.isAccepted)) ∧
      (batchMeetings n b s = [] ∧ c = b ∨
        ∃ init m, batchMeetings n b s = init ++ [m] ∧ m.verdict = .ok c.reason ∧
          m.candidate.solution.costValue = .ok c.candidateCost) ∧
      t.kept = s.kept ∧ ∃ g, t.progress.found? = some g := by
  induction n generalizing b s f with
  | zero =>
    cases h
    refine ⟨rfl, ?_, Or.inl ⟨rfl, rfl⟩, rfl, f, hf⟩
    simp [batchMeetings]
  | succ n ih =>
    obtain ⟨d, u, ht, h⟩ := Attempt.exists_of_start_bind h
    obtain ⟨g, hg⟩ := found?_trial hf b
    have hkept := kept_trial b s
    rw [ht] at hg hkept
    obtain ⟨hlen, hacc, hlast, hkept', hfound⟩ := ih hg h
    rcases trial_answer ht with ⟨hnone, -⟩ | ⟨m, reason, cost, hm, hv, hc, rfl⟩
    · rw [hf] at hnone
      cases hnone
    · have hms : batchMeetings (n + 1) b s =
          m :: batchMeetings n ⟨b.accepted || reason.accepts, reason, cost⟩ u := by
        rw [batchMeetings, hm, ht]
        rfl
      have hmacc : m.isAccepted = reason.accepts := by rw [Meeting.isAccepted, hv]
      rw [hms]
      refine ⟨by rw [List.length_cons, hlen], ?_, Or.inr ?_, hkept'.trans hkept, hfound⟩
      · rw [hacc, List.any_cons, hmacc, Bool.or_assoc]
      · rcases hlast with ⟨hnil, rfl⟩ | ⟨init, last, hinit, hverdict, hcost⟩
        · exact ⟨[], m, by rw [hnil]; rfl, hv, hc⟩
        · exact ⟨m :: init, last, by rw [hinit]; rfl, hverdict, hcost⟩

structure Turned (f : Found α τ ρ) (s t : Search α σ τ ρ) (o : Outcome α) (count : Nat) (b : Batch α)
    (u : Search α σ τ ρ) (a : σ) : Prop where
  costBefore : f.current.solution.costValue = .ok o.costBefore
  rounds : Search.rounds s.searches = .ok count
  batch : (Search.batch count ⟨false, .untried, o.costBefore⟩).start s = (.ok b, u)
  age : Strategy.age u.strategy = .ok a
  stops : Strategy.stops a = .ok o.done
  after : t = { u with steps := u.steps + 1, strategy := a }
  iteration : o.iteration = u.steps + 1
  answers : o.accepted = b.accepted ∧ o.reason = b.reason ∧ o.candidateCost = b.candidateCost
  cost : (u.progress.found?.getD f).current.solution.costValue = .ok o.cost
  bestCost : (u.progress.found?.getD f).best.solution.costValue = .ok o.bestCost

theorem exists_turned {f : Found α τ ρ} {s t : Search α σ τ ρ} {o : Outcome α}
    (h : (advance f).start s = (.ok o, t)) : ∃ count b u a, Turned f s t o count b u a := by
  rw [advance] at h
  obtain ⟨before, hbefore, h⟩ := Attempt.exists_of_start_lift_bind h
  rw [Attempt.start_bind_ok (Attempt.start_get s)] at h
  obtain ⟨count, hcount, h⟩ := Attempt.exists_of_start_lift_bind h
  obtain ⟨b, u, hbatch, h⟩ := Attempt.exists_of_start_bind h
  rw [Attempt.start_bind_ok (Attempt.start_modify _ _),
    Attempt.start_bind_ok (Attempt.start_get _)] at h
  obtain ⟨a, haged, h⟩ := Attempt.exists_of_start_lift_bind h
  rw [Attempt.start_bind_ok (Attempt.start_modify _ _),
    Attempt.start_bind_ok (Attempt.start_get _)] at h
  obtain ⟨done, hdone, h⟩ := Attempt.exists_of_start_lift_bind h
  obtain ⟨cost, hcost, h⟩ := Attempt.exists_of_start_lift_bind h
  obtain ⟨best, hbest, h⟩ := Attempt.exists_of_start_lift_bind h
  cases h
  exact ⟨count, b, u, a, hbefore, hcount, hbatch, haged, hdone, rfl, rfl, ⟨rfl, rfl, rfl⟩, hcost,
    hbest⟩

theorem Turned.start {f : Found α τ ρ} {s t : Search α σ τ ρ} {o : Outcome α} {count : Nat}
    {b : Batch α} {u : Search α σ τ ρ} {a : σ} (h : Turned f s t o count b u a) :
    (advance f).start s = (.ok o, t) := by
  obtain ⟨haccepted, hreason, hcandidate⟩ := h.answers
  rw [advance, h.costBefore, Attempt.start_bind_ok (Attempt.start_lift _ _),
    Attempt.start_bind_ok (Attempt.start_get s), h.rounds,
    Attempt.start_bind_ok (Attempt.start_lift _ _), Attempt.start_bind_ok h.batch,
    Attempt.start_bind_ok (Attempt.start_modify _ _), Attempt.start_bind_ok (Attempt.start_get _),
    h.age, Attempt.start_bind_ok (Attempt.start_lift _ _),
    Attempt.start_bind_ok (Attempt.start_modify _ _), Attempt.start_bind_ok (Attempt.start_get _),
    h.stops, Attempt.start_bind_ok (Attempt.start_lift _ _)]
  dsimp only
  rw [h.cost, Attempt.start_bind_ok (Attempt.start_lift _ _), h.bestCost,
    Attempt.start_bind_ok (Attempt.start_lift _ _), Attempt.start_pure, ← haccepted, ← hreason,
    ← hcandidate, h.after, ← h.iteration]

/-- The answer of a step and the state after it, once its trials have been carried out. -/
theorem advance_answer {f : Found α τ ρ} {s t : Search α σ τ ρ} {o : Outcome α}
    (hf : s.progress = .searching f) (h : (advance f).start s = (.ok o, t)) :
    Summary f s t (turnMeetings f s) o := by
  obtain ⟨count, b, u, a, hturned⟩ := exists_turned h
  have hfound : s.progress.found? = some f := by rw [hf]; rfl
  obtain ⟨hlen, hacc, hlast, hkept, g, hg⟩ := batch_answer hfound hturned.batch
  have hms : turnMeetings f s = batchMeetings count ⟨false, .untried, o.costBefore⟩ s := by
    simp only [turnMeetings, hturned.costBefore, hturned.rounds]
  have hcost := hturned.cost
  have hbest := hturned.bestCost
  obtain ⟨haccepted, hreason, hcandidate⟩ := hturned.answers
  rw [hg, Option.getD_some] at hcost hbest
  rw [hms, hturned.after]
  refine ⟨by rw [hlen, hturned.rounds], hkept, ⟨g, hg, hturned.costBefore, ?_, ?_, hcost, hbest⟩,
    hturned.iteration, hturned.stops⟩
  · rw [haccepted, hacc, Bool.false_or]
  · rw [hreason, hcandidate]
    rcases hlast with ⟨hnil, rfl⟩ | hlast
    · exact Or.inl ⟨hnil, rfl⟩
    · exact Or.inr hlast

end Search

namespace Kept

variable {P : List (Event α τ ρ) → Search α σ τ ρ → Prop}

theorem batch (hP : Kept P) (n : Nat) {l : List (Event α τ ρ)} {b : Batch α} {s : Search α σ τ ρ}
    (h : P l s) :
    P (l ++ (Search.batchMeetings n b s).map .met) ((Search.batch n b).start s).2 := by
  induction n generalizing l b s with
  | zero =>
    rw [Search.batchMeetings, List.map_nil, List.append_nil]
    exact h
  | succ n ih =>
    have htrial := hP.trial b h
    rw [Search.batch, Search.batchMeetings, List.map_append, ← List.append_assoc]
    rcases hx : (Search.trial b).start s with ⟨r, t⟩
    rw [hx] at htrial
    cases r with
    | error e =>
      rw [Attempt.start_bind_error hx, List.map_nil, List.append_nil]
      exact htrial
    | ok c =>
      rw [Attempt.start_bind_ok hx]
      exact ih htrial

private theorem aged (hP : Kept P) {β : Type} {l : List (Event α τ ρ)} {s : Search α σ τ ρ}
    {report : Search α σ τ ρ → Attempt (Search α σ τ ρ) β}
    (hreport : ∀ t : Search α σ τ ρ, ((report t).start t).2 = t) (h : P l s) :
    P l ((do
      modify fun s => { s with steps := s.steps + 1 }
      let a ← Attempt.lift (Strategy.age (← get).strategy)
      modify fun s => { s with strategy := a }
      report (← get) : Attempt (Search α σ τ ρ) β).start s).2 := by
  have hcount := hP.count h
  rw [Attempt.start_bind_ok (Attempt.start_modify _ _),
    Attempt.start_bind_ok (Attempt.start_get _)]
  cases ha : Strategy.age s.strategy with
  | error e =>
    rw [Attempt.start_bind_error (Attempt.start_lift _ _)]
    exact hcount
  | ok a =>
    rw [Attempt.start_bind_ok (Attempt.start_lift _ _),
      Attempt.start_bind_ok (Attempt.start_modify _ _),
      Attempt.start_bind_ok (Attempt.start_get _), hreport]
    exact hP.age hcount ha

theorem turn (hP : Kept P) {f : Found α τ ρ} {l : List (Event α τ ρ)} {s : Search α σ τ ρ}
    (h : P l s) :
    P (l ++ (Search.turnMeetings f s).map .met) ((Search.advance f).start s).2 := by
  have hnone : P (l ++ ([] : List (Meeting α τ ρ)).map Event.met) s := by simpa using h
  rw [Search.advance, Search.turnMeetings]
  cases hb : f.current.solution.costValue with
  | error e =>
    rw [Attempt.start_bind_error (Attempt.start_lift _ _)]
    exact hnone
  | ok before =>
    rw [Attempt.start_bind_ok (Attempt.start_lift _ _), Attempt.start_bind_ok (Attempt.start_get _)]
    cases hr : Search.rounds s.searches with
    | error e =>
      rw [Attempt.start_bind_error (Attempt.start_lift _ _)]
      exact hnone
    | ok count =>
      rw [Attempt.start_bind_ok (Attempt.start_lift _ _)]
      have hbatch := hP.batch count (b := ⟨false, .untried, before⟩) h
      rcases hx : (Search.batch count ⟨false, .untried, before⟩).start s with ⟨r, t⟩
      rw [hx] at hbatch
      cases r with
      | error e =>
        rw [Attempt.start_bind_error hx]
        exact hbatch
      | ok b =>
        rw [Attempt.start_bind_ok hx]
        refine hP.aged (fun u => ?_) hbatch
        simp only [Attempt.start_bind, Attempt.start_lift]
        cases Strategy.stops u.strategy with
        | error e => rfl
        | ok done =>
          cases hcost : (u.progress.found?.getD f).current.solution.costValue with
          | error e => rfl
          | ok cost => cases (u.progress.found?.getD f).best.solution.costValue <;> rfl

theorem advance (hP : Kept P) {f : Found α τ ρ} {l : List (Event α τ ρ)} {s : Search α σ τ ρ}
    (hf : s.progress = .searching f) (h : P l s) :
    P (l ++ Search.turnLog f s) ((Search.advance f).start s).2 := by
  have hturn := hP.turn (f := f) h
  rw [Search.turnLog, ← List.append_assoc]
  rcases hx : (Search.advance f).start s with ⟨r, t⟩
  rw [hx] at hturn
  cases r with
  | error e =>
    rw [List.append_nil]
    exact hturn
  | ok o => exact hP.told h hf hturn (Search.advance_answer hf hx)

theorem beginning (hP : Kept P) {l : List (Event α τ ρ)} {s : Search α σ τ ρ}
    (hf : s.progress = .fresh) (h : P l s) : P l (Search.begin.start s).2 := by
  rcases hx : (s.landscape.initial s.kept).start s.source with ⟨r, source⟩
  cases r with
  | error e =>
    rw [Search.begin_of_error hx]
    exact hP.fault h hf hx
  | ok first =>
    rw [Search.begin_of_ok hx]
    exact hP.begin h hf hx

end Kept

/-- A relation between the log, the solutions held and the first one that every meeting and every
outcome keeps. -/
structure Lasting (R : List (Event α τ ρ) → Found α τ ρ → Solution α τ ρ → Prop) : Prop where
  met : ∀ {l m first}, R l m.found first → R (l ++ [.met m]) m.after first
  told : ∀ {l f g first ms o}, R l f first → R (l ++ ms.map .met) g first → Report f g ms o →
    R (l ++ ms.map .met ++ [.told o]) g first

/-- A search that has begun and holds solutions that are related to the log. -/
def Lasts (R : List (Event α τ ρ) → Found α τ ρ → Solution α τ ρ → Prop) (l : List (Event α τ ρ))
    (s : Search α σ τ ρ) : Prop :=
  ∃ f first, s.progress.found? = some f ∧ s.kept = some first ∧ R l f first

/-- A search that has not begun and has no log, or one that holds related solutions. -/
def Holds (R : List (Event α τ ρ) → Found α τ ρ → Solution α τ ρ → Prop) (l : List (Event α τ ρ))
    (s : Search α σ τ ρ) : Prop :=
  s.progress = .fresh ∧ l = [] ∨ Lasts R l s

omit [Quantity α] [Strategy α σ] [Acceptance α σ (Solution α τ ρ)] in
theorem Lasts.not_fresh {R : List (Event α τ ρ) → Found α τ ρ → Solution α τ ρ → Prop}
    {l : List (Event α τ ρ)} {s : Search α σ τ ρ} (h : Lasts R l s) : s.progress ≠ .fresh := by
  rintro hfresh
  obtain ⟨f, first, hf, -⟩ := h
  rw [hfresh] at hf
  cases hf

namespace Lasting

variable {R : List (Event α τ ρ) → Found α τ ρ → Solution α τ ρ → Prop}

omit [Strategy α σ] in
theorem trial (hR : Lasting R) {l : List (Event α τ ρ)} {s : Search α σ τ ρ} (b : Batch α)
    (h : Lasts R l s) :
    Lasts R (l ++ (Search.meeting? s).toList.map .met) ((Search.trial b).start s).2 := by
  obtain ⟨f, first, hf, hkept, hrelated⟩ := h
  obtain ⟨source, trials, ht, -⟩ := Search.start_trial_state b s
  rw [ht, Search.progressAfter]
  cases hm : Search.meeting? s with
  | none =>
    rw [Option.toList_none, List.map_nil, List.append_nil]
    exact ⟨f, first, hf, hkept, hrelated⟩
  | some m =>
    have hfound := Search.found_of_meeting hm
    rw [hf] at hfound
    cases hfound
    exact ⟨m.after, first, Progress.found?_holding hf m.after, hkept, hR.met hrelated⟩

theorem kept (hR : Lasting R) : Kept (σ := σ) (Lasts R) where
  fault h hfresh _ := absurd hfresh h.not_fresh
  begin h hfresh _ := absurd hfresh h.not_fresh
  trial b h := hR.trial b h
  count h := h
  age h _ := h
  told := by
    rintro l f s t ms o ⟨f', first, hf', hkept, hbefore⟩ hf ⟨g, first', hg, hkept', hafter⟩ hsummary
    obtain ⟨g', hg', hreport⟩ := hsummary.report
    rw [hf] at hf'
    cases hf'
    rw [hg] at hg'
    cases hg'
    rw [hsummary.kept, hkept] at hkept'
    cases hkept'
    exact ⟨g, first, hg, hsummary.kept.trans hkept, hR.told hbefore hafter hreport⟩
  finish := by
    rintro l s ⟨f, first, hf, hkept, hrelated⟩
    exact ⟨f, first, (Progress.found?_finish _).trans hf, hkept, hrelated⟩
  time _ h := h

theorem kept_holds (hR : Lasting R)
    (hbegin : ∀ first, R [] ⟨⟨0, first⟩, ⟨0, first⟩⟩ first) : Kept (σ := σ) (Holds R) where
  fault := by
    rintro l s e source (h | h) hfresh -
    · exact Or.inl h
    · exact absurd hfresh h.not_fresh
  begin := by
    rintro l s first source (⟨-, rfl⟩ | h) hfresh -
    · exact Or.inr ⟨_, first.evaluated, rfl, rfl, hbegin _⟩
    · exact absurd hfresh h.not_fresh
  trial := by
    rintro l s b (⟨hfresh, rfl⟩ | h)
    · have hnone : Search.meeting? s = none := Search.meeting?_of_none (by rw [hfresh]; rfl)
      obtain ⟨source, trials, ht, -⟩ := Search.start_trial_state b s
      refine Or.inl ⟨?_, by rw [hnone]; rfl⟩
      rw [ht, Search.progressAfter, hnone]
      exact hfresh
    · exact Or.inr (hR.trial b h)
  count h := h
  age h _ := h
  told := by
    rintro l f s t ms o hs hf h hsummary
    rcases h with ⟨hfresh, -⟩ | h
    · obtain ⟨g, hg, -⟩ := hsummary.report
      rw [hfresh] at hg
      cases hg
    · rcases hs with ⟨hfresh, -⟩ | hs
      · rw [hfresh] at hf
        cases hf
      · exact Or.inr (hR.kept.told hs hf h hsummary)
  finish := by
    rintro l s (⟨hfresh, hl⟩ | h)
    · exact Or.inl ⟨by rw [hfresh]; rfl, hl⟩
    · exact Or.inr (hR.kept.finish h)
  time := by
    rintro l s x (h | h)
    · exact Or.inl h
    · exact Or.inr (hR.kept.time x h)

end Lasting

/-- What follows from a verdict under strategies of one sort holds of all meetings of a run. -/
theorem kept_verdicts {I : σ → Prop} {G : Meeting α τ ρ → Prop}
    (hage : ∀ {a b : σ}, I a → Strategy.age a = .ok b → I b)
    (hverdict : ∀ {strategy : σ} {m : Meeting α τ ρ}, I strategy →
      m.verdict = Search.verdict strategy m.sample m.found.current.solution m.candidate.solution →
        G m) :
    Kept fun l (s : Search α σ τ ρ) => I s.strategy ∧ ∀ m ∈ Event.metIn l, G m where
  fault h _ _ := h
  begin h _ _ := h
  trial := by
    rintro l s b ⟨hI, hl⟩
    obtain ⟨source, trials, ht, -⟩ := Search.start_trial_state b s
    rw [ht]
    refine ⟨hI, fun m hm => ?_⟩
    rw [Event.mem_metIn_append, Event.metIn_map_met, Option.mem_toList] at hm
    rcases hm with hm | hm
    · exact hl m hm
    · exact hverdict hI (Search.verdict_of_meeting hm)
  count h := h
  age h ha := ⟨hage h.1 ha, h.2⟩
  told := by
    rintro l f s t ms o - - ⟨hI, hl⟩ -
    refine ⟨hI, fun m hm => hl m ?_⟩
    rwa [Event.metIn_snoc_told] at hm
  finish h := h
  time _ h := h

end AssignmentSearch
