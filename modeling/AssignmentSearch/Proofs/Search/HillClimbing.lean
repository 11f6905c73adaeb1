import AssignmentSearch.Proofs.Search.NearOptimal
import AssignmentSearch.Proofs.Search.Steps

/-!
# Gravity climbs

Under gravity the current solution never parts from the best one: what is better than the one is
better than the other. So every candidate that is taken lowers the cost by more than the tolerance,
and of such candidates there are no more than the descent from the first cost has room for.
-/

namespace AssignmentSearch

open LawfulQuantity Event

variable {α σ τ ρ : Type} [Quantity α]

theorem Meeting.after_current_of_accepted {m : Meeting α τ ρ} (h : m.isAccepted = true) :
    m.after.current = m.candidate := by
  rcases m.after_cases with ⟨hleft, -⟩ | ⟨-, -, hafter⟩ | ⟨-, -, hafter⟩
  · rw [hleft] at h
    cases h
  · rw [hafter]
  · rw [hafter]

/-- An answered step reports on the candidates met between what is held once the search has begun and
what is held in the end. -/
theorem Search.report_of_step [Strategy α σ] [Acceptance α σ (Solution α τ ρ)] [Printed α]
    [ToString τ] [ToString ρ]
    {r t : Running α σ τ ρ} {o : Outcome α} (h : step.start r = (.ok o, t)) :
    ∃ u f g, start.start r = (.ok (), u) ∧ u.1.progress.found? = some f ∧
      step.start u = (.ok o, t) ∧ stepLog u = stepLog r ∧ t.1.progress.found? = some g ∧
        Report f g (metIn (stepLog r)) o := by
  obtain ⟨u, f, hstart, hf, hstep⟩ := searching_of_step_ok h
  have hfound : u.1.progress.found? = some f := by rw [hf]; rfl
  have hlog := (step_of_start hstart hfound).2
  have hmet := metIn_stepLog hf
  have hadvance := hstep
  rw [step_of_searching hf] at hadvance
  rcases hx : (advance f).start u.1 with ⟨_ | o', v⟩
  · rw [hx] at hadvance
    cases hadvance
  · rw [hx] at hadvance
    obtain ⟨rfl, time, ht⟩ := conclude_ok hadvance
    obtain ⟨g, hg, hreport⟩ := (advance_answer hf hx).report
    refine ⟨u, f, g, hstart, hfound, hstep, hlog.symm, ?_, ?_⟩
    · rw [ht]
      dsimp only
      split
      · rwa [Progress.found?_finish]
      · exact hg
    · rwa [hlog, hmet]

variable [LawfulQuantity α]

/-- A meeting of strict hill climbing: one solution is the current and the best one before it and
after it, and the candidate is taken if and only if it is better. -/
structure Meeting.Climbs (m : Meeting α τ ρ) : Prop where
  before : m.found.current = m.found.best
  after : m.after.current = m.after.best
  accepted : m.isAccepted = true ↔
    m.candidate.solution.isBetterThan m.found.current.solution = .ok true
  lower : m.isAccepted = true →
    m.candidate.solution.level + slack α < m.found.current.solution.level

/-- What hill climbing has come to. The number of candidates taken is bounded by the descent. -/
structure Climb (l : List (Event α τ ρ)) (f : Found α τ ρ) (first : Solution α τ ρ) : Prop where
  meetings : ∀ m ∈ metIn l, m.Climbs
  outcomes : ∀ o ∈ toldIn l, o.cost = o.bestCost
  descent : (metIn l).countP (·.isAccepted) = 0 ∨
    f.current.solution.level + (metIn l).countP (·.isAccepted) * slack α < first.level

theorem Climb.met {l : List (Event α τ ρ)} {first : Solution α τ ρ} {m : Meeting α τ ρ}
    (h : Climb l m.found first) (hclimbs : m.Climbs)
    (hle : m.found.current.solution.level ≤ first.level) : Climb (l ++ [.met m]) m.after first where
  meetings := by
    intro n hn
    rcases mem_metIn_snoc.mp hn with hn | rfl
    · exact h.meetings n hn
    · exact hclimbs
  outcomes := by
    rw [toldIn_snoc_met]
    exact h.outcomes
  descent := by
    have hmet : metIn (l ++ [.met m]) = metIn l ++ [m] := metIn_append l [.met m]
    rw [hmet, List.countP_append, List.countP_singleton]
    cases haccepted : m.isAccepted with
    | false =>
      rw [if_neg Bool.false_ne_true, Nat.add_zero, Meeting.after_of_not_accepted haccepted]
      exact h.descent
    | true =>
      have hlower := hclimbs.lower haccepted
      rw [if_pos rfl, Meeting.after_current_of_accepted haccepted]
      refine Or.inr ?_
      push_cast
      rcases h.descent with hnone | hdescent
      · rw [hnone]
        push_cast
        linarith
      · linarith

theorem lasting_climb : Lasting fun (l : List (Event α τ ρ)) f first =>
    first.HasFiniteCost → FiniteCosts l → (∀ m ∈ metIn l, m.TakesBetter ∧ m.LeavesNotBetter) →
      (Tracks l f first ∧ f.current = f.best ∧
        ∀ m ∈ metIn l, NotBelow α m.candidate.solution.level f.best.solution.level) ∧
      Climb l f first where
  met := by
    intro l m first h hfirst hl hG
    have hm : m ∈ metIn (l ++ [.met m]) := mem_metIn_snoc.mpr (Or.inr rfl)
    have hnext := lasting_gravity.met (fun hfirst hl hG => (h hfirst hl hG).1) hfirst hl hG
    obtain ⟨⟨htracks, hsame, -⟩, hclimb⟩ :=
      h hfirst hl.of_append fun n hn => hG n (mem_metIn_snoc.mpr (Or.inl hn))
    have hcosts : m.HasFiniteCosts :=
      ⟨hl m hm, htracks.current.hasFiniteCost hfirst hl.of_append⟩
    obtain ⟨htakes, hleaves⟩ := hG m hm
    have hclimbs : m.Climbs := by
      refine ⟨hsame, hnext.2.1, ⟨htakes hcosts, fun hbetter => ?_⟩, fun haccepted =>
        Solution.level_add_slack_lt hcosts.1 hcosts.2 (htakes hcosts haccepted)⟩
      by_contra hleft
      rw [hleaves hcosts (by simpa using hleft)] at hbetter
      cases hbetter
    refine ⟨hnext, hclimb.met hclimbs ?_⟩
    rw [hsame]
    exact htracks.level_le
  told := by
    intro l f g first ms o hf h ho hfirst hl hG
    have hnext := lasting_gravity.told (fun hfirst hl hG => (hf hfirst hl hG).1)
      (fun hfirst hl hG => (h hfirst hl hG).1) ho hfirst hl hG
    rw [metIn_snoc_told] at hG
    obtain ⟨⟨-, hsame, -⟩, hclimb⟩ := h hfirst hl.of_append hG
    refine ⟨hnext, ?_, fun p hp => ?_, ?_⟩
    · rw [metIn_snoc_told]
      exact hclimb.meetings
    · rcases mem_toldIn_snoc.mp hp with hp | rfl
      · exact hclimb.outcomes p hp
      · have hcost := ho.cost
        rw [hsame, ho.bestCost] at hcost
        exact (Except.ok.inj hcost).symm
    · rw [metIn_snoc_told]
      exact hclimb.descent

section Samples

omit [LawfulQuantity α] in
theorem gravity_acceptance {β : Type} [Costed α β] {p : Plan α} (hp : p.IsGravity)
    (candidate current : β) :
    Strategy.acceptance p candidate current = .ok (.real Quantity.zero) := by
  obtain ⟨g, rfl⟩ := hp
  rfl

theorem start_assess_of_gravity {s : Search α (Plan α) τ ρ} (hplan : s.strategy.IsGravity)
    (current candidate : Solution α τ ρ) :
    ((Search.assess current candidate).start s).2 = s := by
  cases hbetter : candidate.isBetterThan current with
  | error e =>
    rw [Search.assess, hbetter]
    rfl
  | ok isBetter =>
    cases isBetter with
    | true =>
      rw [Search.assess, hbetter]
      rfl
    | false =>
      have hzero : (Scalar.real (Quantity.zero : α)).isAtMostZero = .ok true := by
        rw [Scalar.isAtMostZero_real,
          decide_eq_true ((le_iff isFinite_zero isFinite_zero).mpr le_rfl)]
      rw [Search.start_assess_of_not_better hbetter (gravity_acceptance hplan _ _) hzero]
      rfl

theorem source_trial_of_gravity {s : Search α (Plan α) τ ρ} (hplan : s.strategy.IsGravity)
    {f : Found α τ ρ} (hf : s.progress.found? = some f) (b : Batch α) :
    ((Search.trial b).start s).2.source = Search.sourceAfter f.current.solution s := by
  rw [Search.trial, Attempt.start_bind_ok (Attempt.start_get s), hf]
  dsimp only
  rcases hn : (Search.neighbor f.current.solution).start s with ⟨_ | c, t⟩
  · rw [Attempt.start_bind_error hn, Search.neighbor_state hn]
  · have ht := Search.neighbor_state hn
    have hsource : t.source = Search.sourceAfter f.current.solution s := by rw [ht]
    have hplan' : t.strategy.IsGravity := by
      rw [ht]
      exact hplan
    rw [Attempt.start_bind_ok hn]
    cases c.solution.costValue with
    | error e => exact hsource
    | ok cost =>
      rw [Attempt.start_bind_ok (Attempt.start_lift _ _)]
      obtain ⟨verdict, hassess⟩ : ∃ verdict,
          (Search.assess f.current.solution c.solution.evaluated).start t = (verdict, t) :=
        ⟨_, Prod.ext rfl (start_assess_of_gravity hplan' _ _)⟩
      cases verdict with
      | error e =>
        rw [Attempt.start_bind_error hassess]
        exact hsource
      | ok reason =>
        rw [Attempt.start_bind_ok hassess]
        by_cases haccepts : reason.accepts = true
        · rw [if_pos haccepts, Attempt.start_bind, Search.start_take]
          cases c.solution.evaluated.isBetterThan f.best.solution <;> exact hsource
        · rw [if_neg haccepts]
          exact hsource

end Samples

variable [Printed α] [ToString τ] [ToString ρ] {r : Running α (Plan α) τ ρ}

theorem climb_of_run {calls : List Call} (hfresh : r.1.progress = .fresh)
    (hplan : r.1.strategy.IsGravity) (hfinite : FiniteRun calls r) {f : Found α τ ρ}
    (hf : (Call.after calls r).1.progress.found? = some f) :
    ∃ first, (Call.after calls r).1.kept = some first ∧ first.HasFiniteCost ∧
      Tracks (Call.logs calls r) f first ∧ f.current = f.best ∧
        Climb (Call.logs calls r) f first := by
  have htakes := ((kept_verdicts Plan.IsGravity.age fun hI hv =>
    And.intro (takesBetter_of_verdict hI hv) (leavesNotBetter_of_verdict hv)).run calls
    (r := r) ⟨hplan, by simp⟩).2
  obtain ⟨first, hkept, hfirst, ⟨htracks, hsame, -⟩, hclimb⟩ := run_of_lasting lasting_climb
    (fun _ hfirst => ⟨⟨Tracks.begin hfirst, rfl, by simp⟩, ⟨by simp, by simp, Or.inl rfl⟩⟩)
    hfresh hfinite htakes hf
  exact ⟨first, hkept, hfirst, htracks, hsame, hclimb⟩

/-- The meetings and outcomes of a run are those of hill climbing, whether it has begun or not. -/
theorem climbs_of_run {calls : List Call} (hfresh : r.1.progress = .fresh)
    (hplan : r.1.strategy.IsGravity) (hfinite : FiniteRun calls r) :
    (∀ m ∈ Call.meetings calls r, m.Climbs) ∧
      (Call.outcomes calls r).Pairwise fun o p => p.cost ≤ o.cost := by
  rcases Call.logs_eq_nil_or_found calls hfresh with hnil | ⟨f, hf⟩
  · rw [Call.meetings, Call.outcomes, hnil]
    exact ⟨by simp, List.Pairwise.nil⟩
  · obtain ⟨first, -, -, htracks, -, hclimb⟩ := climb_of_run hfresh hplan hfinite hf
    refine ⟨hclimb.meetings, htracks.told.imp_of_mem fun ho hp hle => ?_⟩
    rw [hclimb.outcomes _ ho, hclimb.outcomes _ hp]
    exact (le_iff (htracks.isFinite _ hp) (htracks.isFinite _ ho)).mpr hle

theorem step_of_climb {earlier : List Call} (hfresh : r.1.progress = .fresh)
    (hplan : r.1.strategy.IsGravity) (hfinite : FiniteRun (earlier ++ [.step]) r)
    {o : Outcome α} {t : Running α (Plan α) τ ρ}
    (hstep : Search.step.start (Call.after earlier r) = (.ok o, t)) :
    o.cost ≤ o.costBefore ∧
      (o.accepted = true ↔ ∃ m ∈ metIn (Search.stepLog (Call.after earlier r)),
        m.candidate.solution.isBetterThan m.found.current.solution = .ok true) := by
  obtain ⟨u, f, g, hstart, hf, hagain, hlog, hg, hreport⟩ := Search.report_of_step hstep
  -- The search might as well have been started before the step.
  have hu : Call.after (earlier ++ [.start]) r = u := by
    rw [Call.after_append, Call.after, Call.after, Call.run, hstart]
  have ht : Call.after (earlier ++ [.step]) r = t := by
    rw [Call.after_append, Call.after, Call.after, Call.run, Attempt.start_bind, hstep]
    rfl
  have ht' : Call.after ((earlier ++ [.start]) ++ [.step]) r = t := by
    rw [Call.after_append, hu, Call.after, Call.after, Call.run, Attempt.start_bind, hagain]
    rfl
  have hlogs : Call.logs ((earlier ++ [.start]) ++ [.step]) r = Call.logs (earlier ++ [.step]) r := by
    rw [Call.logs_append, Call.logs_append, Call.logs_append, hu]
    simp only [Call.logs, Call.log, List.append_nil, hlog]
  have hfinite' : FiniteRun ((earlier ++ [.start]) ++ [.step]) r := by
    rw [FiniteRun, hlogs, ht', ← ht]
    exact hfinite
  have hfu : (Call.after (earlier ++ [.start]) r).1.progress.found? = some f := by rw [hu, hf]
  have hgt : (Call.after ((earlier ++ [.start]) ++ [.step]) r).1.progress.found? = some g := by
    rw [ht', hg]
  constructor
  · obtain ⟨_, -, hfirst, htracks, hsame, -⟩ :=
      climb_of_run hfresh hplan (hfinite'.of_append hfu) hfu
    obtain ⟨_, -, hfirst', htracks', hsame', -⟩ := climb_of_run hfresh hplan hfinite' hgt
    have hcurrent := htracks.current.hasFiniteCost hfirst (hfinite'.of_append hfu).2
    have hcurrent' := htracks'.current.hasFiniteCost hfirst' hfinite'.2
    obtain ⟨hbefore, hlevel⟩ := Solution.value_of_cost hcurrent hreport.costBefore
    obtain ⟨hcost, hlevel'⟩ := Solution.value_of_cost hcurrent' hreport.cost
    have hle := best_level_antitone hfresh hfinite' hfu hgt
    rw [← hsame, ← hsame', hlevel, hlevel'] at hle
    exact (le_iff hcost hbefore).mpr hle
  · have hclimbs : ∀ m ∈ metIn (Search.stepLog (Call.after earlier r)), m.Climbs := by
      intro m hm
      refine (climbs_of_run hfresh hplan hfinite).1 m ?_
      rw [Call.meetings, Call.logs_append, mem_metIn_append]
      refine Or.inr ?_
      simpa only [Call.logs, Call.log, List.append_nil] using hm
    rw [hreport.accepted, List.any_eq_true]
    exact exists_congr fun m => and_congr_right fun hm => (hclimbs m hm).accepted

/-- Under gravity one solution is the current and the best one throughout. Its cost never rises. A
step is accepted if and only if it met a candidate better than the current solution of that moment;
each of these lowers the cost by more than the tolerance, so there are fewer of them than the
descent has tolerances, or none. No sample is drawn to decide on a candidate. -/
theorem gravity_climbs_strictly (calls : List Call) (r : Running α (Plan α) τ ρ)
    (hfresh : r.1.progress = .fresh) (hplan : r.1.strategy.IsGravity)
    (hfinite : FiniteRun calls r) :
    (∀ earlier later, calls = earlier ++ later → ∀ f,
      (Call.after earlier r).1.progress.found? = some f → f.current = f.best) ∧
    (∀ m ∈ Call.meetings calls r,
      m.found.current = m.found.best ∧ m.after.current = m.after.best) ∧
    (Call.outcomes calls r).Pairwise (fun o p => p.cost ≤ o.cost) ∧
    (∀ earlier later, calls = earlier ++ .step :: later → ∀ o t,
      Search.step.start (Call.after earlier r) = (.ok o, t) →
        o.cost ≤ o.costBefore ∧
          (o.accepted = true ↔ ∃ m ∈ metIn (Search.stepLog (Call.after earlier r)),
            m.candidate.solution.isBetterThan m.found.current.solution = .ok true)) ∧
    (∀ m ∈ Call.meetings calls r, m.isAccepted = true →
      m.candidate.solution.level + slack α < m.found.current.solution.level) ∧
    (∀ f first, (Call.after calls r).1.progress.found? = some f →
      (Call.after calls r).1.kept = some first →
        (Call.meetings calls r).countP (·.isAccepted) = 0 ∨
          (Call.meetings calls r).countP (·.isAccepted) * slack α <
            first.level - f.current.solution.level) ∧
    (Call.after calls r).1.strategy.IsGravity ∧
    (∀ s : Search α (Plan α) τ ρ, s.strategy.IsGravity →
      (∀ current candidate, ((Search.assess current candidate).start s).2 = s) ∧
        ∀ f b, s.progress.found? = some f →
          ((Search.trial b).start s).2.source = Search.sourceAfter f.current.solution s) := by
  obtain ⟨hclimbs, hcosts⟩ := climbs_of_run hfresh hplan hfinite
  refine ⟨?_, fun m hm => ⟨(hclimbs m hm).before, (hclimbs m hm).after⟩, hcosts, ?_,
    fun m hm => (hclimbs m hm).lower, ?_, ?_, fun s hs =>
      ⟨start_assess_of_gravity hs, fun f b hf => source_trial_of_gravity hs hf b⟩⟩
  · rintro earlier later rfl f hf
    obtain ⟨_, -, -, -, hsame, -⟩ := climb_of_run hfresh hplan (hfinite.of_append hf) hf
    exact hsame
  · rintro earlier later rfl o t hstep
    refine step_of_climb hfresh hplan ?_ hstep
    obtain ⟨f, hf⟩ := Search.found_of_step_ok hstep
    rw [List.append_cons] at hfinite
    refine hfinite.of_append (f := f) ?_
    rw [Call.after_append, Call.after, Call.after, Call.run, Attempt.start_bind, hstep]
    exact hf
  · intro f first hf hkept
    obtain ⟨first', hkept', -, -, -, hclimb⟩ := climb_of_run hfresh hplan hfinite hf
    rw [hkept] at hkept'
    cases hkept'
    exact hclimb.descent.imp_right lt_sub_iff_add_lt'.mpr
  · exact ((kept_verdicts (G := fun _ => True) Plan.IsGravity.age fun _ _ => trivial).run calls
      (r := r) ⟨hplan, by simp⟩).1

/-- Two of three candidates are taken, on the way from a cost of five to a cost of two. -/
theorem gravity_climbs_strictly_descent :
    let r := listedSearch (.gravity ⟨⟨0, 9⟩⟩) [(5 : Float), 3, 4, 2] 0.5
    (Call.meetings [.step, .step, .step] r).map (·.isAccepted) = [true, false, true] ∧
      (Call.outcomes [.step, .step, .step] r).map (·.cost) = [3, 3, 2] ∧
      (Call.outcomes [.step, .step, .step] r).Pairwise (fun o p => p.cost ≤ o.cost) ∧
      ∀ f, (Call.after [.step, .step, .step] r).1.progress.found? = some f →
        f.current = f.best := by
  have hcosts : ∀ c ∈ [(5 : Float), 3, 4, 2], Binary64.IsFinite c := by decide +kernel
  have hrun := gravity_climbs_strictly [.step, .step, .step]
    (listedSearch (.gravity ⟨⟨0, 9⟩⟩) [(5 : Float), 3, 4, 2] 0.5) rfl ⟨_, rfl⟩
    (finiteRun_listedSearch _ _ _ hcosts)
  exact ⟨by decide +kernel, by decide +kernel, hrun.2.2.1, hrun.1 _ [] rfl⟩

end AssignmentSearch
