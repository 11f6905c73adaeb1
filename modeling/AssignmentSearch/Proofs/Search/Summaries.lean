import AssignmentSearch.Proofs.Search.HillClimbing

/-!
# What the summary of a step says

A step tells whether any of its candidates was taken, but the reason and the cost of the last
candidate alone. So the two agree if the last candidate was taken or none was, and always if there
is but one candidate; they part if an earlier candidate was taken and the last one was left.
-/

namespace AssignmentSearch

open LawfulQuantity Event

/-- A strategy that gives no chance to what is not better. -/
def Strategy.GivesNoChance {α σ : Type} (β : Type) [Quantity α] [Acceptance α σ β] (strategy : σ) :
    Prop :=
  ∀ candidate current : β,
    Strategy.acceptance strategy candidate current = .ok (.real Quantity.zero)

/-- The wordings of the two reasons to take a candidate. -/
def Reason.IsAcceptance (text : String) : Prop :=
  text = "candidate_better" ∨ ∃ chances, text = "candidate_worse_prob_accept" ++ chances

theorem getElem?_toList_append {p : String} (s : String) {i : Nat} (h : i < p.toList.length) :
    (p ++ s).toList[i]? = p.toList[i]? := by
  rw [String.toList_append, List.getElem?_append_left h]

/-- The eleventh letter tells the wordings apart. -/
theorem Reason.letter_of_isAcceptance {text : String} (h : IsAcceptance text) :
    text.toList[10]? = some 'b' ∨ text.toList[10]? = some 'w' := by
  obtain rfl | ⟨chances, rfl⟩ := h
  · exact Or.inl (by decide)
  · rw [getElem?_toList_append chances (by decide)]
    exact Or.inr (by decide)

theorem Reason.accepts_iff_text {α : Type} [Printed α] (r : Reason α) :
    r.accepts = true ↔ IsAcceptance r.text := by
  have hnone : ∀ {letter : Option Char}, r.text.toList[10]? = letter → letter ≠ some 'b' →
      letter ≠ some 'w' → ¬ IsAcceptance r.text := by
    rintro letter rfl hb hw h
    exact (letter_of_isAcceptance h).elim hb hw
  cases r with
  | better => exact iff_of_true rfl (Or.inl rfl)
  | lucky p x => exact iff_of_true rfl (Or.inr ⟨_, rfl⟩)
  | untried =>
    have hletter : (untried : Reason α).text.toList[10]? = none := rfl
    exact iff_of_false Bool.false_ne_true (hnone hletter (by decide) (by decide))
  | impossible =>
    have hletter : "probability_zero".toList[10]? = some 'y' := by decide
    exact iff_of_false Bool.false_ne_true (hnone hletter (by decide) (by decide))
  | unlucky p x =>
    have hletter : ("candidate_rejected" ++ chances p x).toList[10]? = some 'r' := by
      rw [getElem?_toList_append (chances p x) (by decide)]
      decide
    exact iff_of_false Bool.false_ne_true (hnone hletter (by decide) (by decide))

variable {α σ τ ρ : Type} [Quantity α] [Acceptance α σ (Solution α τ ρ)]

namespace Search

section Steps

variable [Strategy α σ] [Printed α] [ToString τ] [ToString ρ]

omit [Quantity α] [Acceptance α σ (Solution α τ ρ)] in
theorem searches_of_start {r t : Running α σ τ ρ} (h : start.start r = (.ok (), t)) :
    t.1.searches = r.1.searches := by
  cases hf : r.1.progress.found? with
  | none =>
    obtain ⟨first, source, stop, -, -, -, ht⟩ := start_ok (Progress.fresh_of_found? hf) h
    rw [ht]
  | some f =>
    rw [start_of_found hf] at h
    cases h
    rfl

theorem batch_of_step {r t : Running α σ τ ρ} {o : Outcome α} (h : step.start r = (.ok o, t)) :
    ∃ u f g, start.start r = (.ok (), u) ∧ u.1.progress.found? = some f ∧
      rounds r.1.searches = .ok (metIn (stepLog r)).length ∧
        metIn (stepLog r) =
          batchMeetings (metIn (stepLog r)).length ⟨false, .untried, o.costBefore⟩ u.1 ∧
        Report f g (metIn (stepLog r)) o := by
  obtain ⟨u, f, hstart, hf, hstep⟩ := searching_of_step_ok h
  have hfound : u.1.progress.found? = some f := by rw [hf]; rfl
  have hmet : metIn (stepLog r) = turnMeetings f u.1 := by
    rw [(step_of_start hstart hfound).2, metIn_stepLog hf]
  rw [step_of_searching hf] at hstep
  rcases hx : (advance f).start u.1 with ⟨_ | o', v⟩
  · rw [hx] at hstep
    cases hstep
  · rw [hx] at hstep
    obtain ⟨rfl, -⟩ := conclude_ok hstep
    have hsummary := advance_answer hf hx
    obtain ⟨g, -, hreport⟩ := hsummary.report
    rw [← hmet] at hsummary hreport
    refine ⟨u, f, g, hstart, hfound, ?_, ?_, hreport⟩
    · rw [← searches_of_start hstart, hsummary.rounds]
    · conv_lhs => rw [hmet]
      simp only [turnMeetings, hreport.costBefore, hsummary.rounds]

end Steps

theorem mem_batchMeetings_succ {n : Nat} {b : Batch α} {s : Search α σ τ ρ}
    {m : Meeting α τ ρ} : m ∈ batchMeetings (n + 1) b s ↔ meeting? s = some m ∨
      ∃ c t, (trial b).start s = (.ok c, t) ∧ m ∈ batchMeetings n c t := by
  rw [batchMeetings, List.mem_append, Option.mem_toList]
  refine or_congr_right ?_
  rcases (trial b).start s with ⟨e | c, t⟩
  · exact iff_of_false List.not_mem_nil (by rintro ⟨c, t, h, -⟩; cases h)
  · exact ⟨fun h => ⟨c, t, rfl, h⟩, by rintro ⟨c, t, h, hm⟩; cases h; exact hm⟩

variable [LawfulQuantity α]

theorem takesBetter_of_no_chance {strategy : σ}
    (hchance : Strategy.GivesNoChance (Solution α τ ρ) strategy) {m : Meeting α τ ρ}
    (hv : m.verdict =
      verdict strategy m.sample m.found.current.solution m.candidate.solution) :
    m.TakesBetter := by
  rintro ⟨hcandidate, hcurrent⟩ htaken
  refine (Solution.isBetterThan_or hcandidate hcurrent).resolve_right fun hnot => ?_
  have hleft : m.verdict = .ok .impossible := by
    rw [hv, verdict_of_not_better hnot, hchance]
    exact weigh_zero m.sample
  rw [Meeting.isAccepted, hleft] at htaken
  cases htaken

theorem level_after_le {m : Meeting α τ ρ} (hbetter : m.TakesBetter) (hcosts : m.HasFiniteCosts) :
    m.after.current.solution.level ≤ m.found.current.solution.level := by
  cases htaken : m.isAccepted with
  | false => rw [Meeting.after_of_not_accepted htaken]
  | true =>
    have hlower := Solution.level_add_slack_lt hcosts.1 hcosts.2 (hbetter hcosts htaken)
    rw [Meeting.after_current_of_accepted htaken]
    have hslack := slack_pos (α := α)
    linarith

/-- Under a strategy without chances a batch never climbs above the solution that it begins with. -/
theorem level_le_of_batch {n : Nat} {b : Batch α} {s : Search α σ τ ρ} {f : Found α τ ρ}
    (hchance : Strategy.GivesNoChance (Solution α τ ρ) s.strategy) (hf : s.progress.found? = some f)
    (hcurrent : f.current.solution.HasFiniteCost)
    (hcandidates : ∀ m ∈ batchMeetings n b s, m.candidate.solution.HasFiniteCost) :
    ∀ m ∈ batchMeetings n b s, m.TakesBetter ∧ m.HasFiniteCosts ∧
      m.found.current.solution.level ≤ f.current.solution.level := by
  induction n generalizing b s f with
  | zero => simp [batchMeetings]
  | succ n ih =>
    have hmeeting : ∀ m, meeting? s = some m →
        m.TakesBetter ∧ m.HasFiniteCosts ∧ m.found = f := by
      intro m hm
      have hfound := found_of_meeting hm
      rw [hf, Option.some.injEq] at hfound
      have hcandidate := hcandidates m (mem_batchMeetings_succ.mpr (Or.inl hm))
      exact ⟨takesBetter_of_no_chance hchance (verdict_of_meeting hm),
        ⟨hcandidate, hfound ▸ hcurrent⟩, hfound.symm⟩
    intro m hm
    rcases mem_batchMeetings_succ.mp hm with hmet | ⟨c, t, ht, hm⟩
    · obtain ⟨hbetter, hcosts, hsame⟩ := hmeeting m hmet
      exact ⟨hbetter, hcosts, by rw [hsame]⟩
    · obtain ⟨source, trials, hstate, -⟩ := start_trial_state b s
      rw [ht] at hstate
      dsimp only at hstate
      -- What the trial holds afterwards is no higher than what it held before.
      obtain ⟨g, hg, hgcurrent, hle⟩ : ∃ g, t.progress.found? = some g ∧
          g.current.solution.HasFiniteCost ∧
            g.current.solution.level ≤ f.current.solution.level := by
        rw [hstate, progressAfter]
        cases hmet : meeting? s with
        | none => exact ⟨f, hf, hcurrent, le_rfl⟩
        | some m₀ =>
          obtain ⟨hbetter, hcosts, rfl⟩ := hmeeting m₀ hmet
          refine ⟨m₀.after, Progress.found?_holding hf _, ?_, level_after_le hbetter hcosts⟩
          rcases m₀.after_current with hafter | hafter <;> rw [hafter]
          · exact hcosts.1
          · exact hcosts.2
      obtain ⟨hbetter, hcosts, hlevel⟩ := ih (by rw [hstate]; exact hchance) hg hgcurrent
        (fun m' hm' => hcandidates m' (mem_batchMeetings_succ.mpr (Or.inr ⟨c, t, ht, hm'⟩))) m hm
      exact ⟨hbetter, hcosts, hlevel.trans hle⟩

variable [Strategy α σ] [Printed α] [ToString τ] [ToString ρ]

theorem left_of_step {r t : Running α σ τ ρ} {o : Outcome α}
    (hstep : step.start r = (.ok o, t)) (hchance : Strategy.GivesNoChance (Solution α τ ρ) r.1.strategy)
    (hbefore : IsFinite o.costBefore)
    (hcandidates : ∀ m ∈ metIn (stepLog r), m.candidate.solution.HasFiniteCost)
    {m : Meeting α τ ρ} (hm : m ∈ metIn (stepLog r)) {c : α}
    (hc : m.candidate.solution.costValue = .ok c) (hle : o.costBefore ≤ c) :
    m.isAccepted = false := by
  obtain ⟨u, f, g, hstart, hf, -, hbatch, hreport⟩ := batch_of_step hstep
  have hchance' : Strategy.GivesNoChance (Solution α τ ρ) u.1.strategy := by
    rw [(start_ok_keeps hstart).1]
    exact hchance
  have hcurrent : f.current.solution.HasFiniteCost := ⟨_, hreport.costBefore, hbefore⟩
  rw [hbatch] at hm hcandidates
  obtain ⟨hbetter, hcosts, hlevel⟩ := level_le_of_batch hchance' hf hcurrent hcandidates m hm
  obtain ⟨hcfinite, hclevel⟩ := Solution.value_of_cost hcosts.1 hc
  rw [Solution.level_of_cost hreport.costBefore] at hlevel
  rw [le_iff hbefore hcfinite, ← hclevel] at hle
  by_contra htaken
  have hlower := Solution.level_add_slack_lt hcosts.1 hcosts.2
    (hbetter hcosts (by simpa using htaken))
  have hslack := slack_pos (α := α)
  linarith

end Search

variable [LawfulQuantity α] [Strategy α σ] [Printed α] [ToString τ] [ToString ρ]

/-- The reason and the cost that a step tells are those of its last candidate, but it is accepted as
soon as any candidate was taken. So the reason is that of an acceptance if and only if the step is
accepted, unless the last candidate was left after another one was taken. Under gravity, too, a step
whose last candidate is no cheaper than the solution before it is accepted exactly if an earlier
candidate was taken, which cannot be if there is but one. -/
theorem summary_tells_of_last_candidate {r t : Running α σ τ ρ} {o : Outcome α} {k : Nat}
    (hrounds : Search.rounds r.1.searches = .ok k) (hk : 1 ≤ k)
    (hstep : Search.step.start r = (.ok o, t)) :
    ∃ earlier last, metIn (Search.stepLog r) = earlier ++ [last] ∧ earlier.length + 1 = k ∧
      last.verdict = .ok o.reason ∧
      last.candidate.solution.costValue = .ok o.candidateCost ∧
      (o.reason.accepts = true ↔ Reason.IsAcceptance o.reason.text) ∧
      (o.accepted = true ↔ o.reason.accepts = true ∨ ∃ m ∈ earlier, m.isAccepted = true) ∧
      ((o.accepted = true ↔ o.reason.accepts = true) ↔
        last.isAccepted = true ∨ ∀ m ∈ earlier, m.isAccepted = false) ∧
      (k = 1 → (o.accepted = true ↔ o.reason.accepts = true)) ∧
      (∀ state, ∃ rest, Recorder.columns state o =
        toString o.iteration :: Recorder.flag o.accepted :: o.reason.text :: rest) ∧
      (Strategy.GivesNoChance (Solution α τ ρ) r.1.strategy → IsFinite o.costBefore →
        (∀ m ∈ metIn (Search.stepLog r), m.candidate.solution.HasFiniteCost) →
          o.costBefore ≤ o.candidateCost →
            o.reason.accepts = false ∧
            (o.accepted = true ↔ ∃ m ∈ earlier, m.isAccepted = true) ∧
            (k = 1 → o.accepted = false)) ∧
      ∀ p : Plan α, p.IsGravity → Strategy.GivesNoChance (Solution α τ ρ) p := by
  obtain ⟨u, f, g, -, -, hlength, -, hreport⟩ := Search.batch_of_step hstep
  rw [hrounds, Except.ok.injEq] at hlength
  obtain ⟨hnil, -⟩ | ⟨earlier, last, hms, hverdict, hcost⟩ := hreport.last
  · rw [hnil, List.length_nil] at hlength
    omega
  have hcount : earlier.length + 1 = k := by rw [hlength, hms, List.length_append]; rfl
  have hlast : last.isAccepted = o.reason.accepts := by rw [Meeting.isAccepted, hverdict]
  have haccepted : o.accepted = true ↔
      o.reason.accepts = true ∨ ∃ m ∈ earlier, m.isAccepted = true := by
    rw [hreport.accepted, hms, List.any_append, Bool.or_eq_true, List.any_eq_true, or_comm]
    simp [hlast]
  have halone : k = 1 → earlier = [] := by
    intro hone
    exact List.eq_nil_of_length_eq_zero (by omega)
  have hagree : (o.accepted = true ↔ o.reason.accepts = true) ↔
      last.isAccepted = true ∨ ∀ m ∈ earlier, m.isAccepted = false := by
    rw [haccepted, hlast]
    by_cases hreason : o.reason.accepts = true
    · simp [hreason]
    · simp [hreason]
  refine ⟨earlier, last, hms, hcount, hverdict, hcost, o.reason.accepts_iff_text, haccepted, hagree,
    fun hone => hagree.mpr (Or.inr ?_), fun state => ⟨_, rfl⟩, ?_,
    fun p hp candidate current => gravity_acceptance hp candidate current⟩
  · rw [halone hone]
    simp
  · intro hchance hbefore hcandidates hle
    have hleft := Search.left_of_step hstep hchance hbefore hcandidates
      (by rw [hms]; exact List.mem_append_right _ (List.mem_singleton_self last)) hcost hle
    rw [hlast] at hleft
    have hearlier : o.accepted = true ↔ ∃ m ∈ earlier, m.isAccepted = true := by
      rw [haccepted, hleft]
      simp
    refine ⟨hleft, hearlier, fun hone => ?_⟩
    rw [halone hone] at hearlier
    simpa using hearlier

def twoAtOnce : Running Float (Plan Float) Nat Nat :=
  let r := listedSearch (.gravity ⟨⟨0, 4⟩⟩) [5, 3, 6] 0.5
  ({ r.1 with searches := .int 2 }, r.2)

/-- The first of two candidates is taken and the second one is left: the step is accepted, for the
reason that a candidate was impossible. -/
theorem summary_tells_of_last_candidate_twoAtOnce :
    ∃ o, (Search.step.start twoAtOnce).1 = .ok o ∧ o.accepted = true ∧
      o.reason.accepts = false ∧ ¬ Reason.IsAcceptance o.reason.text ∧
      o.costBefore ≤ o.candidateCost := by
  have hanswer : ((Search.step.start twoAtOnce).1.toOption.map fun o =>
      (o.accepted, o.reason.accepts, decide (o.costBefore ≤ o.candidateCost))) =
        some (true, false, true) := by decide +kernel
  rcases hx : Search.step.start twoAtOnce with ⟨e | o, t⟩
  · rw [hx] at hanswer
    cases hanswer
  · rw [hx] at hanswer
    have htold := Option.some.inj hanswer
    simp only [Prod.mk.injEq, decide_eq_true_iff] at htold
    obtain ⟨haccepted, hreason, hle⟩ := htold
    obtain ⟨_, _, -, -, -, -, htext, -⟩ := summary_tells_of_last_candidate (k := 2) rfl
      (by decide) hx
    refine ⟨o, rfl, haccepted, hreason, fun hacceptance => ?_, hle⟩
    rw [htext.mpr hacceptance] at hreason
    cases hreason

end AssignmentSearch
