import AssignmentSearch.Proofs.Search.BestSoFar
import AssignmentSearch.Proofs.Search.UnitSamples
import AssignmentSearch.Proofs.Strategy.Verdicts

/-!
# Runs at one cost

If every candidate costs as much as the solution it is near, the whole run stays at the cost of the
first solution. Nothing is better than it, so it remains the best one.
-/

namespace AssignmentSearch

open LawfulQuantity Event

variable {α σ τ ρ : Type} [Quantity α]

structure Steady (l : List (Event α τ ρ)) (f : Found α τ ρ) (first : Solution α τ ρ) : Prop where
  best : f.best = ⟨0, first⟩
  current : f.current.solution.costValue = first.costValue
  met : ∀ m ∈ metIn l,
    m.candidate.solution.costValue = first.costValue ∧ m.after.best = ⟨0, first⟩
  told : ∀ o ∈ toldIn l, ∀ c, first.costValue = .ok c →
    o.costBefore = c ∧ o.candidateCost = c ∧ o.cost = c ∧ o.bestCost = c

namespace Steady

variable {l : List (Event α τ ρ)} {f g : Found α τ ρ} {first : Solution α τ ρ}

theorem begin (first : Solution α τ ρ) : Steady [] ⟨⟨0, first⟩, ⟨0, first⟩⟩ first where
  best := rfl
  current := rfl
  met := by simp
  told := by simp

theorem tell {ms : List (Meeting α τ ρ)} {o : Outcome α} (hf : Steady l f first)
    (hg : Steady (l ++ ms.map .met) g first) (ho : Report f g ms o) :
    Steady (l ++ ms.map .met ++ [.told o]) g first := by
  refine ⟨hg.best, hg.current, ?_, fun p hp c hc => ?_⟩
  · rw [metIn_snoc_told]
    exact hg.met
  · rcases mem_toldIn_snoc.mp hp with hp | rfl
    · exact hg.told p hp c hc
    · have hunique : ∀ {x}, first.costValue = .ok x → x = c :=
        fun hx => Except.ok.inj (hx.symm.trans hc)
      have hbefore : p.costBefore = c := hunique (hf.current.symm.trans ho.costBefore)
      refine ⟨hbefore, ?_, hunique (hg.current.symm.trans ho.cost), ?_⟩
      · rcases ho.last with ⟨-, hlast⟩ | ⟨init, m, hms, -, hlast⟩
        · rw [hlast, hbefore]
        · have hm : m ∈ metIn (l ++ ms.map .met) := by
            rw [mem_metIn_append, metIn_map_met, hms]
            exact Or.inr (List.mem_append_right _ (List.mem_singleton_self m))
          exact hunique ((hg.met m hm).1.symm.trans hlast)
      · have hbest := ho.bestCost
        rw [hg.best] at hbest
        exact hunique hbest

end Steady

variable [LawfulQuantity α]

/-- The current solution has a finite cost and the candidate the same one. -/
structure Meeting.IsNeutral (m : Meeting α τ ρ) : Prop where
  finite : m.found.current.solution.HasFiniteCost
  cost : m.candidate.solution.costValue = m.found.current.solution.costValue

theorem Steady.meet {l : List (Event α τ ρ)} {first : Solution α τ ρ} {m : Meeting α τ ρ}
    (h : Steady l m.found first) (hfirst : first.HasFiniteCost)
    (hm : m.IsNeutral) : Steady (l ++ [.met m]) m.after first := by
  have hcost : m.candidate.solution.costValue = first.costValue := hm.cost.trans h.current
  have hnot : m.candidate.solution.isBetterThan m.found.best.solution = .ok false := by
    rw [h.best]
    exact Solution.isNotBetterThan_of_cost_eq hfirst hcost
  have hbest : m.after.best = ⟨0, first⟩ := by
    rcases m.after_cases with ⟨-, hafter⟩ | ⟨-, hbetter, -⟩ | ⟨-, -, hafter⟩
    · rw [hafter]
      exact h.best
    · rw [hnot] at hbetter
      cases hbetter
    · rw [hafter]
      exact h.best
  refine ⟨hbest, ?_, fun n hn => ?_, ?_⟩
  · rcases m.after_current with hcurrent | hcurrent <;> rw [hcurrent]
    · exact hcost
    · exact h.current
  · rcases mem_metIn_snoc.mp hn with hn | rfl
    · exact h.met n hn
    · exact ⟨hcost, hbest⟩
  · rw [toldIn_snoc_met]
    exact h.told

theorem lasting_steady : Lasting fun (l : List (Event α τ ρ)) f first =>
    first.HasFiniteCost → FiniteCosts l → (∀ m ∈ metIn l, m.IsNeutral) → Steady l f first where
  met := by
    intro l m first h hfirst hl hneutral
    have hm : m ∈ metIn (l ++ [.met m]) := mem_metIn_snoc.mpr (Or.inr rfl)
    have hsteady := h hfirst hl.of_append fun n hn => hneutral n (mem_metIn_snoc.mpr (Or.inl hn))
    exact hsteady.meet hfirst (hneutral m hm)
  told := by
    intro l f g first ms o hf hg ho hfirst hl hneutral
    rw [metIn_snoc_told] at hneutral
    have hbefore := hf hfirst hl.of_append.of_append fun n hn =>
      hneutral n (mem_metIn_append.mpr (Or.inl hn))
    exact hbefore.tell (hg hfirst hl.of_append hneutral) ho

section Verdicts

variable {p : Plan α} {m : Meeting α τ ρ}

theorem taken_of_annealing (hp : p.IsAnnealing)
    (hv : m.verdict = Search.verdict p m.sample m.found.current.solution m.candidate.solution) :
    m.IsNeutral → m.sample.InUnit → m.isAccepted = true := by
  intro hm hsample
  have hfinite : m.candidate.solution.HasFiniteCost := by
    rw [Solution.HasFiniteCost, hm.cost]
    exact hm.finite
  have hlevel : m.candidate.solution.level = m.found.current.solution.level := by
    rw [Solution.level, Solution.level, hm.cost]
  obtain ⟨r, hr⟩ := annealing_takes hp hsample hm.finite hfinite hlevel.le
    (Solution.isNotBetterThan_of_cost_eq hm.finite hm.cost)
  rw [Meeting.isAccepted, hv, hr]
  rfl

theorem left_of_gravity (hp : p.IsGravity)
    (hv : m.verdict = Search.verdict p m.sample m.found.current.solution m.candidate.solution) :
    m.IsNeutral → m.isAccepted = false := by
  intro hm
  rw [Meeting.isAccepted, hv,
    gravity_leaves hp (Solution.isNotBetterThan_of_cost_eq hm.finite hm.cost)]
  rfl

end Verdicts

omit [LawfulQuantity α] in
theorem kept_accepted [Strategy α σ] [Acceptance α σ (Solution α τ ρ)] {searches : Datum} {n : Nat}
    (hn : Search.rounds searches = .ok n) (hpos : 0 < n) (taken : Bool) :
    Kept fun l (s : Search α σ τ ρ) => s.searches = searches ∧
      ((∀ m ∈ metIn l, m.isAccepted = taken) → ∀ o ∈ toldIn l, o.accepted = taken) where
  fault h _ _ := h
  begin h _ _ := h
  trial := by
    rintro l s b ⟨hs, h⟩
    obtain ⟨source, trials, ht, -⟩ := Search.start_trial_state b s
    rw [ht]
    refine ⟨hs, fun hall => ?_⟩
    rw [toldIn_append, toldIn_map_met, List.append_nil]
    exact h fun m hm => hall m (mem_metIn_append.mpr (Or.inl hm))
  count h := h
  age h _ := h
  told := by
    rintro l f s t ms o ⟨hs, -⟩ - ⟨ht, h⟩ hsummary
    refine ⟨ht, fun hall p hp => ?_⟩
    rw [metIn_snoc_told] at hall
    rcases mem_toldIn_snoc.mp hp with hp | rfl
    · exact h hall p hp
    · obtain ⟨g, -, hreport⟩ := hsummary.report
      have hrounds := hsummary.rounds
      rw [hs, hn] at hrounds
      have hlength : n = ms.length := Except.ok.inj hrounds
      have hms : ∀ m ∈ ms, m.isAccepted = taken := by
        intro m hm
        apply hall
        rw [mem_metIn_append, metIn_map_met]
        exact Or.inr hm
      rw [hreport.accepted]
      cases taken with
      | false =>
        rw [List.any_eq_false]
        intro m hm
        rw [hms m hm]
        exact Bool.false_ne_true
      | true =>
        obtain ⟨m, hm⟩ := List.exists_mem_of_length_pos (hlength ▸ hpos)
        rw [List.any_eq_true]
        exact ⟨m, hm, hms m hm⟩
  finish h := h
  time _ h := h

section Runs

variable [Printed α] [ToString τ] [ToString ρ] {calls : List Call}

omit [LawfulQuantity α] in
theorem accepted_of_meetings [Strategy α σ] [Acceptance α σ (Solution α τ ρ)]
    {r : Running α σ τ ρ} {n : Nat}
    (hn : Search.rounds r.1.searches = .ok n) (hpos : 0 < n) {taken : Bool}
    (h : ∀ m ∈ Call.meetings calls r, m.isAccepted = taken) :
    ∀ o ∈ Call.outcomes calls r, o.accepted = taken := by
  have hrun := (kept_accepted hn hpos taken).run calls (r := r) ⟨rfl, by simp⟩
  exact hrun.2 h

/-- A run among candidates of equal cost has not begun, or is steady. -/
theorem steady_of_neutral [Strategy α σ] [Acceptance α σ (Solution α τ ρ)]
    {r : Running α σ τ ρ} (hfresh : r.1.progress = .fresh)
    (hfinite : FiniteRun calls r) (hneutral : ∀ m ∈ Call.meetings calls r, m.IsNeutral) :
    ((Call.after calls r).1.progress.found? = none ∧ Call.logs calls r = []) ∨
      ∃ f first c, (Call.after calls r).1.progress.found? = some f ∧
        (Call.after calls r).1.kept = some first ∧ first.costValue = .ok c ∧
        Steady (Call.logs calls r) f first := by
  cases hf : (Call.after calls r).1.progress.found? with
  | none =>
    rcases Call.logs_eq_nil_or_found calls hfresh with hnil | ⟨f, hf'⟩
    · exact Or.inl ⟨rfl, hnil⟩
    · rw [hf] at hf'
      cases hf'
  | some f =>
    obtain ⟨first, hkept, ⟨c, hc, -⟩, hsteady⟩ :=
      run_of_lasting lasting_steady (fun first _ => Steady.begin first) hfresh hfinite hneutral hf
    exact Or.inr ⟨f, first, c, rfl, hkept, hc, hsteady⟩

theorem taken_in_run {r : Running α (Plan α) τ ρ} (hplan : r.1.strategy.IsAnnealing)
    (hneutral : ∀ m ∈ Call.meetings calls r, m.IsNeutral)
    (hsamples : ∀ m ∈ Call.meetings calls r, m.sample.InUnit) :
    ∀ m ∈ Call.meetings calls r, m.isAccepted = true := by
  intro m hm
  have hrun := (kept_verdicts Plan.IsAnnealing.age taken_of_annealing).run calls (r := r)
    ⟨hplan, by simp⟩
  exact hrun.2 m hm (hneutral m hm) (hsamples m hm)

theorem left_in_run {r : Running α (Plan α) τ ρ} (hplan : r.1.strategy.IsGravity)
    (hneutral : ∀ m ∈ Call.meetings calls r, m.IsNeutral) :
    ∀ m ∈ Call.meetings calls r, m.isAccepted = false := by
  intro m hm
  have hrun := (kept_verdicts Plan.IsGravity.age left_of_gravity).run calls (r := r)
    ⟨hplan, by simp⟩
  exact hrun.2 m hm (hneutral m hm)

end Runs

end AssignmentSearch
