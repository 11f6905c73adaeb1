import AssignmentSearch.Proofs.Quantity.Doubles
import AssignmentSearch.Proofs.Search.FiniteCosts
import AssignmentSearch.Strategy.Plan

/-!
# The best solution so far

As long as costs are finite, the best solution only ever gives way to one that is lower by more than
the tolerance, and the current solution is never better than it. The comparison is no order, since
small differences count as none; what carries the proof is that rounding is monotone.
-/

namespace AssignmentSearch

open LawfulQuantity Event

variable {α σ τ ρ : Type}

/-- A candidate that is the first solution or was met and taken. -/
def Stems (l : List (Event α τ ρ)) (first : Solution α τ ρ) (c : Candidate α τ ρ) : Prop :=
  c = ⟨0, first⟩ ∨ ∃ m ∈ metIn l, m.isAccepted = true ∧ m.candidate = c

theorem Stems.append {l : List (Event α τ ρ)} {first : Solution α τ ρ} {c : Candidate α τ ρ}
    (h : Stems l first c) (k : List (Event α τ ρ)) : Stems (l ++ k) first c := by
  rcases h with rfl | ⟨m, hm, haccepted, rfl⟩
  · exact Or.inl rfl
  · exact Or.inr ⟨m, mem_metIn_append.mpr (Or.inl hm), haccepted, rfl⟩

variable [Quantity α]

namespace Meeting

theorem after_cases (m : Meeting α τ ρ) :
    (m.isAccepted = false ∧ m.after = m.found) ∨
      (m.isAccepted = true ∧
        m.candidate.solution.isBetterThan m.found.best.solution = .ok true ∧
        m.after = ⟨m.candidate, m.candidate⟩) ∨
      (m.isAccepted = true ∧
        m.candidate.solution.isBetterThan m.found.best.solution ≠ .ok true ∧
        m.after = ⟨m.candidate, m.found.best⟩) := by
  rw [after]
  cases m.isAccepted with
  | false => exact Or.inl ⟨rfl, rfl⟩
  | true =>
    refine Or.inr ?_
    rw [if_pos rfl]
    split
    · rename_i h
      exact Or.inl ⟨rfl, h, rfl⟩
    · rename_i h
      exact Or.inr ⟨rfl, h, rfl⟩

variable [LawfulQuantity α]

/-- The current solution is not better than the best one after a meeting, and if the best one has
changed it is lower by more than the tolerance. -/
structure Improves (m : Meeting α τ ρ) : Prop where
  notBetter : m.after.current.solution.isBetterThan m.after.best.solution = .ok false
  lower : m.after.best = m.found.best ∨
    m.after.best.solution.level + slack α < m.found.best.solution.level

theorem Improves.level_le {m : Meeting α τ ρ} (h : m.Improves) :
    m.after.best.solution.level ≤ m.found.best.solution.level := by
  have hpos := slack_pos (α := α)
  rcases h.lower with heq | hlt
  · rw [heq]
  · linarith

theorem improves {m : Meeting α τ ρ} (hcandidate : m.candidate.solution.HasFiniteCost)
    (hbest : m.found.best.solution.HasFiniteCost)
    (h : m.found.current.solution.isBetterThan m.found.best.solution = .ok false) :
    m.Improves := by
  rcases m.after_cases with ⟨-, hafter⟩ | ⟨-, hbetter, hafter⟩ | ⟨-, hnot, hafter⟩
  · refine ⟨?_, Or.inl ?_⟩ <;> rw [hafter]
    exact h
  · refine ⟨?_, Or.inr ?_⟩ <;> rw [hafter]
    · exact Solution.isNotBetterThan_of_cost_eq hcandidate rfl
    · exact Solution.level_add_slack_lt hcandidate hbest hbetter
  · refine ⟨?_, Or.inl ?_⟩ <;> rw [hafter]
    exact (Solution.isBetterThan_or hcandidate hbest).resolve_left hnot

end Meeting

variable [LawfulQuantity α]

theorem Stems.hasFiniteCost {l : List (Event α τ ρ)} {first : Solution α τ ρ}
    {c : Candidate α τ ρ} (h : Stems l first c) (hfirst : first.HasFiniteCost)
    (hl : FiniteCosts l) : c.solution.HasFiniteCost := by
  rcases h with rfl | ⟨m, hm, -, rfl⟩
  · exact hfirst
  · exact hl m hm

structure Tracks (l : List (Event α τ ρ)) (f : Found α τ ρ) (first : Solution α τ ρ) : Prop where
  current : Stems l first f.current
  best : Stems l first f.best
  level_le : f.best.solution.level ≤ first.level
  notBetter : f.current.solution.isBetterThan f.best.solution = .ok false
  improves : ∀ m ∈ metIn l, m.Improves
  isFinite : ∀ o ∈ toldIn l, IsFinite o.bestCost
  level_le_told : ∀ o ∈ toldIn l, f.best.solution.level ≤ value o.bestCost
  told_le_first : ∀ o ∈ toldIn l, value o.bestCost ≤ first.level
  told : (toldIn l).Pairwise fun o p => value p.bestCost ≤ value o.bestCost

namespace Tracks

theorem begin {first : Solution α τ ρ} (h : first.HasFiniteCost) :
    Tracks [] ⟨⟨0, first⟩, ⟨0, first⟩⟩ first where
  current := Or.inl rfl
  best := Or.inl rfl
  level_le := le_rfl
  notBetter := Solution.isNotBetterThan_of_cost_eq h rfl
  improves := by simp
  isFinite := by simp
  level_le_told := by simp
  told_le_first := by simp
  told := by simp

theorem met {l : List (Event α τ ρ)} {first : Solution α τ ρ} {m : Meeting α τ ρ}
    (h : Tracks l m.found first) (hfirst : first.HasFiniteCost)
    (hl : FiniteCosts (l ++ [.met m])) : Tracks (l ++ [.met m]) m.after first := by
  have hbest := h.best.hasFiniteCost hfirst hl.of_append
  have hcandidate : m.candidate.solution.HasFiniteCost := hl m (mem_metIn_snoc.mpr (Or.inr rfl))
  have himproves := Meeting.improves hcandidate hbest h.notBetter
  have htold : toldIn (l ++ [.met m]) = toldIn l := toldIn_snoc_met l m
  have hstems : m.isAccepted = true → Stems (l ++ [.met m]) first m.candidate :=
    fun haccepted => Or.inr ⟨m, mem_metIn_snoc.mpr (Or.inr rfl), haccepted, rfl⟩
  refine ⟨?_, ?_, himproves.level_le.trans h.level_le, himproves.notBetter, ?_, ?_, ?_, ?_, ?_⟩
  · rcases m.after_cases with ⟨-, hafter⟩ | ⟨haccepted, -, hafter⟩ | ⟨haccepted, -, hafter⟩ <;>
      rw [hafter]
    · exact h.current.append _
    · exact hstems haccepted
    · exact hstems haccepted
  · rcases m.after_cases with ⟨-, hafter⟩ | ⟨haccepted, -, hafter⟩ | ⟨-, -, hafter⟩ <;> rw [hafter]
    · exact h.best.append _
    · exact hstems haccepted
    · exact h.best.append _
  · intro n hn
    rcases mem_metIn_snoc.mp hn with hn | rfl
    · exact h.improves n hn
    · exact himproves
  · rw [htold]
    exact h.isFinite
  · rw [htold]
    exact fun o ho => himproves.level_le.trans (h.level_le_told o ho)
  · rw [htold]
    exact h.told_le_first
  · rw [htold]
    exact h.told

theorem report {l : List (Event α τ ρ)} {f : Found α τ ρ} {first : Solution α τ ρ}
    {o : Outcome α} (h : Tracks l f first) (hfirst : first.HasFiniteCost) (hl : FiniteCosts l)
    (ho : f.best.solution.costValue = .ok o.bestCost) : Tracks (l ++ [.told o]) f first := by
  have hlevel := Solution.level_of_cost ho
  refine ⟨h.current.append _, h.best.append _, h.level_le, h.notBetter, ?_, ?_, ?_, ?_, ?_⟩
  · rw [metIn_snoc_told]
    exact h.improves
  · intro p hp
    rcases mem_toldIn_snoc.mp hp with hp | rfl
    · exact h.isFinite p hp
    · obtain ⟨c, hc, hfinite⟩ := h.best.hasFiniteCost hfirst hl
      rw [ho] at hc
      cases hc
      exact hfinite
  · intro p hp
    rcases mem_toldIn_snoc.mp hp with hp | rfl
    · exact h.level_le_told p hp
    · exact hlevel.le
  · intro p hp
    rcases mem_toldIn_snoc.mp hp with hp | rfl
    · exact h.told_le_first p hp
    · exact hlevel.ge.trans h.level_le
  · rw [toldIn_append, List.pairwise_append]
    refine ⟨h.told, List.pairwise_singleton _ _, fun p hp q hq => ?_⟩
    cases List.mem_singleton.mp hq
    exact hlevel.ge.trans (h.level_le_told p hp)

end Tracks

theorem lasting_tracks : Lasting fun (l : List (Event α τ ρ)) f first =>
    first.HasFiniteCost → FiniteCosts l → (∀ m ∈ metIn l, True) → Tracks l f first where
  met h hfirst hl _ := (h hfirst hl.of_append fun _ _ => trivial).met hfirst hl
  told _ h ho hfirst hl _ :=
    (h hfirst hl.of_append fun _ _ => trivial).report hfirst hl.of_append ho.bestCost

theorem lasting_bound (bound : ℝ) : Lasting fun (l : List (Event α τ ρ)) f first =>
    first.HasFiniteCost → FiniteCosts l → Tracks l f first ∧ f.best.solution.level ≤ bound where
  met h hfirst hl := by
    obtain ⟨htracks, hbound⟩ := h hfirst hl.of_append
    have hmet := htracks.met hfirst hl
    have himproves := hmet.improves _ (mem_metIn_snoc.mpr (Or.inr rfl))
    exact ⟨hmet, himproves.level_le.trans hbound⟩
  told _ h ho hfirst hl := by
    obtain ⟨htracks, hbound⟩ := h hfirst hl.of_append
    exact ⟨htracks.report hfirst hl.of_append ho.bestCost, hbound⟩

variable [Strategy α σ] [Acceptance α σ (Solution α τ ρ)] [Printed α] [ToString τ] [ToString ρ]

/-- What lasts in runs with finite costs and meetings of one sort holds in the end. -/
theorem run_of_lasting {G : Meeting α τ ρ → Prop}
    {Q : List (Event α τ ρ) → Found α τ ρ → Solution α τ ρ → Prop}
    (hlasting : Lasting fun l f first =>
      first.HasFiniteCost → FiniteCosts l → (∀ m ∈ metIn l, G m) → Q l f first)
    (hbegin : ∀ first, first.HasFiniteCost → Q [] ⟨⟨0, first⟩, ⟨0, first⟩⟩ first)
    {calls : List Call} {r : Running α σ τ ρ} (hfresh : r.1.progress = .fresh)
    (hfinite : FiniteRun calls r) (hG : ∀ m ∈ Call.meetings calls r, G m) {f : Found α τ ρ}
    (hf : (Call.after calls r).1.progress.found? = some f) :
    ∃ first, (Call.after calls r).1.kept = some first ∧ first.HasFiniteCost ∧
      Q (Call.logs calls r) f first := by
  have hrun := (hlasting.kept_holds fun first hfirst _ _ => hbegin first hfirst).run (σ := σ) calls
    (r := r) (Or.inl ⟨hfresh, rfl⟩)
  rcases hrun with ⟨hfresh', -⟩ | ⟨g, first, hg, hkept, hQ⟩
  · rw [hfresh'] at hf
    cases hf
  · rw [hf] at hg
    cases hg
    have hfirst := hfinite.1 first hkept
    exact ⟨first, hkept, hfirst, hQ hfirst hfinite.2 hG⟩

theorem tracks_of_run {calls : List Call} {r : Running α σ τ ρ} (hfresh : r.1.progress = .fresh)
    (hfinite : FiniteRun calls r) {f : Found α τ ρ}
    (hf : (Call.after calls r).1.progress.found? = some f) :
    ∃ first, (Call.after calls r).1.kept = some first ∧ first.HasFiniteCost ∧
      Tracks (Call.logs calls r) f first :=
  run_of_lasting (G := fun _ => True) lasting_tracks (fun _ => Tracks.begin) hfresh hfinite
    (fun _ _ => trivial) hf

theorem best_level_antitone {earlier later : List Call} {r : Running α σ τ ρ}
    (hfresh : r.1.progress = .fresh) (hfinite : FiniteRun (earlier ++ later) r)
    {f g : Found α τ ρ} (hf : (Call.after earlier r).1.progress.found? = some f)
    (hg : (Call.after (earlier ++ later) r).1.progress.found? = some g) :
    g.best.solution.level ≤ f.best.solution.level := by
  obtain ⟨first, hkept, -, htracks⟩ := tracks_of_run hfresh (hfinite.of_append hf) hf
  have hlater := (lasting_bound f.best.solution.level).kept.calls (σ := σ) later
    (l := Call.logs earlier r) (r := Call.after earlier r)
    ⟨f, first, hf, hkept, fun _ _ => ⟨htracks, le_rfl⟩⟩
  rw [← Call.after_append, ← Call.logs_append] at hlater
  obtain ⟨g', first', hg', hkept', hbound⟩ := hlater
  rw [hg] at hg'
  cases hg'
  exact (hbound (hfinite.1 first' hkept') hfinite.2).2

def listedSearch (plan : Plan α) (costs : List α) (sample : α) : Running α (Plan α) Nat Nat :=
  (.fresh plan (.listed "Listed" (costs.map .ok)) (.repeating [.real sample]) (.int 1) none,
    ⟨Quantity.zero, Quantity.zero, .empty, []⟩)

theorem finiteRun_listedSearch (calls : List Call) (plan : Plan α) {costs : List α} (sample : α)
    (h : ∀ c ∈ costs, IsFinite c) : FiniteRun calls (listedSearch plan costs sample) := by
  refine finiteRun_of_landscape calls (Landscape.isFinite_listed _ ?_) rfl rfl
  intro cost hcost
  obtain ⟨c, hc, rfl⟩ := List.mem_map.mp hcost
  exact ⟨c, rfl, h c hc⟩

/-- The best solution so far is the first one or one that was taken, and every change of it lowers
its cost by more than the tolerance. Its cost never rises and never exceeds that of the first
solution, and the current solution is never better than it. -/
theorem best_so_far (calls : List Call) (r : Running α σ τ ρ) (hfresh : r.1.progress = .fresh)
    (hfinite : FiniteRun calls r) :
    (∀ f, (Call.after calls r).1.progress.found? = some f →
      ∃ first, (Call.after calls r).1.kept = some first ∧
        (f.best = ⟨0, first⟩ ∨
          ∃ m ∈ Call.meetings calls r, m.isAccepted = true ∧ m.candidate = f.best) ∧
        f.best.solution.level ≤ first.level ∧
        f.current.solution.isBetterThan f.best.solution = .ok false ∧
        (IsExact α → f.best.solution.level - slack α ≤ f.current.solution.level)) ∧
    (∀ m ∈ Call.meetings calls r,
      m.after.current.solution.isBetterThan m.after.best.solution = .ok false ∧
        (m.after.best = m.found.best ∨
          m.after.best.solution.level + slack α < m.found.best.solution.level)) ∧
    (∀ earlier later, calls = earlier ++ later → ∀ c d,
      (Call.after earlier r).1.bestCost? = .ok (some c) →
        (Call.after calls r).1.bestCost? = .ok (some d) → d ≤ c) ∧
    (Call.outcomes calls r).Pairwise (fun o p => p.bestCost ≤ o.bestCost) ∧
    (∀ o ∈ Call.outcomes calls r, ∀ first c, (Call.after calls r).1.kept = some first →
      first.costValue = .ok c → o.bestCost ≤ c) := by
  refine ⟨fun f hf => ?_, ?_, ?_, ?_, ?_⟩
  · obtain ⟨first, hkept, hfirst, htracks⟩ := tracks_of_run hfresh hfinite hf
    refine ⟨first, hkept, htracks.best, htracks.level_le, htracks.notBetter, fun hexact => ?_⟩
    have hle := Solution.level_le_add_slack hexact
      (htracks.current.hasFiniteCost hfirst hfinite.2)
      (htracks.best.hasFiniteCost hfirst hfinite.2) htracks.notBetter
    linarith
  · intro m hm
    rcases Call.logs_eq_nil_or_found calls hfresh with hnil | ⟨f, hf⟩
    · rw [Call.meetings, hnil] at hm
      cases hm
    · obtain ⟨first, -, -, htracks⟩ := tracks_of_run hfresh hfinite hf
      exact ⟨(htracks.improves m hm).notBetter, (htracks.improves m hm).lower⟩
  · rintro earlier later rfl c d hc hd
    obtain ⟨f, hf, hc⟩ := Search.bestCost?_eq_some hc
    obtain ⟨g, hg, hd⟩ := Search.bestCost?_eq_some hd
    obtain ⟨_, -, hfirst, htracks⟩ := tracks_of_run hfresh (hfinite.of_append hf) hf
    obtain ⟨_, -, hfirst', htracks'⟩ := tracks_of_run hfresh hfinite hg
    have hbest := htracks.best.hasFiniteCost hfirst (hfinite.of_append hf).2
    have hbest' := htracks'.best.hasFiniteCost hfirst' hfinite.2
    obtain ⟨hcfinite, hclevel⟩ := Solution.value_of_cost hbest hc
    obtain ⟨hdfinite, hdlevel⟩ := Solution.value_of_cost hbest' hd
    rw [le_iff hdfinite hcfinite, ← hclevel, ← hdlevel]
    exact best_level_antitone hfresh hfinite hf hg
  · rcases Call.logs_eq_nil_or_found calls hfresh with hnil | ⟨f, hf⟩
    · rw [Call.outcomes, hnil]
      exact List.Pairwise.nil
    · obtain ⟨first, -, -, htracks⟩ := tracks_of_run hfresh hfinite hf
      refine htracks.told.imp_of_mem fun ho hp hle => ?_
      exact (le_iff (htracks.isFinite _ hp) (htracks.isFinite _ ho)).mpr hle
  · intro o ho first c hkept hc
    rcases Call.logs_eq_nil_or_found calls hfresh with hnil | ⟨f, hf⟩
    · rw [Call.outcomes, hnil] at ho
      cases ho
    · obtain ⟨first', hkept', hfirst, htracks⟩ := tracks_of_run hfresh hfinite hf
      rw [hkept] at hkept'
      cases hkept'
      obtain ⟨hcfinite, hclevel⟩ := Solution.value_of_cost hfirst hc
      rw [le_iff (htracks.isFinite o ho) hcfinite, ← hclevel]
      exact htracks.told_le_first o ho

theorem best_so_far_descent :
    (Call.outcomes [.step, .step, .step]
        (listedSearch (.gravity ⟨⟨0, 9⟩⟩) [(5 : Float), 3, 4, 2] 0.5)).map (·.bestCost) =
      [3, 3, 2] ∧
    (Call.outcomes [.step, .step, .step]
        (listedSearch (.gravity ⟨⟨0, 9⟩⟩) [(5 : Float), 3, 4, 2] 0.5)).Pairwise
      fun o p => p.bestCost ≤ o.bestCost := by
  have hcosts : ∀ c ∈ [(5 : Float), 3, 4, 2], Binary64.IsFinite c := by decide +kernel
  have hrun := best_so_far [.step, .step, .step]
    (listedSearch (.gravity ⟨⟨0, 9⟩⟩) [(5 : Float), 3, 4, 2] 0.5) rfl
    (finiteRun_listedSearch _ _ _ hcosts)
  exact ⟨by decide +kernel, hrun.2.2.2.1⟩

end AssignmentSearch
