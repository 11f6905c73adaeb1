import AssignmentSearch.Proofs.Quantity.Reals
import AssignmentSearch.Proofs.Search.BestSoFar
import AssignmentSearch.Proofs.Search.UnitSamples
import AssignmentSearch.Proofs.Strategy.Verdicts

/-!
# Nothing better was met

Only candidates that are taken are offered to the best solution so far. So what matters is which
candidates a strategy leaves: annealing leaves those that are costlier than the current solution,
gravity those that are not better than it, and under gravity the current solution is the best one.
-/

namespace AssignmentSearch

open LawfulQuantity Event

variable {α σ τ ρ : Type} [Quantity α] [LawfulQuantity α]

namespace Meeting

def HasFiniteCosts (m : Meeting α τ ρ) : Prop :=
  m.candidate.solution.HasFiniteCost ∧ m.found.current.solution.HasFiniteCost

/-- A candidate that is left is not better than the current solution. -/
def LeavesNotBetter (m : Meeting α τ ρ) : Prop :=
  m.HasFiniteCosts → m.isAccepted = false →
    m.candidate.solution.isBetterThan m.found.current.solution = .ok false

/-- A candidate that is left is no cheaper than the current solution. -/
def LeavesNoCheaper (m : Meeting α τ ρ) : Prop :=
  m.HasFiniteCosts → m.sample.InUnit → m.isAccepted = false →
    m.found.current.solution.level ≤ m.candidate.solution.level

/-- Only better candidates are taken. -/
def TakesBetter (m : Meeting α τ ρ) : Prop :=
  m.HasFiniteCosts → m.isAccepted = true →
    m.candidate.solution.isBetterThan m.found.current.solution = .ok true

end Meeting

section Verdicts

variable {m : Meeting α τ ρ}

theorem leavesNotBetter_of_verdict [Acceptance α σ (Solution α τ ρ)] {strategy : σ}
    (hv : m.verdict =
      Search.verdict strategy m.sample m.found.current.solution m.candidate.solution) :
    m.LeavesNotBetter := by
  rintro ⟨hcandidate, hcurrent⟩ hleft
  refine (Solution.isBetterThan_or hcandidate hcurrent).resolve_left fun hbetter => ?_
  rw [Search.verdict_of_better hbetter] at hv
  rw [Meeting.isAccepted, hv] at hleft
  cases hleft

theorem leavesNoCheaper_of_verdict {p : Plan α} (hp : p.IsAnnealing)
    (hv : m.verdict = Search.verdict p m.sample m.found.current.solution m.candidate.solution) :
    m.LeavesNoCheaper := by
  rintro ⟨hcandidate, hcurrent⟩ hsample hleft
  by_contra hlower
  have hnot := leavesNotBetter_of_verdict hv ⟨hcandidate, hcurrent⟩ hleft
  obtain ⟨r, hr⟩ := annealing_takes hp hsample hcurrent hcandidate (not_le.mp hlower).le hnot
  rw [hr] at hv
  rw [Meeting.isAccepted, hv] at hleft
  cases hleft

theorem takesBetter_of_verdict {p : Plan α} (hp : p.IsGravity)
    (hv : m.verdict = Search.verdict p m.sample m.found.current.solution m.candidate.solution) :
    m.TakesBetter := by
  rintro ⟨hcandidate, hcurrent⟩ htaken
  refine (Solution.isBetterThan_or hcandidate hcurrent).resolve_right fun hnot => ?_
  rw [gravity_leaves hp hnot] at hv
  rw [Meeting.isAccepted, hv] at htaken
  cases htaken

end Verdicts

/-- A bound `C` on how much higher the best level may be than that of a candidate, together with a
fact `E` about the solutions held, lasts if it is good for the candidate of each meeting. -/
theorem lasting_covers {C : ℝ → ℝ → Prop} {E : Found α τ ρ → Prop} {G : Meeting α τ ρ → Prop}
    (hC : ∀ {x y z : ℝ}, z ≤ y → C x y → C x z)
    (hmeet : ∀ {m : Meeting α τ ρ}, G m → m.HasFiniteCosts →
      m.found.best.solution.HasFiniteCost → m.Improves →
      m.found.current.solution.isBetterThan m.found.best.solution = .ok false → E m.found →
        E m.after ∧ C m.candidate.solution.level m.after.best.solution.level) :
    Lasting fun (l : List (Event α τ ρ)) f first =>
      first.HasFiniteCost → FiniteCosts l → (∀ m ∈ metIn l, G m) →
        Tracks l f first ∧ E f ∧
          ∀ m ∈ metIn l, C m.candidate.solution.level f.best.solution.level where
  met := by
    intro l m first h hfirst hl hG
    have hm : m ∈ metIn (l ++ [.met m]) := mem_metIn_snoc.mpr (Or.inr rfl)
    obtain ⟨htracks, hE, hcovers⟩ :=
      h hfirst hl.of_append fun n hn => hG n (mem_metIn_snoc.mpr (Or.inl hn))
    have hmet := htracks.met hfirst hl
    have himproves := hmet.improves m hm
    have hcosts : m.HasFiniteCosts :=
      ⟨hl m hm, htracks.current.hasFiniteCost hfirst hl.of_append⟩
    obtain ⟨hE', hcover⟩ := hmeet (hG m hm) hcosts
      (htracks.best.hasFiniteCost hfirst hl.of_append) himproves htracks.notBetter hE
    refine ⟨hmet, hE', fun n hn => ?_⟩
    rcases mem_metIn_snoc.mp hn with hn | rfl
    · exact hC himproves.level_le (hcovers n hn)
    · exact hcover
  told := by
    intro l f g first ms o _ h ho hfirst hl hG
    rw [metIn_snoc_told] at hG ⊢
    obtain ⟨htracks, hE, hcovers⟩ := h hfirst hl.of_append hG
    exact ⟨htracks.report hfirst hl.of_append ho.bestCost, hE, hcovers⟩

/-- A level that is not below another one, as differences are compared. -/
def NotBelow (α : Type) [Quantity α] [LawfulQuantity α] (x y : ℝ) : Prop := -slack α ≤ gap α x y

theorem NotBelow.mono {x y z w : ℝ} (h : NotBelow α x y) (hxz : x ≤ z) (hwy : w ≤ y) :
    NotBelow α z w :=
  h.trans (gap_mono hxz hwy)

theorem notBelow_iff {a b : Solution α τ ρ} (ha : a.HasFiniteCost) (hb : b.HasFiniteCost) :
    NotBelow α a.level b.level ↔ a.isBetterThan b = .ok false :=
  (Solution.isNotBetterThan_iff ha hb).symm

/-- A candidate that is taken is not better than the best solution afterwards. -/
theorem notBelow_of_accepted {m : Meeting α τ ρ} (hcandidate : m.candidate.solution.HasFiniteCost)
    (hbest : m.found.best.solution.HasFiniteCost) (himproves : m.Improves)
    (haccepted : m.isAccepted = true) :
    NotBelow α m.candidate.solution.level m.after.best.solution.level := by
  have hnot := himproves.notBetter
  rcases m.after_cases with ⟨hleft, -⟩ | ⟨-, -, hafter⟩ | ⟨-, -, hafter⟩
  · rw [hleft] at haccepted
    cases haccepted
  · rw [hafter] at hnot ⊢
    exact (notBelow_iff hcandidate hcandidate).mpr hnot
  · rw [hafter] at hnot ⊢
    exact (notBelow_iff hcandidate hbest).mpr hnot

theorem lasting_annealing : Lasting fun (l : List (Event α τ ρ)) f first =>
    first.HasFiniteCost → FiniteCosts l → (∀ m ∈ metIn l, m.LeavesNoCheaper ∧ m.sample.InUnit) →
      Tracks l f first ∧ True ∧
        ∀ m ∈ metIn l, NotBelow α m.candidate.solution.level f.best.solution.level := by
  refine lasting_covers (C := NotBelow α) (E := fun _ => True) (fun hzy h => h.mono le_rfl hzy) ?_
  rintro m ⟨hleaves, hsample⟩ hcosts hbest himproves hnot -
  refine ⟨trivial, ?_⟩
  by_cases haccepted : m.isAccepted = true
  · exact notBelow_of_accepted hcosts.1 hbest himproves haccepted
  · have hleft : m.isAccepted = false := by simpa using haccepted
    have hle := hleaves hcosts hsample hleft
    rw [Meeting.after_of_not_accepted hleft]
    exact ((notBelow_iff hcosts.2 hbest).mpr hnot).mono hle le_rfl

theorem lasting_gravity : Lasting fun (l : List (Event α τ ρ)) f first =>
    first.HasFiniteCost → FiniteCosts l → (∀ m ∈ metIn l, m.TakesBetter ∧ m.LeavesNotBetter) →
      Tracks l f first ∧ f.current = f.best ∧
        ∀ m ∈ metIn l, NotBelow α m.candidate.solution.level f.best.solution.level := by
  refine lasting_covers (C := NotBelow α) (E := fun f => f.current = f.best)
    (fun hzy h => h.mono le_rfl hzy) ?_
  rintro m ⟨htakes, hleaves⟩ hcosts hbest himproves - heq
  by_cases haccepted : m.isAccepted = true
  · refine ⟨?_, notBelow_of_accepted hcosts.1 hbest himproves haccepted⟩
    have hbetter := htakes hcosts haccepted
    rw [heq] at hbetter
    rcases m.after_cases with ⟨hleft, -⟩ | ⟨-, -, hafter⟩ | ⟨-, hnot, -⟩
    · rw [hleft] at haccepted
      cases haccepted
    · rw [hafter]
    · exact absurd hbetter hnot
  · have hleft : m.isAccepted = false := by simpa using haccepted
    have hnot := hleaves hcosts hleft
    rw [heq] at hnot
    rw [Meeting.after_of_not_accepted hleft]
    exact ⟨heq, (notBelow_iff hcosts.1 hbest).mpr hnot⟩

theorem lasting_any (hexact : IsExact α) : Lasting fun (l : List (Event α τ ρ)) f first =>
    first.HasFiniteCost → FiniteCosts l → (∀ m ∈ metIn l, m.LeavesNotBetter) →
      Tracks l f first ∧ True ∧ ∀ m ∈ metIn l,
        f.best.solution.level ≤ m.candidate.solution.level + 2 * slack α := by
  refine lasting_covers (C := fun x y => y ≤ x + 2 * slack α) (E := fun _ => True)
    (fun hzy hxy => hzy.trans hxy) ?_
  rintro m hleaves hcosts hbest himproves hnot -
  refine ⟨trivial, ?_⟩
  have hpos := slack_pos (α := α)
  by_cases haccepted : m.isAccepted = true
  · have hcover := notBelow_of_accepted hcosts.1 hbest himproves haccepted
    rw [NotBelow, hexact.gap_eq] at hcover
    linarith
  · have hleft : m.isAccepted = false := by simpa using haccepted
    have h1 := Solution.level_le_add_slack hexact hcosts.1 hcosts.2 (hleaves hcosts hleft)
    have h2 := Solution.level_le_add_slack hexact hcosts.2 hbest hnot
    rw [Meeting.after_of_not_accepted hleft]
    linarith

variable [Printed α] [ToString τ] [ToString ρ]

theorem notBelow_of_annealing {calls : List Call} {r : Running α (Plan α) τ ρ}
    (hfresh : r.1.progress = .fresh) (hplan : r.1.strategy.IsAnnealing)
    (hfinite : FiniteRun calls r) (hsamples : ∀ m ∈ Call.meetings calls r, m.sample.InUnit)
    {f : Found α τ ρ} (hf : (Call.after calls r).1.progress.found? = some f)
    {m : Meeting α τ ρ} (hm : m ∈ Call.meetings calls r) :
    NotBelow α m.candidate.solution.level f.best.solution.level := by
  have hleaves := ((kept_verdicts Plan.IsAnnealing.age leavesNoCheaper_of_verdict).run calls
    (r := r) ⟨hplan, by simp⟩).2
  obtain ⟨-, -, -, -, -, hcovers⟩ := run_of_lasting lasting_annealing
    (fun _ hfirst => ⟨Tracks.begin hfirst, trivial, by simp⟩) hfresh hfinite
    (fun n hn => ⟨hleaves n hn, hsamples n hn⟩) hf
  exact hcovers m hm

theorem notBelow_of_gravity {calls : List Call} {r : Running α (Plan α) τ ρ}
    (hfresh : r.1.progress = .fresh) (hplan : r.1.strategy.IsGravity)
    (hfinite : FiniteRun calls r)
    {f : Found α τ ρ} (hf : (Call.after calls r).1.progress.found? = some f)
    {m : Meeting α τ ρ} (hm : m ∈ Call.meetings calls r) :
    NotBelow α m.candidate.solution.level f.best.solution.level := by
  have htakes := ((kept_verdicts Plan.IsGravity.age fun hI hv =>
    And.intro (takesBetter_of_verdict hI hv) (leavesNotBetter_of_verdict hv)).run calls
    (r := r) ⟨hplan, by simp⟩).2
  obtain ⟨-, -, -, -, -, hcovers⟩ := run_of_lasting lasting_gravity
    (fun _ hfirst => ⟨Tracks.begin hfirst, rfl, by simp⟩) hfresh hfinite htakes hf
  exact hcovers m hm

/-- Under annealing and gravity no candidate that was met, whether it was taken or left, is better
than the best solution so far. Under any strategy none is lower by more than twice the tolerance if
nothing is rounded. -/
theorem nothing_better_was_met :
    (∀ (calls : List Call) (r : Running α (Plan α) τ ρ), r.1.progress = .fresh →
      (r.1.strategy.IsAnnealing ∨ r.1.strategy.IsGravity) → FiniteRun calls r →
      (∀ m ∈ Call.meetings calls r, m.sample.InUnit) →
      ∀ f, (Call.after calls r).1.progress.found? = some f → ∀ m ∈ Call.meetings calls r,
        m.candidate.solution.isBetterThan f.best.solution = .ok false ∧
          (IsExact α → f.best.solution.level ≤ m.candidate.solution.level + slack α)) ∧
    (∀ (σ : Type) [Strategy α σ] [Acceptance α σ (Solution α τ ρ)] (calls : List Call)
      (r : Running α σ τ ρ), r.1.progress = .fresh → FiniteRun calls r → IsExact α →
      ∀ f, (Call.after calls r).1.progress.found? = some f → ∀ m ∈ Call.meetings calls r,
        f.best.solution.level ≤ m.candidate.solution.level + 2 * slack α) := by
  constructor
  · intro calls r hfresh hplan hfinite hsamples f hf m hm
    have hnot : NotBelow α m.candidate.solution.level f.best.solution.level := by
      rcases hplan with hplan | hplan
      · exact notBelow_of_annealing hfresh hplan hfinite hsamples hf hm
      · exact notBelow_of_gravity hfresh hplan hfinite hf hm
    obtain ⟨first, -, hfirst, htracks⟩ := tracks_of_run hfresh hfinite hf
    have hbest := htracks.best.hasFiniteCost hfirst hfinite.2
    have hbetter := (notBelow_iff (hfinite.2 m hm) hbest).mp hnot
    exact ⟨hbetter, fun hexact =>
      Solution.level_le_add_slack hexact (hfinite.2 m hm) hbest hbetter⟩
  · intro σ _ _ calls r hfresh hfinite hexact f hf m hm
    have hleaves := ((kept_verdicts (I := fun _ : σ => True) (fun _ _ => trivial) fun _ hv =>
      leavesNotBetter_of_verdict hv).run calls (r := r) ⟨trivial, by simp⟩).2
    obtain ⟨-, -, -, -, -, hcovers⟩ := run_of_lasting (lasting_any hexact)
      (fun _ hfirst => ⟨Tracks.begin hfirst, trivial, by simp⟩) hfresh hfinite hleaves hf
    exact hcovers m hm

theorem nothing_better_was_met_listed :
    ((Call.meetings [.step, .step]
        (listedSearch (.annealing ⟨.real 100, 1, 0.5⟩) [(5 : Float), 3, 3] 0.5)).map
      (·.isAccepted) = [true, true] ∧
    ∀ f, (Call.after [.step, .step] (listedSearch (.annealing ⟨.real 100, 1, 0.5⟩)
        [(5 : Float), 3, 3] 0.5)).1.progress.found? = some f →
      ∀ m ∈ Call.meetings [.step, .step]
          (listedSearch (.annealing ⟨.real 100, 1, 0.5⟩) [(5 : Float), 3, 3] 0.5),
        m.candidate.solution.isBetterThan f.best.solution = .ok false) ∧
    ∀ f, (Call.after [.step, .step] (listedSearch (.gravity ⟨⟨0, 9⟩⟩)
        [(5 : ℝ), 3, 4] 0.5)).1.progress.found? = some f →
      ∀ m ∈ Call.meetings [.step, .step]
          (listedSearch (.gravity ⟨⟨0, 9⟩⟩) [(5 : ℝ), 3, 4] 0.5),
        f.best.solution.level ≤ m.candidate.solution.level + 2 * slack ℝ := by
  have hcosts : ∀ c ∈ [(5 : Float), 3, 3], Binary64.IsFinite c := by decide +kernel
  have hhalf : (0 : Float) ≤ 0.5 ∧ (0.5 : Float) < 1 := by decide +kernel
  have hsource : (Source.repeating [.real (0.5 : Float)]).InUnit := by
    refine Source.inUnit_repeating (by simp) fun x hx => ?_
    cases List.mem_singleton.mp hx
    exact hhalf
  have hsamples := inUnit_of_source [.step, .step]
    (r := listedSearch (.annealing ⟨.real 100, 1, 0.5⟩) [(5 : Float), 3, 3] 0.5) hsource
    (Landscape.keepsUnit_listed _ _)
  refine ⟨⟨by decide +kernel, fun f hf m hm => ?_⟩, ?_⟩
  · exact (nothing_better_was_met.1 _ _ rfl (Or.inl ⟨_, rfl⟩)
      (finiteRun_listedSearch _ _ _ hcosts) hsamples f hf m hm).1
  · exact nothing_better_was_met.2 (Plan ℝ) _ _ rfl
      (finiteRun_listedSearch _ _ _ fun _ _ => trivial) isExact_real

end AssignmentSearch
