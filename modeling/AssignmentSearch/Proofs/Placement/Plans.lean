import AssignmentSearch.Placement.Assembly
import AssignmentSearch.Proofs.Search.Steps
import AssignmentSearch.Proofs.Strategy.Cooling
import AssignmentSearch.Proofs.Strategy.Verdicts

/-!
# The plans of scenarios

The strategy of an accepted scenario keeps to a schedule that lets at least one step be made. The
schedule comes to its end unless it anneals and never gets cold.
-/

namespace AssignmentSearch

open Strategy

def Plan.Ends : Plan Float → Prop
  | .annealing s => Annealing.Cools s.cold s.rate
  | .gravity _ | .constant _ => True

inductive Plan.IsMade : Plan Float → Prop
  | annealing {initial cold rate : Datum} {s : Annealing Float}
      (made : Annealing.ofData initial cold rate = .ok s) : IsMade (.annealing s)
  | gravity {limit : Datum} {g : Gravity} (made : Gravity.ofDatum limit = .ok g) :
      IsMade (.gravity ⟨g⟩)

theorem Plan.IsMade.kind {p : Plan Float} (h : p.IsMade) : p.IsAnnealing ∨ p.IsGravity := by
  cases h with
  | annealing made => exact Or.inl ⟨_, rfl⟩
  | gravity made => exact Or.inr ⟨_, rfl⟩

theorem Gravity.one_le_of_limitOf {given : Datum} {n : Int} (h : limitOf given = .ok n) : 1 ≤ n := by
  rw [limitOf.eq_def] at h
  cases given with
  | int m =>
    obtain ⟨x, -, h⟩ := exists_of_bind_ok h
    by_cases hm : m < 1
    · rw [if_pos hm] at h
      cases h
    · rw [if_neg hm] at h
      cases h
      omega
  | float x =>
    dsimp only at h
    cases hx : Binary64.decode x with
    | finite d =>
      rw [hx] at h
      dsimp only at h
      split at h
      · rename_i hwhole
        cases h
        simp only [Bool.and_eq_true, decide_eq_true_eq] at hwhole
        exact hwhole.2
      · cases h
    | nan =>
      rw [hx] at h
      cases h
    | infinite sign =>
      rw [hx] at h
      cases h
  | _ => cases h

namespace Placement

/-- A plan and its schedule: it stops for good if it ends, but not at once. -/
structure Scheduled (p : Plan Float) (stop : Nat → Bool) : Prop where
  schedule : Schedule p stop
  goes : stop 0 = false
  ends : p.Ends → ∃ n, ∀ m, n ≤ m → stop m = true

theorem scheduled_gravity {limit : Int} (h : 1 ≤ limit) :
    ∃ stop, Scheduled (.gravity ⟨⟨0, limit⟩⟩) stop := by
  refine ⟨_, Plan.schedule_gravity (Gravity.schedule ⟨⟨0, limit⟩⟩), ?_, fun _ => ?_⟩
  · apply decide_eq_false
    simp only [Nat.add_zero, Int.natCast_zero]
    omega
  · refine ⟨limit.toNat, fun m hm => decide_eq_true ?_⟩
    simp only [Nat.zero_add]
    omega

theorem scheduled_annealing {initial cold rate : Float} {s : Annealing Float}
    (h : Annealing.make initial cold rate = .ok s) : ∃ stop, Scheduled (.annealing s) stop := by
  obtain ⟨rfl, hranked, hlt⟩ := Annealing.ranked_of_make h
  refine ⟨_, Plan.schedule_annealing (Annealing.schedule initial cold rate), ?_, fun hcools => ?_⟩
  · apply decide_eq_false
    rw [Function.iterate_zero, id, Annealing.le_cold_iff hranked]
    omega
  · obtain ⟨n, hn⟩ := (Annealing.cools_iff h).mpr hcools
    exact ⟨n, fun m hm => decide_eq_true (hranked.cold_after hn hm)⟩

end Placement

theorem Plan.IsMade.scheduled {p : Plan Float} (h : p.IsMade) :
    ∃ stop, Placement.Scheduled p stop := by
  cases h with
  | annealing made =>
    obtain ⟨initial, -, hs⟩ := exists_of_bind_ok made
    obtain ⟨cold, -, hs⟩ := exists_of_bind_ok hs
    obtain ⟨rate, -, hs⟩ := exists_of_bind_ok hs
    exact Placement.scheduled_annealing hs
  | gravity made =>
    obtain ⟨n, hn, hg⟩ := exists_of_bind_ok made
    cases hg
    exact Placement.scheduled_gravity (Gravity.one_le_of_limitOf hn)

namespace Placement

theorem isMade_of_plan {parsed : Scenario} {cfg : Settings} {p : Plan Float}
    (h : plan parsed cfg = .ok p) : p.IsMade := by
  rw [plan] at h
  cases ha : parsed.algorithm with
  | gravity =>
    rw [ha] at h
    obtain ⟨g, hg, h⟩ := exists_of_bind_ok h
    cases h
    exact .gravity hg
  | annealing =>
    rw [ha] at h
    obtain ⟨s, hs, h⟩ := exists_of_bind_ok h
    cases h
    exact .annealing hs

theorem scheduled_of_build {parsed : Scenario} {cfg : Settings} {source : Source Float}
    {recorder : Option Recorder} {s : PlacementSearch}
    (h : build parsed cfg source recorder = .ok s) : ∃ stop, Scheduled s.strategy stop := by
  obtain ⟨p, hp, hs⟩ := exists_of_bind_ok h
  obtain ⟨n, -, -, rfl⟩ := Search.exists_count_of_ofDatum hs
  exact (isMade_of_plan hp).scheduled

end Placement
end AssignmentSearch
