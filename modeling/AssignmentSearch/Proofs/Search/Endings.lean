import AssignmentSearch.Proofs.Search.Stages
import AssignmentSearch.Proofs.Strategy.Cooling

/-!
# Whether a search ends

A run to the end makes steps under a limit. Some limit suffices if the schedule of the strategy stops
for good, and none does if it never stops.
-/

namespace AssignmentSearch

variable {α σ τ ρ : Type} [ToString τ] [ToString ρ]

namespace Search
variable [Quantity α] [Strategy α σ] [Acceptance α σ (Solution α τ ρ)] [Printed α]

theorem ages_of_drive_false {r t : Running α σ τ ρ} {f : Found α τ ρ} {n : Nat}
    (hf : r.1.progress.found? = some f) (h : (drive n).start r = (.ok false, t)) :
    ∃ a, Strategy.Ages n r.1.strategy a ∧ (n = 0 ∨ Strategy.stops a = .ok false) := by
  induction n generalizing r f with
  | zero => exact ⟨r.1.strategy, Strategy.ages_zero.mpr rfl, Or.inl rfl⟩
  | succ n ih =>
    rw [drive, Attempt.start_bind_ok (Attempt.start_get r)] at h
    split at h
    · obtain ⟨o, u, hstep, h⟩ := Attempt.exists_of_start_bind h
      obtain ⟨v, g, hstart, hg, hstep⟩ := searching_of_step_ok hstep
      rw [start_of_found hf] at hstart
      cases hstart
      obtain ⟨source, trials, g', a, time, -, hage, hstop, -, hu, -⟩ := step_ok hg hstep
      have hstrategy : u.1.strategy = a := by rw [hu]
      have hprogress : u.1.progress = progressOf o.done g' := by rw [hu]
      cases hdone : o.done with
      | true =>
        rw [drive_of_terminated n (by rw [hprogress, stage_progressOf, hdone]; rfl)] at h
        cases h
      | false =>
        obtain ⟨b, hb, hlast⟩ := ih (f := g') (by rw [hprogress, found?_progressOf]) h
        rw [hstrategy] at hb
        refine ⟨b, Strategy.ages_succ.mpr ⟨a, hage, hb⟩, Or.inr ?_⟩
        rcases hlast with rfl | hlast
        · rw [← Strategy.ages_zero.mp hb, hstop, hdone]
        · exact hlast
    · cases h

theorem ages_of_drive_true {r t : Running α σ τ ρ} {f : Found α τ ρ} {n : Nat}
    (hf : r.1.progress = .searching f) (h : (drive n).start r = (.ok true, t)) :
    ∃ m a, Strategy.Ages m r.1.strategy a ∧ Strategy.stops a = .ok true := by
  induction n generalizing r f with
  | zero =>
    rw [drive, Attempt.start_bind_ok (Attempt.start_get r), hf] at h
    cases h
  | succ n ih =>
    rw [drive, Attempt.start_bind_ok (Attempt.start_get r), if_pos (by rw [hf]; rfl)] at h
    obtain ⟨o, u, hstep, h⟩ := Attempt.exists_of_start_bind h
    obtain ⟨source, trials, g, a, time, -, hage, hstop, -, hu, -⟩ := step_ok hf hstep
    have hstrategy : u.1.strategy = a := by rw [hu]
    have hprogress : u.1.progress = progressOf o.done g := by rw [hu]
    cases hdone : o.done with
    | true => exact ⟨1, a, Strategy.ages_one.mpr hage, by rw [hstop, hdone]⟩
    | false =>
      obtain ⟨m, b, hb, hlast⟩ := ih (f := g) (by rw [hprogress, hdone]; rfl) h
      rw [hstrategy] at hb
      exact ⟨m + 1, b, Strategy.ages_succ.mpr ⟨a, hage, hb⟩, hlast⟩

variable {first : σ} {stop : Nat → Bool}

/-- A schedule that stops for good lets every run end under a limit beyond that. -/
theorem solve_ends (hschedule : Strategy.Schedule first stop) {n k limit : Nat}
    (hstop : ∀ m, n ≤ m → stop m = true) {r t : Running α σ τ ρ}
    (hages : Strategy.Ages k first r.1.strategy) (hlimit : n < limit) :
    (solve limit).start r ≠ (.ok none, t) := by
  intro h
  rw [solve] at h
  obtain ⟨_, u, hstart, h⟩ := Attempt.exists_of_start_bind h
  obtain ⟨f, hf⟩ := found_of_start_ok hstart
  obtain ⟨isOver, v, hdrive, h⟩ := Attempt.exists_of_start_bind h
  cases isOver with
  | false =>
    obtain ⟨a, ha, hlast⟩ := ages_of_drive_false hf hdrive
    rw [(start_ok_keeps hstart).1] at ha
    rw [hschedule.stops_eq (Strategy.ages_add.mpr ⟨_, hages, ha⟩), hstop _ (by omega)] at hlast
    rcases hlast with hzero | hlast
    · omega
    · cases hlast
  | true =>
    -- A search that has begun holds a best solution.
    have hbegun := (kept_depth (σ := σ) (τ := τ) (ρ := ρ) (α := α) 1).enduring.attended
    have hdepth := hbegun.drive limit (l := []) (r := u) (one_le_depth hf)
    rw [hdrive] at hdepth
    rw [if_pos rfl, Attempt.start_bind_ok (Attempt.start_get v)] at h
    cases hp : v.1.progress with
    | fresh =>
      rw [hp] at hdepth
      exact Nat.not_succ_le_zero 0 hdepth
    | searching g =>
      rw [hp] at h
      cases h
    | finished g =>
      rw [hp] at h
      cases h

/-- A schedule that never stops lets no run end with a solution, whatever the limit. -/
theorem solve_never_ends (hschedule : Strategy.Schedule first stop) (hstop : ∀ n, stop n = false)
    {r t : Running α σ τ ρ} (hfresh : r.1.progress = .fresh) (hfirst : r.1.strategy = first)
    (limit : Nat) (best : Solution α τ ρ) : (solve limit).start r ≠ (.ok (some best), t) := by
  intro h
  rw [solve] at h
  obtain ⟨_, u, hstart, h⟩ := Attempt.exists_of_start_bind h
  obtain ⟨x, source, isOver, -, -, hdone, hu⟩ := start_ok hfresh hstart
  have hzero := hschedule.stops_eq (Strategy.ages_zero.mpr hfirst.symm)
  rw [hdone, hstop] at hzero
  cases hzero
  obtain ⟨isOver, v, hdrive, h⟩ := Attempt.exists_of_start_bind h
  cases isOver with
  | false => cases h
  | true =>
    obtain ⟨m, a, ha, hlast⟩ := ages_of_drive_true (f := firstFound x) (by rw [hu]; rfl) hdrive
    rw [(start_ok_keeps hstart).1, hfirst] at ha
    rw [hschedule.stops_eq ha, hstop] at hlast
    cases hlast

end Search

/-- Annealing comes to its end if and only if the least double above the cold temperature is less
than itself when it is cooled. Then every run does under some limit, and else none with a solution. -/
theorem annealing_ends_iff {initial cold rate : Float} {s : Annealing Float}
    (h : Annealing.make initial cold rate = .ok s) :
    ((∃ n a, Strategy.Ages n s a ∧ Strategy.stops a = .ok true) ↔ Annealing.Cools cold rate) ∧
      (2.2250738585072014e-308 ≤ cold → Annealing.Cools cold rate) ∧
      (Annealing.Cools cold rate →
        ∃ n, ∀ (r t : Running Float (Plan Float) τ ρ) (k : Nat),
          Strategy.Ages k (.annealing s) r.1.strategy → ∀ limit, n < limit →
            (Search.solve limit).start r ≠ (.ok none, t)) ∧
      (¬ Annealing.Cools cold rate →
        ∀ r t : Running Float (Plan Float) τ ρ, r.1.progress = .fresh →
          r.1.strategy = .annealing s → ∀ limit best,
            (Search.solve limit).start r ≠ (.ok (some best), t)) := by
  obtain ⟨rfl, hranked, -⟩ := Annealing.ranked_of_make h
  have hschedule := Annealing.schedule initial cold rate
  have hplan := Plan.schedule_annealing hschedule
  refine ⟨?_, Annealing.cools_of_normal h, fun hcools => ?_, fun hnot => ?_⟩
  · rw [← Annealing.cools_iff h]
    constructor
    · rintro ⟨n, a, ha, hstop⟩
      rw [hschedule.stops_eq ha] at hstop
      exact ⟨n, of_decide_eq_true (Except.ok.inj hstop)⟩
    · rintro ⟨n, hn⟩
      obtain ⟨a, ha, hstop⟩ := hschedule n
      exact ⟨n, a, ha, hstop.trans (congrArg Except.ok (decide_eq_true hn))⟩
  · obtain ⟨n, hn⟩ := (Annealing.cools_iff h).mpr hcools
    refine ⟨n, fun r t k hages limit hlimit => ?_⟩
    refine Search.solve_ends hplan (fun m hm => decide_eq_true ?_) hages hlimit
    exact hranked.cold_after hn hm
  · intro r t hfresh hfirst limit best
    refine Search.solve_never_ends hplan (fun n => decide_eq_false fun hn => ?_) hfresh hfirst limit best
    exact hnot ((Annealing.cools_iff h).mp ⟨n, hn⟩)

theorem annealing_ends_iff_subnormal :
    Annealing.make 1e-323 5e-324 0.75 = .ok ⟨.real 1e-323, 5e-324, 0.75⟩ ∧
      ¬ ∃ n a, Strategy.Ages n (⟨.real 1e-323, 5e-324, 0.75⟩ : Annealing Float) a ∧
        Strategy.stops a = .ok true := by
  have hmake : Annealing.make 1e-323 5e-324 0.75 = .ok ⟨.real 1e-323, 5e-324, 0.75⟩ := by
    rw [Annealing.make, if_neg (by decide +kernel), if_neg (by decide +kernel),
      if_neg (by decide +kernel), if_neg (by decide +kernel)]
  refine ⟨hmake, fun hends => ?_⟩
  have hcools := (annealing_ends_iff (τ := Nat) (ρ := Nat) hmake).1.mp hends
  exact absurd hcools (by decide +kernel)

end AssignmentSearch
