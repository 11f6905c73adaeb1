import AssignmentSearch.Proofs.Attempts
import AssignmentSearch.Strategy.Plan
import Mathlib.Logic.Function.Iterate

/-!
# Schedules

A strategy keeps to a schedule if it ages without a fault for ever and if the number of ages alone
decides whether the search is to end. So do gravity, the constant strategies with a limit that is a
number, and annealing at a real temperature.
-/

namespace AssignmentSearch
namespace Strategy

variable {α σ σ' : Type} [Strategy α σ] [Strategy α σ']

def Ages (n : Nat) (a b : σ) : Prop := (ageBy n).start a = (.ok (), b)

theorem ages_zero {a b : σ} : Ages 0 a b ↔ a = b := by
  constructor
  · intro h
    cases h
    rfl
  · rintro rfl
    rfl

theorem ages_succ {n : Nat} {a c : σ} : Ages (n + 1) a c ↔ ∃ b, age a = .ok b ∧ Ages n b c := by
  rw [Ages, ageBy, Attempt.start_bind_ok (Attempt.start_get a)]
  cases ha : age a with
  | error e =>
    rw [Attempt.start_bind_error (Attempt.start_lift _ _)]
    simp
  | ok b =>
    rw [Attempt.start_bind_ok (Attempt.start_lift _ _)]
    constructor
    · exact fun h => ⟨b, rfl, h⟩
    · rintro ⟨b', hb, h⟩
      cases hb
      exact h

theorem Ages.unique {n : Nat} {a b c : σ} (hb : Ages n a b) (hc : Ages n a c) : b = c := by
  rw [Ages, hb] at hc
  cases hc
  rfl

theorem ages_add {m n : Nat} {a c : σ} :
    Ages (m + n) a c ↔ ∃ b, Ages m a b ∧ Ages n b c := by
  induction m generalizing a with
  | zero =>
    rw [Nat.zero_add]
    constructor
    · exact fun h => ⟨a, ages_zero.mpr rfl, h⟩
    · rintro ⟨b, hab, hbc⟩
      rwa [ages_zero.mp hab]
  | succ m ih =>
    rw [Nat.add_right_comm, ages_succ]
    constructor
    · rintro ⟨d, hd, hdc⟩
      obtain ⟨b, hdb, hbc⟩ := ih.mp hdc
      exact ⟨b, ages_succ.mpr ⟨d, hd, hdb⟩, hbc⟩
    · rintro ⟨b, hab, hbc⟩
      obtain ⟨d, hd, hdb⟩ := ages_succ.mp hab
      exact ⟨d, hd, ih.mpr ⟨b, hdb, hbc⟩⟩

theorem ages_one {a b : σ} : Ages 1 a b ↔ age a = .ok b := by
  rw [ages_succ]
  constructor
  · rintro ⟨c, hc, hcb⟩
    rwa [← ages_zero.mp hcb]
  · exact fun h => ⟨b, h, ages_zero.mpr rfl⟩

theorem Ages.next {n : Nat} {a b c : σ} (hab : Ages n a b) (hbc : age b = .ok c) :
    Ages (n + 1) a c :=
  ages_add.mpr ⟨b, hab, ages_one.mpr hbc⟩

theorem Ages.wrap {f : σ → σ'} (hage : ∀ a, age (f a) = f <$> age a) {n : Nat} {a b : σ}
    (h : Ages n a b) : Ages n (f a) (f b) := by
  induction n generalizing a with
  | zero =>
    rw [ages_zero.mp h]
    exact ages_zero.mpr rfl
  | succ n ih =>
    obtain ⟨c, hc, hcb⟩ := ages_succ.mp h
    exact ages_succ.mpr ⟨f c, by rw [hage, hc]; rfl, ih hcb⟩

theorem ages_of_states (state : Nat → σ) (hage : ∀ n, age (state n) = .ok (state (n + 1)))
    (n : Nat) : Ages n (state 0) (state n) := by
  induction n with
  | zero => exact ages_zero.mpr rfl
  | succ n ih => exact ih.next (hage n)

/-- A strategy can age any number of times, and the number says whether the search is to end. -/
def Schedule (start : σ) (stop : Nat → Bool) : Prop :=
  ∀ n, ∃ a, Ages n start a ∧ stops a = .ok (stop n)

namespace Schedule

variable {start : σ} {stop : Nat → Bool}

theorem stops_eq (h : Schedule start stop) {n : Nat} {a : σ} (ha : Ages n start a) :
    Strategy.stops a = .ok (stop n) := by
  obtain ⟨b, hb, hstop⟩ := h n
  rw [ha.unique hb]
  exact hstop

theorem exists_age (h : Schedule start stop) {n : Nat} {a : σ} (ha : Ages n start a) :
    ∃ b, Strategy.age a = .ok b := by
  obtain ⟨b, hb, -⟩ := h (n + 1)
  obtain ⟨a', ha', hab⟩ := ages_add.mp hb
  rw [ha.unique ha']
  exact ⟨b, ages_one.mp hab⟩

theorem of_states (state : Nat → σ) (hage : ∀ n, Strategy.age (state n) = .ok (state (n + 1)))
    (hstop : ∀ n, Strategy.stops (state n) = .ok (stop n)) : Schedule (state 0) stop :=
  fun n => ⟨state n, ages_of_states state hage n, hstop n⟩

theorem wrap (h : Schedule start stop) (f : σ → σ')
    (hage : ∀ a, Strategy.age (f a) = f <$> Strategy.age a)
    (hstops : ∀ a, Strategy.stops (f a) = Strategy.stops a) : Schedule (f start) stop := by
  intro n
  obtain ⟨a, ha, hstop⟩ := h n
  exact ⟨f a, ha.wrap hage, (hstops a).trans hstop⟩

end Schedule
end Strategy

open Strategy

variable {α : Type}

def GravityOver.counted (s : GravityOver α) (n : Nat) : GravityOver α :=
  ⟨⟨s.gravity.iteration + n, s.gravity.limit⟩⟩

theorem GravityOver.ages_counted (s : GravityOver α) (n : Nat) : Ages n s (s.counted n) :=
  ages_of_states s.counted (fun _ => rfl) n

theorem Gravity.schedule (s : GravityOver α) :
    Schedule s fun n => decide (s.gravity.limit ≤ (s.gravity.iteration + n : Nat)) :=
  Schedule.of_states s.counted (fun _ => rfl) fun _ => rfl

variable [Quantity α]

theorem Constant.schedule (s : Constant α) {m : Numeral α} (h : s.limit.numeral? = some m) :
    Schedule s fun n => m.le (.whole (s.steps + n : Nat)) := by
  refine Schedule.of_states (fun n => { s with steps := s.steps + n }) (fun _ => rfl) fun n => ?_
  change Constant.isDone _ = _
  rw [Constant.isDone, h]

variable [Printed α]

/-- Annealing that began at a real temperature, after a number of steps. -/
def Annealing.cooled (heat cold rate : α) (n : Nat) : Annealing α :=
  ⟨.real ((· * rate)^[n] heat), cold, rate⟩

theorem Annealing.age_cooled (heat cold rate : α) (n : Nat) :
    Strategy.age (cooled heat cold rate n) = .ok (cooled heat cold rate (n + 1)) := by
  rw [cooled, cooled, Function.iterate_succ_apply']
  rfl

/-- Annealing at a real temperature stops once repeated cooling has reached the cold one. -/
theorem Annealing.schedule (heat cold rate : α) :
    Schedule (⟨.real heat, cold, rate⟩ : Annealing α)
      fun n => decide ((· * rate)^[n] heat ≤ cold) :=
  Schedule.of_states (cooled heat cold rate) (age_cooled heat cold rate) fun _ => rfl

namespace Plan

variable {stop : Nat → Bool}

theorem schedule_annealing {s : Annealing α} (h : Schedule s stop) : Schedule (annealing s) stop :=
  h.wrap annealing (fun _ => rfl) fun _ => rfl

theorem schedule_gravity {s : GravityOver α} (h : Schedule s stop) : Schedule (gravity s) stop :=
  h.wrap gravity (fun _ => rfl) fun _ => rfl

theorem schedule_constant {s : Constant α} (h : Schedule s stop) : Schedule (constant s) stop :=
  h.wrap constant (fun _ => rfl) fun _ => rfl

end Plan
end AssignmentSearch
