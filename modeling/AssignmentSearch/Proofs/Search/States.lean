import AssignmentSearch.Proofs.Binary64.Whole
import AssignmentSearch.Proofs.Search.History

/-!
# The states in the table of steps

A limit is near a double, so it has some three hundred digits, and the count of steps never goes beyond
it. So the state that is recorded with a step can always be written, and a recorder need not provide
for one that cannot.
-/

namespace AssignmentSearch

namespace Binary64

theorem log2_le_of_ofInt? {n : Int} {x : Float} (h : ofInt? n = some x) :
    n.natAbs.log2 ≤ 1024 := by
  by_contra hlarge
  have hpos : 0 < n.natAbs := by
    refine Nat.pos_of_ne_zero fun hzero => hlarge ?_
    rw [hzero]
    decide
  have horder : binaryOrder n.natAbs 1 = n.natAbs.log2 := by
    rw [← Nat.pow_zero 2, binaryOrder_two_pow hpos, Int.natCast_zero, Int.sub_zero]
  have hfield : 2047 ≤ (max (binaryOrder n.natAbs 1 - 52) (-1074) + 1074).toNat := by
    rw [horder]
    omega
  have hbits : nearestBits n.natAbs 1 = infinityBits := by
    rw [nearestBits, if_neg hpos.ne']
    exact Nat.min_eq_right ((Nat.mul_le_mul_right _ hfield).trans (Nat.le_add_right _ _))
  simp [ofInt?, hbits] at h

theorem div_ratio_lt {d : Dyad} (hm : d.mantissa < 2 ^ 53) :
    d.ratio.1 / d.ratio.2 < 2 ^ (53 + d.exponent.toNat) := by
  rw [Dyad.ratio, scale, Nat.pow_add]
  split
  · rw [Nat.div_one]
    exact Nat.mul_lt_mul_of_pos_right hm (Nat.two_pow_pos _)
  · calc d.mantissa / (1 * Nat.pow 2 (-d.exponent).toNat) ≤ d.mantissa := Nat.div_le_self _ _
      _ < 2 ^ 53 := hm
      _ ≤ 2 ^ 53 * 2 ^ d.exponent.toNat := Nat.le_mul_of_pos_right _ (Nat.two_pow_pos _)

theorem log2_truncate_le {x : Float} {d : Dyad} (h : decode x = .finite d) :
    d.truncate.natAbs.log2 ≤ 1024 := by
  have habs : d.truncate.natAbs = d.ratio.1 / d.ratio.2 := by
    rw [Dyad.truncate]
    rcases d.ratio with ⟨num, den⟩
    dsimp only
    split
    · exact (Int.natAbs_neg _).trans (Int.natAbs_natCast _)
    · exact Int.natAbs_natCast _
  by_cases hzero : d.ratio.1 / d.ratio.2 = 0
  · rw [habs, hzero]
    decide
  · have hm : d.mantissa ≠ 0 := by
      intro hm
      apply hzero
      rw [Dyad.ratio, scale, hm]
      split
      · rw [Nat.zero_mul, Nat.zero_div]
      · rw [Nat.zero_div]
    have hexponent := (canonical_of_ofBits h hm).2
    have hlog := (Nat.log2_lt hzero).mpr (div_ratio_lt (mantissa_lt _ h))
    rw [habs]
    omega

end Binary64

theorem Datum.isLong_of_log2 {n : Int} (h : n.natAbs.log2 < 4299) : (int n).isLong = false := by
  have hlength : n.natAbs.log2 + 1 ≤ Reading.maxIntDigits := show _ ≤ 4300 by omega
  rw [isLong_int_eq_false]
  unfold leastLong
  generalize Reading.maxIntDigits = k at hlength
  calc n.natAbs < 2 ^ (n.natAbs.log2 + 1) := Nat.lt_log2_self
    _ ≤ 10 ^ (n.natAbs.log2 + 1) := Nat.pow_le_pow_left (by decide) _
    _ ≤ 10 ^ k := Nat.pow_le_pow_right (by decide) hlength

/-- A limit has a double near it, so it is not too long to be written. -/
theorem Gravity.log2_limitOf_le {given : Datum} {n : Int} (h : limitOf given = .ok n) :
    n.natAbs.log2 ≤ 1024 := by
  rw [limitOf.eq_def] at h
  cases given with
  | int m =>
    obtain ⟨x, hx, h⟩ := exists_of_bind_ok h
    by_cases hm : m < 1
    · rw [if_pos hm] at h
      cases h
    · rw [if_neg hm] at h
      cases h
      rw [quantityOfInt] at hx
      cases hnear : (Quantity.ofInt? n : Option Float) with
      | none =>
        rw [hnear] at hx
        cases hx
      | some y => exact Binary64.log2_le_of_ofInt? hnear
  | float x =>
    dsimp only at h
    cases hx : Binary64.decode x with
    | finite d =>
      rw [hx] at h
      dsimp only at h
      split at h
      · cases h
        exact Binary64.log2_truncate_le hx
      · cases h
    | nan =>
      rw [hx] at h
      cases h
    | infinite sign =>
      rw [hx] at h
      cases h
  | _ => cases h

theorem GravityOver.state_counted {α : Type} {s : GravityOver α} {n : Nat}
    (hlimit : (Datum.int s.gravity.limit).isLong = false)
    (hn : (s.gravity.iteration + n : Nat) ≤ s.gravity.limit) :
    (Strategy.state (s.counted n)).any (·.2.isLong) = false := by
  have hcount : (Datum.int (s.gravity.iteration + n : Nat)).isLong = false := by
    rw [Datum.isLong_int_eq_false] at hlimit ⊢
    omega
  simp only [Strategy.state, counted, List.any_cons, List.any_nil, hcount, hlimit, Bool.or_self]

theorem Annealing.state_cooled (heat cold rate : Float) (n : Nat) :
    (Strategy.state (cooled heat cold rate n)).any (·.2.isLong) = false := rfl

/-- No number in the state of a plan gets too long to be written before the schedule is to stop. -/
theorem Plan.IsMade.state_aged {plan a : Plan Float} (hplan : plan.IsMade) {stop : Nat → Bool}
    (hschedule : Strategy.Schedule plan stop) {n : Nat} (ha : Strategy.Ages n plan a)
    (hearlier : ∀ k < n, stop k = false) : (Strategy.state a).any (·.2.isLong) = false := by
  cases hplan with
  | annealing made =>
    obtain ⟨initial, -, hs⟩ := exists_of_bind_ok made
    obtain ⟨cold, -, hs⟩ := exists_of_bind_ok hs
    obtain ⟨rate, -, hs⟩ := exists_of_bind_ok hs
    obtain ⟨rfl, -⟩ := Annealing.ranked_of_make hs
    have hages := Strategy.ages_of_states (Annealing.cooled initial cold rate)
      (Annealing.age_cooled initial cold rate) n
    rw [ha.unique (hages.wrap (f := Plan.annealing) fun _ => rfl)]
    exact Annealing.state_cooled initial cold rate n
  | @gravity given g made =>
    obtain ⟨limit, hlimit, hg⟩ := exists_of_bind_ok made
    cases hg
    have hages := (GravityOver.ages_counted (α := Float) ⟨⟨0, limit⟩⟩)
    rw [ha.unique ((hages n).wrap (f := Plan.gravity) fun _ => rfl)]
    have hn : (0 + n : Nat) ≤ limit := by
      cases n with
      | zero => exact le_trans (by decide) (Gravity.one_le_of_limitOf hlimit)
      | succ m =>
        have hstop := hschedule.stops_eq ((hages m).wrap (f := Plan.gravity) fun _ => rfl)
        rw [hearlier m (Nat.lt_succ_self m)] at hstop
        have hgoes : ¬ limit ≤ (0 + m : Nat) := of_decide_eq_false (Except.ok.inj hstop)
        omega
    exact GravityOver.state_counted
      (Datum.isLong_of_log2 ((Gravity.log2_limitOf_le hlimit).trans_lt (by decide))) hn

variable {τ ρ : Type} [ToString τ] [ToString ρ]

/-- The state that is recorded with a step can be written, whatever the search has been asked. -/
theorem recorded_states_are_short {plan : Plan Float} (hplan : plan.IsMade)
    {landscape : Landscape Float τ ρ} {source : Source Float} {searches : Datum}
    {recorder : Recorder} (hplain : recorder.IsPlain) {s : Search Float (Plan Float) τ ρ}
    (hs : Search.ofDatum plan landscape source searches (some recorder) = .ok s)
    (w : Surroundings Float) (calls : List Call) {o : Outcome Float}
    (ho : o ∈ Call.outcomes calls (s, w)) :
    (Strategy.state (Strategy.aged plan o.iteration)).any (·.2.isLong) = false := by
  obtain ⟨stop, hscheduled, hrun⟩ := hplan.ledger_after hplain hs w calls
  have hrange := List.mem_map_of_mem (f := (·.iteration)) ho
  rw [hrun.stepwise.iterations, List.mem_range'_1] at hrange
  have hle : o.iteration ≤ (Call.after calls (s, w)).1.steps := by omega
  exact hplan.state_aged hscheduled.schedule (hrun.stepwise.ages.aged_of_le hle) fun k hk =>
    hrun.stepwise.earlier k (by omega)

end AssignmentSearch
