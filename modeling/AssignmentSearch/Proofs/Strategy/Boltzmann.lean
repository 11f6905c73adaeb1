import AssignmentSearch.Proofs.Quantity.Exponentials
import AssignmentSearch.Proofs.Strategy.Verdicts

/-!
# The chances of annealing

The chance of a candidate is one, zero or an exponential: it is one if the candidate is no costlier,
zero if it is costlier and there is no heat, and `exp (-Δ / T)` otherwise. Across all three it falls
with the cost of the candidate and rises with the temperature. So a candidate that is taken is also
taken at a higher temperature or with a smaller sample, and a cheaper one is taken in its place.
-/

namespace AssignmentSearch

open LawfulQuantity

variable {α τ ρ : Type} [Quantity α]

theorem Scalar.numeral_of_quantity {x : Scalar α} {q : α} (h : x.quantity = .ok q) :
    (∃ n, x.numeral? = some (.whole n) ∧ Quantity.ofInt? n = some q) ∨
      x.numeral? = some (.real q) := by
  have hwhole : ∀ n : Int, quantityOfInt n = .ok q → Quantity.ofInt? n = some q := by
    intro n hn
    rw [quantityOfInt] at hn
    cases hq : (Quantity.ofInt? n : Option α) with
    | none =>
      rw [hq] at hn
      cases hn
    | some q' =>
      rw [hq] at hn
      cases hn
      rfl
  cases x with
  | whole n => exact Or.inl ⟨n, rfl, hwhole n h⟩
  | truth b => exact Or.inl ⟨_, rfl, hwhole _ h⟩
  | real y =>
    cases h
    exact Or.inr rfl
  | alien d => cases h

theorem weigh_real {p r : α} {x : Scalar α} (hx : x.quantity = .ok r)
    (hle : x.le (.real p) = .ok (decide (r ≤ p))) :
    Search.weigh (.real p) x = .ok
      (if p ≤ Quantity.zero then .impossible
        else if r ≤ p then .lucky p r else .unlucky p r) := by
  rw [Search.weigh, Scalar.isAtMostZero_real, hle, hx]
  by_cases hp : p ≤ Quantity.zero
  · rw [decide_eq_true hp, if_pos hp]
    rfl
  · by_cases hr : r ≤ p
    · rw [decide_eq_false hp, if_neg hp, decide_eq_true hr, if_pos hr]
      rfl
    · rw [decide_eq_false hp, if_neg hp, decide_eq_false hr, if_neg hr]
      rfl

variable [LawfulQuantity α]

theorem zero_lt_sub {x y : α} (hx : IsFinite x) (hy : IsFinite y) (h : ¬ x - y ≤ Quantity.zero) :
    Quantity.zero < x - y := by
  rw [sub_le_iff isFinite_zero hx hy, not_le] at h
  exact (lt_sub_iff isFinite_zero hx hy).mpr h

/-- A difference that is at most zero stays so if it is taken from less. -/
theorem sub_le_zero_of_le {x y z : α} (hx : IsFinite x) (hy : IsFinite y) (hz : IsFinite z)
    (hle : value x ≤ value y) (h : y - z ≤ Quantity.zero) : x - z ≤ Quantity.zero := by
  rw [sub_le_iff isFinite_zero hy hz] at h
  rw [sub_le_iff isFinite_zero hx hz]
  exact (gap_mono hle le_rfl).trans h

theorem not_le_zero_iff {x : α} (hx : IsFinite x) : ¬ x ≤ Quantity.zero ↔ 0 < value x := by
  rw [le_iff hx isFinite_zero, value_zero, not_le]

def Scalar.StandsFor (x : Scalar α) (q : α) : Prop := x.quantity = .ok q ∧ IsFinite q

def Plan.AnnealsAt (p : Plan α) (heat : α) : Prop :=
  ∃ s : Annealing α, p = .annealing s ∧ s.temperature.StandsFor heat

/-- A search that anneals at a temperature and is to draw a sample of the unit interval next. -/
structure Search.DecidesBy (s : Search α (Plan α) τ ρ) (heat sample : α) : Prop where
  anneals : s.strategy.AnnealsAt heat
  inUnit : s.source.sample.1.InUnit
  drawn : s.source.sample.1.quantity = .ok sample

section Decision

variable [OrderedArithmetic α]

namespace Scalar

variable {x : Scalar α} {p q : α}

theorem isAtMostZero_of_quantity (h : x.quantity = .ok q) :
    x.isAtMostZero = .ok (decide (q ≤ Quantity.zero)) := by
  rcases numeral_of_quantity h with ⟨n, hn, hq⟩ | hq
  · rw [isAtMostZero, hn]
    exact congrArg Except.ok (decide_eq_decide.mpr (OrderedArithmetic.ofInt?_sign hq).2.1.symm)
  · rw [isAtMostZero, hq]
    rfl

theorem le_of_whole_zero (hx : x.numeral? = some (.whole 0)) (hq : Quantity.ofInt? 0 = some q)
    (hp : IsFinite p) : x.le (.real p) = .ok (decide (q ≤ p)) := by
  obtain ⟨hfinite, hnonpos, hnonneg⟩ := OrderedArithmetic.ofInt?_sign hq
  have hzero : value q = value (Quantity.zero : α) :=
    le_antisymm ((le_iff hfinite isFinite_zero).mp (hnonpos.mpr le_rfl))
      ((le_iff isFinite_zero hfinite).mp (hnonneg.mpr le_rfl))
  have hdecides : Quantity.intLe 0 p = decide (q ≤ p) := by
    rw [Bool.eq_iff_iff, decide_eq_true_iff, OrderedArithmetic.intLe_zero_iff hp,
      le_iff isFinite_zero hp, le_iff hfinite hp, hzero]
  rw [le, hx]
  exact congrArg Except.ok hdecides

theorem InUnit.compared (hunit : x.InUnit) (h : x.quantity = .ok q) (hp : IsFinite p) :
    IsFinite q ∧ x.le (.real p) = .ok (decide (q ≤ p)) := by
  have hwhole : x.numeral? = some (.whole 0) →
      IsFinite q ∧ x.le (.real p) = .ok (decide (q ≤ p)) := by
    intro hx
    rcases numeral_of_quantity h with ⟨n, hn, hq⟩ | hreal
    · rw [hx] at hn
      cases hn
      exact ⟨(OrderedArithmetic.ofInt?_sign hq).1, le_of_whole_zero hx hq hp⟩
    · rw [hx] at hreal
      cases hreal
  cases x with
  | real y =>
    cases h
    exact ⟨OrderedArithmetic.isFinite_of_unit hunit.1 hunit.2, rfl⟩
  | whole n =>
    have hn : n = 0 := hunit
    exact hwhole (by rw [hn]; rfl)
  | truth b =>
    have hb : b = false := hunit
    exact hwhole (by rw [hb]; rfl)
  | alien d => exact hunit.elim

end Scalar

theorem Annealing.chance_of_quantity {t : Scalar α} {heat : α} (h : t.quantity = .ok heat)
    (delta : α) : chance t delta = .ok (probability heat delta) := by
  rw [← chance_real, chance, chance, Scalar.isAtMostZero_of_quantity h, h,
    Scalar.isAtMostZero_real, Scalar.quantity_real]

variable {current candidate : Solution α τ ρ}

theorem acceptance_of_anneals {p : Plan α} {heat a b : α} (hp : p.AnnealsAt heat)
    (ha : current.costValue = .ok a) (hb : candidate.costValue = .ok b) :
    Strategy.acceptance p candidate current =
      .ok (.real (Annealing.probability heat (b - a))) := by
  obtain ⟨s, rfl, hheat, -⟩ := hp
  rw [annealing_acceptance s ha hb, Annealing.chance_of_quantity hheat]
  rfl

end Decision

variable [OrderedArithmetic α] [RealExponential α]

namespace Annealing

variable {heat a b : α}

theorem probability_unit (hheat : IsFinite heat) (ha : IsFinite a) (hb : IsFinite b) :
    IsFinite (probability heat (b - a)) ∧ 0 ≤ value (probability heat (b - a)) ∧
      value (probability heat (b - a)) ≤ 1 := by
  by_cases hdelta : b - a ≤ Quantity.zero
  · rw [probability, if_pos hdelta, value_one]
    exact ⟨isFinite_one, zero_le_one, le_rfl⟩
  · by_cases hcold : heat ≤ Quantity.zero
    · rw [probability, if_neg hdelta, if_pos hcold, value_zero]
      exact ⟨isFinite_zero, le_rfl, zero_le_one⟩
    · rw [probability, if_neg hdelta, if_neg hcold]
      exact RealExponential.exp_unit (OrderedArithmetic.quotient_nonpos (zero_lt_sub hb ha hdelta)
        hheat ((not_le_zero_iff hheat).mp hcold))

theorem probability_mono {heat' b' : α} (hheat : IsFinite heat) (hheat' : IsFinite heat')
    (ha : IsFinite a) (hb : IsFinite b) (hb' : IsFinite b') (hle : value heat ≤ value heat')
    (hcost : value b' ≤ value b) :
    value (probability heat (b - a)) ≤ value (probability heat' (b' - a)) := by
  -- The regimes are left in turn: the cheaper candidate is no costlier, there is no heat, and then
  -- both probabilities are exponentials.
  by_cases hdelta' : b' - a ≤ Quantity.zero
  · have hone : probability heat' (b' - a) = Quantity.one := if_pos hdelta'
    rw [hone, value_one]
    exact (probability_unit hheat ha hb).2.2
  have hdelta : ¬ b - a ≤ Quantity.zero := fun h => hdelta' (sub_le_zero_of_le hb' hb ha hcost h)
  by_cases hcold : heat ≤ Quantity.zero
  · have hzero : probability heat (b - a) = Quantity.zero := by
      rw [probability, if_neg hdelta, if_pos hcold]
    rw [hzero, value_zero]
    exact (probability_unit hheat' ha hb').2.1
  have hpos := (not_le_zero_iff hheat).mp hcold
  have hpos' : 0 < value heat' := hpos.trans_le hle
  rw [probability, if_neg hdelta, if_neg hcold, probability, if_neg hdelta',
    if_neg ((not_le_zero_iff hheat').mpr hpos')]
  have hrise := zero_lt_sub hb ha hdelta
  have hrise' := zero_lt_sub hb' ha hdelta'
  have hrises : b' - a ≤ b - a := OrderedArithmetic.sub_mono hb' hb ha hcost
  exact RealExponential.exp_mono
    (OrderedArithmetic.quotient_mono hrise' hrises hheat hheat' hpos hle)
    (OrderedArithmetic.quotient_nonpos hrise hheat hpos)
    (OrderedArithmetic.quotient_nonpos hrise' hheat' hpos')

end Annealing

variable {current : Solution α τ ρ}

/-- Annealing gives a candidate a probability between zero and one. It is one for a candidate that
is no costlier, zero for a costlier one without heat, and otherwise an exponential. -/
theorem chance_of_anneals {p : Plan α} {heat : α} {candidate : Solution α τ ρ}
    (hp : p.AnnealsAt heat) (hcurrent : current.HasFiniteCost)
    (hcandidate : candidate.HasFiniteCost) :
    ∃ x, Strategy.acceptance p candidate current = .ok (.real x) ∧
      Quantity.zero ≤ x ∧ x ≤ Quantity.one ∧
      (candidate.level ≤ current.level → x = Quantity.one) ∧
      (current.level < candidate.level → value heat ≤ 0 → x = Quantity.zero) ∧
      (current.level < candidate.level → 0 < value heat → ∀ a b, current.costValue = .ok a →
        candidate.costValue = .ok b → x = Quantity.exp (-(b - a) / heat)) := by
  obtain ⟨a, ha, hafinite⟩ := hcurrent
  obtain ⟨b, hb, hbfinite⟩ := hcandidate
  have haccept := acceptance_of_anneals hp ha hb
  obtain ⟨-, -, -, hheat⟩ := hp
  obtain ⟨hfinite, hlow, hhigh⟩ := Annealing.probability_unit hheat hafinite hbfinite
  have hrises : value a < value b → ¬ b - a ≤ Quantity.zero := fun hlt h =>
    not_le.mpr hlt (OrderedArithmetic.value_le_of_sub hbfinite hafinite h)
  rw [Solution.level_of_cost ha, Solution.level_of_cost hb]
  refine ⟨_, haccept, ?_, ?_, fun hle => ?_, fun hlt hcold => ?_, fun hlt hhot => ?_⟩
  · rw [le_iff isFinite_zero hfinite, value_zero]
    exact hlow
  · rw [le_iff hfinite isFinite_one, value_one]
    exact hhigh
  · have hdelta : b - a ≤ Quantity.zero := by
      rw [sub_le_iff isFinite_zero hbfinite hafinite, value_zero]
      exact gap_nonpos hle
    exact if_pos hdelta
  · rw [← value_zero (α := α), ← le_iff hheat isFinite_zero] at hcold
    rw [Annealing.probability, if_neg (hrises hlt), if_pos hcold]
  · intro a' b' ha' hb'
    rw [ha] at ha'
    rw [hb] at hb'
    cases ha'
    cases hb'
    rw [Annealing.probability, if_neg (hrises hlt), if_neg ((not_le_zero_iff hheat).mpr hhot)]

theorem chances_rise {p p' : Plan α} {heat heat' x x' : α} {candidate candidate' : Solution α τ ρ}
    (hp : p.AnnealsAt heat) (hp' : p'.AnnealsAt heat') (hheats : value heat ≤ value heat')
    (hcurrent : current.HasFiniteCost) (hcandidate : candidate.HasFiniteCost)
    (hcandidate' : candidate'.HasFiniteCost) (hle : candidate'.level ≤ candidate.level)
    (hx : Strategy.acceptance p candidate current = .ok (.real x))
    (hx' : Strategy.acceptance p' candidate' current = .ok (.real x')) :
    x ≤ x' := by
  obtain ⟨a, ha, hafinite⟩ := hcurrent
  obtain ⟨b, hb, hbfinite⟩ := hcandidate
  obtain ⟨b', hb', hbfinite'⟩ := hcandidate'
  rw [acceptance_of_anneals hp ha hb] at hx
  rw [acceptance_of_anneals hp' ha hb'] at hx'
  cases hx
  cases hx'
  obtain ⟨-, -, -, hheat⟩ := hp
  obtain ⟨-, -, -, hheat'⟩ := hp'
  rw [Solution.level_of_cost hb, Solution.level_of_cost hb'] at hle
  rw [le_iff (Annealing.probability_unit hheat hafinite hbfinite).1
    (Annealing.probability_unit hheat' hafinite hbfinite').1]
  exact Annealing.probability_mono hheat hheat' hafinite hbfinite hbfinite' hheats hle

/-- The decision of annealing: a better candidate is taken, and another one if its probability is
above zero and the sample no higher than that. -/
theorem assess_of_decides {s : Search α (Plan α) τ ρ} {heat sample : α}
    {candidate : Solution α τ ρ} (hs : s.DecidesBy heat sample) (hcurrent : current.HasFiniteCost)
    (hcandidate : candidate.HasFiniteCost) :
    ∃ reason, ((Search.assess current candidate).start s).1 = .ok reason ∧
      (reason.accepts = true ↔ candidate.isBetterThan current = .ok true ∨
        ∃ x, Strategy.acceptance s.strategy candidate current =
          .ok (.real x) ∧ 0 < value x ∧ value sample ≤ value x) := by
  obtain ⟨a, ha, hafinite⟩ := id hcurrent
  obtain ⟨b, hb, hbfinite⟩ := id hcandidate
  obtain ⟨-, -, -, hheat⟩ := hs.anneals
  have hfinite := (Annealing.probability_unit hheat hafinite hbfinite).1
  obtain ⟨hsample, hcompared⟩ := hs.inUnit.compared hs.drawn hfinite
  rw [(Search.start_assess current candidate s).1]
  rcases Solution.isBetterThan_or hcandidate hcurrent with hbetter | hnot
  · exact ⟨.better, Search.verdict_of_better hbetter, iff_of_true rfl (Or.inl hbetter)⟩
  · rw [Search.verdict_of_not_better hnot, acceptance_of_anneals hs.anneals ha hb, hnot]
    generalize Annealing.probability heat (b - a) = p at *
    refine ⟨_, weigh_real hs.drawn hcompared, ?_⟩
    have hrule : ((Except.ok false : Except Fault Bool) = .ok true ∨
        ∃ x, (Except.ok (.real p) : Except Fault (Scalar α)) = .ok (.real x) ∧ 0 < value x ∧
          value sample ≤ value x) ↔ ¬ p ≤ Quantity.zero ∧ sample ≤ p := by
      rw [not_le_zero_iff hfinite, le_iff hsample hfinite]
      constructor
      · rintro (hfalse | ⟨x, hx, h⟩)
        · cases hfalse
        · cases hx
          exact h
      · exact fun h => Or.inr ⟨p, rfl, h⟩
    rw [hrule]
    by_cases hp : p ≤ Quantity.zero
    · rw [if_pos hp]
      exact iff_of_false Bool.false_ne_true fun h => h.1 hp
    · by_cases hr : sample ≤ p
      · rw [if_neg hp, if_pos hr]
        exact iff_of_true rfl ⟨hp, hr⟩
      · rw [if_neg hp, if_neg hr]
        exact iff_of_false Bool.false_ne_true fun h => hr h.2

/-- What is taken with a sample is also taken with a lesser one, at a higher temperature, and if it
costs less. -/
theorem assess_rises {s s' : Search α (Plan α) τ ρ} {heat heat' sample sample' : α}
    {candidate candidate' : Solution α τ ρ} (hs : s.DecidesBy heat sample)
    (hs' : s'.DecidesBy heat' sample') (hheats : value heat ≤ value heat')
    (hsamples : value sample' ≤ value sample) (hcurrent : current.HasFiniteCost)
    (hcandidate : candidate.HasFiniteCost) (hcandidate' : candidate'.HasFiniteCost)
    (hle : candidate'.level ≤ candidate.level) {reason reason' : Reason α}
    (hreason : ((Search.assess current candidate).start s).1 = .ok reason)
    (hreason' : ((Search.assess current candidate').start s').1 = .ok reason')
    (haccepts : reason.accepts = true) : reason'.accepts = true := by
  obtain ⟨_, hanswer, hrule⟩ := assess_of_decides hs hcurrent hcandidate
  obtain ⟨_, hanswer', hrule'⟩ := assess_of_decides hs' hcurrent hcandidate'
  rw [hanswer] at hreason
  rw [hanswer'] at hreason'
  cases hreason
  cases hreason'
  rw [hrule] at haccepts
  rw [hrule']
  rcases haccepts with hbetter | ⟨x, hx, hpos, hlucky⟩
  · rw [Solution.isBetterThan_iff hcandidate hcurrent] at hbetter
    rw [Solution.isBetterThan_iff hcandidate' hcurrent]
    exact Or.inl ((gap_mono hle le_rfl).trans_lt hbetter)
  · obtain ⟨x', hx', -⟩ := chance_of_anneals hs'.anneals hcurrent hcandidate'
    have hrise : value x ≤ value x' := OrderedArithmetic.value_mono
      (chances_rise hs.anneals hs'.anneals hheats hcurrent hcandidate hcandidate' hle hx hx')
    exact Or.inr ⟨x', hx', hpos.trans_le hrise, hsamples.trans (hlucky.trans hrise)⟩

/-- Annealing takes a candidate with a probability between zero and one. It is one for a candidate
that is no costlier, zero for a costlier one without heat, and otherwise an exponential. It is no
lower for a candidate that costs no more or at a higher temperature. What is taken is also taken if
it costs less, at a higher temperature and with a lesser sample, all of them or any. -/
theorem annealing_takes_more_when_hotter_or_cheaper (hcurrent : current.HasFiniteCost) :
    (∀ (p : Plan α) (heat : α) (candidate : Solution α τ ρ), p.AnnealsAt heat →
      candidate.HasFiniteCost →
        ∃ x, Strategy.acceptance p candidate current = .ok (.real x) ∧
          Quantity.zero ≤ x ∧ x ≤ Quantity.one ∧
          (candidate.level ≤ current.level → x = Quantity.one) ∧
          (current.level < candidate.level → value heat ≤ 0 → x = Quantity.zero) ∧
          (current.level < candidate.level → 0 < value heat → ∀ a b, current.costValue = .ok a →
            candidate.costValue = .ok b → x = Quantity.exp (-(b - a) / heat))) ∧
    (∀ (p p' : Plan α) (heat heat' x x' : α) (candidate candidate' : Solution α τ ρ),
      p.AnnealsAt heat → p'.AnnealsAt heat' → value heat ≤ value heat' →
      candidate.HasFiniteCost → candidate'.HasFiniteCost → candidate'.level ≤ candidate.level →
      Strategy.acceptance p candidate current = .ok (.real x) →
      Strategy.acceptance p' candidate' current = .ok (.real x') → x ≤ x') ∧
    (∀ (s : Search α (Plan α) τ ρ) (heat sample : α) (candidate : Solution α τ ρ),
      s.DecidesBy heat sample → candidate.HasFiniteCost →
        ∃ reason, ((Search.assess current candidate).start s).1 = .ok reason ∧
          (reason.accepts = true ↔ candidate.isBetterThan current = .ok true ∨
            ∃ x, Strategy.acceptance s.strategy candidate current =
              .ok (.real x) ∧ 0 < value x ∧ value sample ≤ value x)) ∧
    (∀ (s s' : Search α (Plan α) τ ρ) (heat heat' sample sample' : α)
      (candidate candidate' : Solution α τ ρ) (reason reason' : Reason α),
      s.DecidesBy heat sample → s'.DecidesBy heat' sample' → value heat ≤ value heat' →
      value sample' ≤ value sample → candidate.HasFiniteCost → candidate'.HasFiniteCost →
      candidate'.level ≤ candidate.level →
      ((Search.assess current candidate).start s).1 = .ok reason →
      ((Search.assess current candidate').start s').1 = .ok reason' →
      reason.accepts = true → reason'.accepts = true) :=
  ⟨fun _ _ _ hp hcandidate => chance_of_anneals hp hcurrent hcandidate,
    fun _ _ _ _ _ _ _ _ hp hp' hheats hcandidate hcandidate' hle =>
      chances_rise hp hp' hheats hcurrent hcandidate hcandidate' hle,
    fun _ _ _ _ hs hcandidate => assess_of_decides hs hcurrent hcandidate,
    fun _ _ _ _ _ _ _ _ _ _ hs hs' hheats hsamples hcandidate hcandidate' hle =>
      assess_rises hs hs' hheats hsamples hcurrent hcandidate hcandidate' hle⟩

/-- Doubles with the real exponential, from a cost of five: a cost of six at a temperature of twenty
is no less likely to be taken than a cost of seven at a temperature of ten. -/
theorem annealing_takes_more_when_hotter_or_cheaper_doubles :
    let costing (c : ExpDouble) : Solution ExpDouble Nat Nat := .of (.fixed "Fixed" (.ok c)) .empty
    let plan (heat : ExpDouble) : Plan ExpDouble :=
      .annealing ⟨.real heat, (0.1 : Float), (0.9 : Float)⟩
    let search (heat sample : ExpDouble) : Search ExpDouble (Plan ExpDouble) Nat Nat :=
      .fresh (plan heat) (.exchanging (costing (5 : Float))) (.repeating [.real sample]) (.int 1)
        none
    (∃ x x', Strategy.acceptance (plan (10 : Float)) (costing (7 : Float)).costValue
          (costing (5 : Float)).costValue = .ok (.real x) ∧
        Strategy.acceptance (plan (20 : Float)) (costing (6 : Float)).costValue
          (costing (5 : Float)).costValue = .ok (.real x') ∧
        Quantity.zero ≤ x ∧ x ≤ x' ∧ x' ≤ Quantity.one) ∧
      ∃ reason reason',
        ((Search.assess (costing (5 : Float)) (costing (7 : Float))).start
          (search (10 : Float) (0.5 : Float))).1 = .ok reason ∧
        ((Search.assess (costing (5 : Float)) (costing (6 : Float))).start
          (search (20 : Float) (0.25 : Float))).1 = .ok reason' ∧
        (reason.accepts = true → reason'.accepts = true) := by
  intro costing plan search
  have hfinite : ∀ c ∈ [(5 : Float), 6, 7, 10, 20, 0.25, 0.5], Binary64.IsFinite c := by
    decide +kernel
  have hcost : ∀ c : Float, Binary64.IsFinite c → (costing c).HasFiniteCost := fun c hc =>
    ⟨c, rfl, hc⟩
  have hplan : ∀ heat : Float, Binary64.IsFinite heat → (plan heat).AnnealsAt heat :=
    fun heat hheat => ⟨_, rfl, rfl, hheat⟩
  have hlevel : (costing (6 : Float)).level ≤ (costing (7 : Float)).level :=
    Binary64.valueOf_le_iff.mpr (by decide +kernel)
  have hheats : Binary64.valueOf 10 ≤ Binary64.valueOf 20 :=
    Binary64.valueOf_le_iff.mpr (by decide +kernel)
  have hsamples : Binary64.valueOf 0.25 ≤ Binary64.valueOf 0.5 :=
    Binary64.valueOf_le_iff.mpr (by decide +kernel)
  have hunits : ((0 : Float) ≤ 0.5 ∧ (0.5 : Float) < 1) ∧ (0 : Float) ≤ 0.25 ∧
      (0.25 : Float) < 1 := by
    decide +kernel
  have hsix := hcost 6 (hfinite 6 (by simp))
  have hseven := hcost 7 (hfinite 7 (by simp))
  have hten := hplan 10 (hfinite 10 (by simp))
  have htwenty := hplan 20 (hfinite 20 (by simp))
  have hhalf : (search (10 : Float) (0.5 : Float)).DecidesBy (10 : Float) (0.5 : Float) :=
    ⟨hten, hunits.1, rfl⟩
  have hquarter : (search (20 : Float) (0.25 : Float)).DecidesBy (20 : Float) (0.25 : Float) :=
    ⟨htwenty, hunits.2, rfl⟩
  obtain ⟨hunit, hrise, hanswer, haccepts⟩ :=
    annealing_takes_more_when_hotter_or_cheaper (hcost 5 (hfinite 5 (by simp)))
  obtain ⟨x, hx, hlow, -⟩ := hunit _ _ _ hten hseven
  obtain ⟨x', hx', -, hhigh, -⟩ := hunit _ _ _ htwenty hsix
  have hle := hrise _ _ _ _ _ _ _ _ hten htwenty hheats hseven hsix hlevel hx hx'
  obtain ⟨reason, hreason, -⟩ := hanswer _ _ _ _ hhalf hseven
  obtain ⟨reason', hreason', -⟩ := hanswer _ _ _ _ hquarter hsix
  exact ⟨⟨x, x', hx, hx', hlow, hle, hhigh⟩, reason, reason', hreason, hreason',
    haccepts _ _ _ _ _ _ _ _ _ _ hhalf hquarter hheats hsamples hseven hsix hlevel hreason
      hreason'⟩

end AssignmentSearch
