import AssignmentSearch.Proofs.Placement.Plans
import AssignmentSearch.Proofs.Scenario.Consistency

/-!
# The parameters of a search

What a scenario gives counts before the settings, and what counts alone decides which search is built.
Settings are not checked before: a search is built just if the parameters that its algorithm has are
admissible.
-/

namespace AssignmentSearch

open Binary64

/-! ## Numbers of the environment -/

theorem digitValue?_lt {c : Char} {d : Nat} (h : digitValue? c = some d) : d < 10 := by
  rw [digitValue?] at h
  split at h
  · split at h
    · rename_i hdigit
      have hnine : c.toNat ≤ 57 := hdigit.2
      cases h
      omega
    · cases h
  · obtain ⟨z, hz, rfl⟩ := Option.map_eq_some_iff.mp h
    have hrange := List.find?_some hz
    simp only [Bool.and_eq_true, decide_eq_true_eq] at hrange
    omega

namespace Reading

theorem foldl_digits_lt (ds : List Nat) {n k : Nat} (hds : ∀ d ∈ ds, d < 10) (hn : n < 10 ^ k) :
    ds.foldl (fun n d => 10 * n + d) n < 10 ^ (k + ds.length) := by
  induction ds generalizing n k with
  | nil => simpa using hn
  | cons d rest ih =>
    have hd : d < 10 := hds d List.mem_cons_self
    have hnext : 10 * n + d < 10 ^ (k + 1) := by
      rw [pow_succ]
      omega
    have hrest := ih (fun e he => hds e (List.mem_cons_of_mem d he)) hnext
    rwa [show k + 1 + rest.length = k + (d :: rest).length by simp; omega] at hrest

theorem length_digits_le (cs : List Char) :
    (cs.filterMap digitValue?).length ≤ (cs.filter (· ≠ '_')).length := by
  induction cs with
  | nil => simp
  | cons c rest ih =>
    by_cases hc : c = '_'
    · have hnone : digitValue? '_' = none := by decide
      simpa [hc, hnone] using ih
    · cases hd : digitValue? c with
      | none =>
        rw [List.filterMap_cons_none hd, List.filter_cons_of_pos (by simpa using hc), List.length_cons]
        omega
      | some d => simpa [hd, hc] using ih

theorem numberOf_lt (cs : List Char) : numberOf cs < 10 ^ (cs.filter (· ≠ '_')).length := by
  have hdigits : ∀ d ∈ cs.filterMap digitValue?, d < 10 := by
    intro d hd
    obtain ⟨c, -, hc⟩ := List.mem_filterMap.mp hd
    exact digitValue?_lt hc
  have hlt := foldl_digits_lt _ (n := 0) (k := 0) hdigits (by decide)
  rw [Nat.zero_add] at hlt
  exact hlt.trans_le (Nat.pow_le_pow_right (by decide) (length_digits_le cs))

theorem natAbs_lt_of_int {s : String} {n : Int} (h : int s = .ok n) :
    n.natAbs < 10 ^ maxIntDigits := by
  rw [int] at h
  split at h
  dsimp only at h
  split at h
  · cases h
  split at h
  · cases h
  rename_i hcount
  split at h
  · cases h
  have hlt := (numberOf_lt _).trans_le (Nat.pow_le_pow_right (n := 10) (by decide) (not_lt.mp hcount))
  cases h
  split <;> simpa using hlt

end Reading

/-- What was read as an integer can be written. -/
theorem Datum.isLong_of_intOfText {s : String} {n : Int} (h : intOfText s = .ok n) :
    (Datum.int n).isLong = false := by
  have hread : Reading.int s = .ok n := by
    rw [intOfText] at h
    split at h
    · cases h
      assumption
    · cases h
    · cases h
  have hlt := Reading.natAbs_lt_of_int hread
  rw [isLong_int_eq_false]
  unfold leastLong
  generalize Reading.maxIntDigits = k at hlt ⊢
  exact hlt

/-! ## Parameters -/

structure Parameters where
  initial : Float
  cold : Float
  rate : Float
  iterations : Int
  searches : Int
  seed : Option Int

structure Settings.Holds (cfg : Settings) (p : Parameters) : Prop where
  initial : cfg.initial = .float p.initial
  cold : cfg.cold = .float p.cold
  rate : cfg.rate = .float p.rate
  iterations : cfg.iterations = .int p.iterations
  searches : cfg.searches = .int p.searches
  seed : cfg.seed = Scenario.given .int p.seed
  short : (Datum.int p.searches).isLong = false

namespace Settings

theorem exists_of_float {env : Environment} {name : String} {absent : Float} {d : Datum}
    (h : float env name (.float absent) = .ok d) : ∃ x, d = .float x := by
  rw [float] at h
  split at h
  · cases h
    exact ⟨absent, rfl⟩
  · rename_i value hgiven
    obtain ⟨x, -, hx⟩ := exists_of_bind_ok h
    cases hx
    exact ⟨x, rfl⟩

theorem exists_of_int {env : Environment} {name : String} {absent : Int} {d : Datum}
    (habsent : (Datum.int absent).isLong = false) (h : int env name (.int absent) = .ok d) :
    ∃ n, d = .int n ∧ (Datum.int n).isLong = false := by
  rw [int] at h
  split at h
  · cases h
    exact ⟨absent, rfl, habsent⟩
  · rename_i value hgiven
    obtain ⟨n, hread, hn⟩ := exists_of_bind_ok h
    cases hn
    exact ⟨n, rfl, Datum.isLong_of_intOfText hread⟩

theorem exists_of_seed {env : Environment} {name : String} {d : Datum}
    (h : int env name .null = .ok d) : ∃ seed, d = Scenario.given .int seed := by
  rw [int] at h
  split at h
  · cases h
    exact ⟨none, rfl⟩
  · rename_i value hgiven
    obtain ⟨n, -, hn⟩ := exists_of_bind_ok h
    cases hn
    exact ⟨some n, rfl⟩

/-- What an environment gives are numbers, whatever their size. -/
theorem exists_holds_of_environment {root : String} {env : Environment} {cfg : Settings}
    (h : ofEnvironment root env = .ok cfg) : ∃ p, cfg.Holds p := by
  obtain ⟨initial, hinitial, h⟩ := exists_of_bind_ok h
  obtain ⟨cold, hcold, h⟩ := exists_of_bind_ok h
  obtain ⟨rate, hrate, h⟩ := exists_of_bind_ok h
  obtain ⟨iterations, hiterations, h⟩ := exists_of_bind_ok h
  obtain ⟨searches, hsearches, h⟩ := exists_of_bind_ok h
  obtain ⟨seed, hseed, h⟩ := exists_of_bind_ok h
  cases h
  obtain ⟨a, rfl⟩ := exists_of_float hinitial
  obtain ⟨b, rfl⟩ := exists_of_float hcold
  obtain ⟨c, rfl⟩ := exists_of_float hrate
  obtain ⟨m, rfl, -⟩ := exists_of_int (by decide +kernel) hiterations
  obtain ⟨n, rfl, hshort⟩ := exists_of_int (by decide +kernel) hsearches
  obtain ⟨seed, rfl⟩ := exists_of_seed hseed
  exact ⟨⟨a, b, c, m, n, seed⟩, rfl, rfl, rfl, rfl, rfl, rfl, hshort⟩

end Settings

/-! ## What a scenario was accepted with -/

namespace Scenario

open FieldValue Checked

structure Bounded (s : Scenario) : Prop where
  initial : ∀ x, s.annealing.initial = some x → 0 < x
  cold : ∀ x, s.annealing.cold = some x → 0 < x
  rate : ∀ x, s.annealing.rate = some x → x < 1 ∧ 0 < x
  iterations : ∀ n, s.iterations = some n → 1 ≤ n
  searches : ∀ n, s.searches = some n → 1 ≤ n

theorem read_of_given {β : Type} {read : Datum → Checked β} {write : β → Datum} {given? : Option β}
    (hne : ∀ x, write x ≠ .null) (h : optional read (given write given?) = .ok given?) (x : β)
    (hx : given? = some x) : read (write x) = .ok x := by
  subst hx
  rw [Scenario.given, optional_of_ne_null (hne x)] at h
  obtain ⟨y, hy, hyx⟩ := map_eq_ok.mp h
  cases hyx
  exact hy

theorem Bounded.of_annealing {c : AnnealingChoice}
    (h : model annealingFields (annealingDump c) = .ok c) :
    (∀ x, c.initial = some x → 0 < x) ∧ (∀ x, c.cold = some x → 0 < x) ∧
      ∀ x, c.rate = some x → x < 1 ∧ 0 < x := by
  obtain ⟨⟨⟨initial, cold⟩, rate⟩, hall, rfl⟩ := map_eq_ok.mp h
  obtain ⟨hpair, hrate⟩ := both_eq_ok.mp hall
  obtain ⟨hinitial, hcold⟩ := both_eq_ok.mp hpair
  rw [named_of_present (d := given .float initial) rfl, below_eq_ok] at hinitial
  rw [named_of_present (d := given .float cold) rfl, below_eq_ok] at hcold
  rw [named_of_present (d := given .float rate) rfl, below_eq_ok] at hrate
  refine ⟨fun x hx => ?_, fun x hx => ?_, fun x hx => ?_⟩
  · exact (positive_eq_ok.mp (read_of_given nofun hinitial x hx)).2
  · exact (positive_eq_ok.mp (read_of_given nofun hcold x hx)).2
  · exact (fraction_eq_ok.mp (read_of_given nofun hrate x hx)).2

theorem Legible.bounded {s : Scenario} (h : s.Legible) : s.Bounded := by
  obtain ⟨hinitial, hcold, hrate⟩ := Bounded.of_annealing h.annealing
  have hgravity : named [(.str "max_iterations", given .int s.iterations)] "max_iterations" (.ok none)
      (optional (intFrom 1 .greaterThanEqual)) = .ok s.iterations := h.gravity
  rw [named_of_present (d := given .int s.iterations) rfl, below_eq_ok] at hgravity
  refine ⟨hinitial, hcold, hrate, fun n hn => ?_, fun n hn => ?_⟩
  · exact (intFrom_eq_ok.mp (read_of_given nofun hgravity n hn)).2
  · exact (intFrom_eq_ok.mp (read_of_given nofun h.searches n hn)).2

theorem bounded_of_check {d : Datum} {s : Scenario} (h : check d = .ok s) : s.Bounded := by
  obtain ⟨entries, hfields, -⟩ := exists_fields_of_check h
  exact (legible_of_fields hfields).bounded

theorem consistent_of_check {d : Datum} {s : Scenario} (h : check d = .ok s) : s.Consistent := by
  obtain ⟨entries, -, hrules⟩ := exists_fields_of_check h
  exact checkRules_eq_ok_iff.mp hrules

end Scenario

/-! ## What is built -/

namespace Parameters

def under (p : Parameters) (s : Scenario) : Parameters where
  initial := s.annealing.initial.getD p.initial
  cold := s.annealing.cold.getD p.cold
  rate := s.annealing.rate.getD p.rate
  iterations := s.iterations.getD p.iterations
  searches := s.searches.getD p.searches
  seed := s.seed.or p.seed

def Admissible (p : Parameters) : Algorithm → Prop
  | .annealing => (IsFinite p.initial ∧ IsFinite p.cold ∧ IsFinite p.rate) ∧
      (0 < p.rate ∧ p.rate < 1) ∧ 0 < p.cold ∧ p.cold < p.initial
  | .gravity => 1 ≤ p.iterations

def plan (p : Parameters) : Algorithm → Plan Float
  | .annealing => .annealing ⟨.real p.initial, p.cold, p.rate⟩
  | .gravity => .gravity ⟨⟨0, p.iterations⟩⟩

/-- A number of steps is in the range of doubles, if the algorithm counts steps. -/
def Convertible (p : Parameters) (a : Algorithm) : Prop :=
  a = .gravity → ∃ x, ofInt? p.iterations = some x

end Parameters

namespace Annealing

theorem make_eq_ok_iff {initial cold rate : Float} {a : Annealing Float} :
    make initial cold rate = .ok a ↔ ((IsFinite initial ∧ IsFinite cold ∧ IsFinite rate) ∧
      (0 < rate ∧ rate < 1) ∧ 0 < cold ∧ cold < initial) ∧ a = ⟨.real initial, cold, rate⟩ := by
  have hzero := isWhole_zero.finite
  rw [make]
  by_cases hfinite : IsFinite initial ∧ IsFinite cold ∧ IsFinite rate
  · obtain ⟨hinitial, hcold, hrate⟩ := hfinite
    have hdecided : (isFinite initial && isFinite cold && isFinite rate) = true := by
      simp [isFinite_iff, hinitial, hcold, hrate]
    rw [lt_iff_not_le hcold hzero, lt_iff_not_le hinitial hcold]
    by_cases hrange : 0 < rate ∧ rate < 1
    · by_cases hcoldPos : cold ≤ 0
      · simp [hdecided, hrange, hcoldPos]
      · by_cases hgap : initial ≤ cold
        · simp only [hdecided, hrange, hcoldPos, hgap, Bool.not_true, decide_true, Bool.and_self,
            decide_false, Bool.or_false, Bool.false_eq_true, if_false, if_true, not_true, and_false,
            false_and, iff_false]
          split <;> simp
        · -- what is above a positive temperature is positive
          have hinitialPos : ¬ initial ≤ 0 := by
            rw [le_iff_rank hinitial.ne_nan hcold.ne_nan] at hgap
            rw [le_iff_rank hcold.ne_nan hzero.ne_nan] at hcoldPos
            rw [le_iff_rank hinitial.ne_nan hzero.ne_nan]
            omega
          simp [hdecided, hrange, hcoldPos, hgap, hinitialPos, hinitial, hcold, hrate, eq_comm]
    · have hrefused : (decide (0 < rate) && decide (rate < 1)) = false := by
        simpa [Bool.and_eq_false_iff, decide_eq_false_iff_not, not_and_or] using hrange
      simp [hdecided, hrefused, hrange]
  · have hrefused : (isFinite initial && isFinite cold && isFinite rate) = false := by
      rw [Bool.eq_false_iff]
      intro h
      simp only [Bool.and_eq_true, isFinite_iff] at h
      exact hfinite ⟨h.1.1, h.1.2, h.2⟩
    simp [hrefused, hfinite]

theorem kind_of_make {initial cold rate : Float} {f : Fault} (h : make initial cold rate = .error f) :
    f.kind = .configuration := by
  rw [make] at h
  repeat' split at h
  all_goals cases h
  all_goals rfl

end Annealing

namespace Gravity

theorem ofDatum_int {n : Int} {x : Float} (hx : ofInt? n = some x) :
    ofDatum (.int n) = if n < 1 then .error (.iterations (.int n)) else .ok ⟨0, n⟩ := by
  have hquantity : (quantityOfInt n : Except Fault Float) = .ok x := by
    rw [quantityOfInt, show Quantity.ofInt? n = some x from hx]
  rw [ofDatum, limitOf, hquantity]
  by_cases hn : n < 1
  · rw [if_pos hn]
    simp [hn, bind, Except.bind, throw, throwThe, MonadExceptOf.throw]
  · rw [if_neg hn]
    simp [hn, bind, Except.bind, pure, Except.pure]

end Gravity

theorem Search.ofDatum_int {σ τ ρ : Type} [Strategy Float σ] (strategy : σ)
    (landscape : Landscape Float τ ρ) (source : Source Float) (recorder : Option Recorder) (n : Int) :
    ofDatum strategy landscape source (.int n) recorder =
      if n < 1 then .error (if (Datum.int n).isLong then .unwritable else .searches (.int n))
      else .ok (fresh strategy landscape source (.int n) recorder) := by
  by_cases hn : n < 1
  · rw [if_pos hn]
    simp [ofDatum, Datum.toInt, hn, bind, Except.bind, throw, throwThe, MonadExceptOf.throw]
  · rw [if_neg hn]
    simp [ofDatum, Datum.toInt, hn, bind, Except.bind, pure, Except.pure]

namespace Placement

theorem chosen_eq {β : Type} {write : β → Datum} {d : Datum} {x : β} (given? : Option β)
    (h : d = write x) : chosen write given? d = write (given?.getD x) := by
  cases given? with
  | none => exact h
  | some y => rfl

theorem chosenCount_eq {d : Datum} {n : Int} {given? : Option Int} (hgiven : ∀ k, given? = some k → 1 ≤ k)
    (h : d = .int n) : chosenCount given? d = .int (given?.getD n) := by
  cases given? with
  | none => exact h
  | some k =>
    have hk : k ≠ 0 := by
      have := hgiven k rfl
      omega
    rw [chosenCount, if_neg hk]
    rfl

theorem chosen_seed (given? otherwise : Option Int) :
    chosen .int given? (Scenario.given .int otherwise) = Scenario.given .int (given?.or otherwise) := by
  cases given? <;> rfl

variable {s : Scenario} {cfg : Settings} {p : Parameters}

theorem plan_of_annealing (halgorithm : s.algorithm = .annealing) (hp : cfg.Holds p) :
    plan s cfg = Plan.annealing <$>
      Annealing.make (p.under s).initial (p.under s).cold (p.under s).rate := by
  rw [plan, halgorithm]
  simp only [chosen_eq _ hp.initial, chosen_eq _ hp.cold, chosen_eq _ hp.rate]
  rfl

theorem plan_of_gravity (halgorithm : s.algorithm = .gravity) (hs : s.Bounded) (hp : cfg.Holds p)
    {x : Float} (hx : ofInt? (p.under s).iterations = some x) :
    plan s cfg = if (p.under s).iterations < 1 then .error (.iterations (.int (p.under s).iterations))
      else .ok (.gravity ⟨⟨0, (p.under s).iterations⟩⟩) := by
  rw [plan, halgorithm]
  simp only [chosenCount_eq hs.iterations hp.iterations]
  change (do return Plan.gravity ⟨← Gravity.ofDatum (.int (p.under s).iterations)⟩) = _
  rw [Gravity.ofDatum_int hx]
  split <;> rfl

theorem plan_eq_ok_iff (hs : s.Bounded) (hp : cfg.Holds p)
    (hconv : (p.under s).Convertible s.algorithm) {strategy : Plan Float} :
    plan s cfg = .ok strategy ↔
      (p.under s).Admissible s.algorithm ∧ strategy = (p.under s).plan s.algorithm := by
  cases halgorithm : s.algorithm with
  | annealing =>
    rw [plan_of_annealing halgorithm hp]
    constructor
    · intro h
      cases hmade : Annealing.make (p.under s).initial (p.under s).cold (p.under s).rate with
      | error f =>
        rw [hmade] at h
        cases h
      | ok a =>
        obtain ⟨hadmissible, rfl⟩ := Annealing.make_eq_ok_iff.mp hmade
        rw [hmade] at h
        cases h
        exact ⟨hadmissible, rfl⟩
    · rintro ⟨hadmissible, rfl⟩
      rw [Annealing.make_eq_ok_iff.mpr ⟨hadmissible, rfl⟩]
      rfl
  | gravity =>
    obtain ⟨x, hx⟩ := hconv halgorithm
    rw [plan_of_gravity halgorithm hs hp hx]
    by_cases hn : (p.under s).iterations < 1
    · simp [hn, Parameters.Admissible]
    · simp [hn, Parameters.Admissible, Parameters.plan, not_lt.mp hn, eq_comm]

theorem kind_of_plan (hs : s.Bounded) (hp : cfg.Holds p)
    (hconv : (p.under s).Convertible s.algorithm) {f : Fault} (h : plan s cfg = .error f) :
    f.kind = .configuration := by
  cases halgorithm : s.algorithm with
  | annealing =>
    rw [plan_of_annealing halgorithm hp] at h
    cases hmade : Annealing.make (p.under s).initial (p.under s).cold (p.under s).rate with
    | error e =>
      rw [hmade] at h
      cases h
      exact Annealing.kind_of_make hmade
    | ok a =>
      rw [hmade] at h
      cases h
  | gravity =>
    obtain ⟨x, hx⟩ := hconv halgorithm
    rw [plan_of_gravity halgorithm hs hp hx] at h
    split at h
    · cases h
      rfl
    · cases h

variable {source : Source Float} {recorder : Option Recorder}

theorem build_eq (hs : s.Bounded) (hp : cfg.Holds p) : build s cfg source recorder =
    plan s cfg >>= fun strategy =>
      if (p.under s).searches < 1 then .error (.searches (.int (p.under s).searches))
      else .ok (Search.fresh strategy (landscape s.vms s.hosts) source (.int (p.under s).searches)
        recorder) := by
  -- a number below one comes from the settings
  have hshort : (p.under s).searches < 1 → (Datum.int (p.under s).searches).isLong = false := by
    intro hlow
    cases hgiven : s.searches with
    | none => simpa only [Parameters.under, hgiven, Option.getD_none] using hp.short
    | some n =>
      have hn := hs.searches n hgiven
      simp only [Parameters.under, hgiven, Option.getD_some] at hlow
      omega
  have hmerged : chosenCount s.searches cfg.searches = .int (p.under s).searches :=
    chosenCount_eq hs.searches hp.searches
  rw [build, hmerged]
  simp only [Search.ofDatum_int]
  by_cases hlow : (p.under s).searches < 1
  · simp only [if_pos hlow, hshort hlow, Bool.false_eq_true, if_false]
  · simp only [if_neg hlow]

theorem build_eq_ok_iff (hs : s.Bounded) (hp : cfg.Holds p)
    (hconv : (p.under s).Convertible s.algorithm) {e : PlacementSearch} :
    build s cfg source recorder = .ok e ↔
      ((p.under s).Admissible s.algorithm ∧ 1 ≤ (p.under s).searches) ∧
        e = Search.fresh ((p.under s).plan s.algorithm) (landscape s.vms s.hosts) source
          (.int (p.under s).searches) recorder := by
  rw [build_eq hs hp]
  constructor
  · intro h
    obtain ⟨strategy, hplan, h⟩ := exists_of_bind_ok h
    obtain ⟨hadmissible, rfl⟩ := (plan_eq_ok_iff hs hp hconv).mp hplan
    split at h
    · cases h
    · rename_i hlow
      cases h
      exact ⟨⟨hadmissible, not_lt.mp hlow⟩, rfl⟩
  · rintro ⟨⟨hadmissible, hsearches⟩, rfl⟩
    rw [(plan_eq_ok_iff hs hp hconv).mpr ⟨hadmissible, rfl⟩]
    exact if_neg (not_lt.mpr hsearches)

theorem kind_of_build (hs : s.Bounded) (hp : cfg.Holds p)
    (hconv : (p.under s).Convertible s.algorithm) {f : Fault}
    (h : build s cfg source recorder = .error f) : f.kind = .configuration := by
  rw [build_eq hs hp] at h
  cases hplan : plan s cfg with
  | error e =>
    rw [hplan] at h
    cases h
    exact kind_of_plan hs hp hconv hplan
  | ok strategy =>
    simp only [hplan, bind, Except.bind] at h
    split at h
    · cases h
      rfl
    · cases h

theorem seeded_seed (hp : cfg.Holds p) (entropy : Nat) :
    (Source.seeded (seed s cfg) entropy : Except Fault (Source Float)) =
      .ok ⟨Scenario.given .int (p.under s).seed,
        .generator (Twister.ofSeed ((p.under s).seed.elim entropy Int.natAbs)), 0⟩ := by
  rw [seed, hp.seed, chosen_seed]
  change (Source.seeded (Scenario.given .int (p.under s).seed) entropy : Except Fault (Source Float)) = _
  cases (p.under s).seed <;> rfl

/-- Two settings agree on what the scenario leaves to them and its algorithm reads. -/
structure AgreeOn (s : Scenario) (cfg cfg' : Settings) : Prop where
  searches : s.searches = none → cfg.searches = cfg'.searches
  initial : s.algorithm = .annealing → s.annealing.initial = none → cfg.initial = cfg'.initial
  cold : s.algorithm = .annealing → s.annealing.cold = none → cfg.cold = cfg'.cold
  rate : s.algorithm = .annealing → s.annealing.rate = none → cfg.rate = cfg'.rate
  iterations : s.algorithm = .gravity → s.iterations = none → cfg.iterations = cfg'.iterations

theorem chosen_congr {β : Type} {write : β → Datum} {given? : Option β} {d d' : Datum}
    (h : given? = none → d = d') : chosen write given? d = chosen write given? d' := by
  cases given? with
  | none => exact h rfl
  | some x => rfl

theorem chosenCount_congr {given? : Option Int} {d d' : Datum} (hgiven : ∀ n, given? = some n → 1 ≤ n)
    (h : given? = none → d = d') : chosenCount given? d = chosenCount given? d' := by
  cases given? with
  | none => exact h rfl
  | some n =>
    have hn : n ≠ 0 := by
      have := hgiven n rfl
      omega
    simp only [chosenCount, hn, if_false]

theorem build_congr (hs : s.Bounded) {cfg' : Settings} (h : AgreeOn s cfg cfg') :
    build s cfg source recorder = build s cfg' source recorder := by
  have hplan : plan s cfg = plan s cfg' := by
    rw [plan, plan]
    cases halgorithm : s.algorithm with
    | annealing =>
      simp only [chosen_congr (h.initial halgorithm), chosen_congr (h.cold halgorithm),
        chosen_congr (h.rate halgorithm)]
    | gravity => simp only [chosenCount_congr hs.iterations (h.iterations halgorithm)]
  rw [build, build, hplan, chosenCount_congr hs.searches h.searches]

/-- A scenario leaves nothing to the settings that its algorithm needs. -/
structure GivesAll (s : Scenario) : Prop where
  searches : s.searches.isSome
  annealing : s.algorithm = .annealing →
    s.annealing.initial.isSome ∧ s.annealing.cold.isSome ∧ s.annealing.rate.isSome
  iterations : s.algorithm = .gravity → ∃ n x, s.iterations = some n ∧ (ofInt? n : Option Float) = some x

theorem admissible_of_givesAll (hs : s.Bounded) (hconsistent : s.Consistent) (h : GivesAll s) :
    (p.under s).Admissible s.algorithm := by
  cases halgorithm : s.algorithm with
  | annealing =>
    obtain ⟨hinitial, hcold, hrate⟩ := h.annealing halgorithm
    obtain ⟨initial, hinitial⟩ := Option.isSome_iff_exists.mp hinitial
    obtain ⟨cold, hcold⟩ := Option.isSome_iff_exists.mp hcold
    obtain ⟨rate, hrate⟩ := Option.isSome_iff_exists.mp hrate
    have hfinite := hconsistent.finite
    simp only [Scenario.AllFinite, Scenario.numbers, List.forall_mem_cons] at hfinite
    have hbelow := hs.rate rate hrate
    simp only [Parameters.Admissible, Parameters.under, hinitial, hcold, hrate, Option.getD_some]
    exact ⟨⟨hfinite.1 _ hinitial, hfinite.2.1 _ hcold, hfinite.2.2.1 _ hrate⟩,
      ⟨hbelow.2, hbelow.1⟩, hs.cold cold hcold, hconsistent.order initial cold hinitial hcold⟩
  | gravity =>
    obtain ⟨n, -, hn, -⟩ := h.iterations halgorithm
    simpa only [Parameters.Admissible, Parameters.under, hn, Option.getD_some] using hs.iterations n hn

theorem agreeOn_of_givesAll (h : GivesAll s) (cfg cfg' : Settings) : AgreeOn s cfg cfg' := by
  have hnone {β : Type} {given? : Option β} (hgiven : given?.isSome) {P : Prop} (h : given? = none) : P := by
    rw [h] at hgiven
    cases hgiven
  exact {
    searches := hnone h.searches
    initial := fun halgorithm => hnone (h.annealing halgorithm).1
    cold := fun halgorithm => hnone (h.annealing halgorithm).2.1
    rate := fun halgorithm => hnone (h.annealing halgorithm).2.2
    iterations := by
      intro halgorithm hgiven
      obtain ⟨n, x, hn, -⟩ := h.iterations halgorithm
      rw [hgiven] at hn
      cases hn }

theorem holds_usual : Settings.usual.Holds ⟨100, 0.1, 0.9, 1000, 1, none⟩ :=
  ⟨rfl, rfl, rfl, rfl, rfl, rfl, by decide +kernel⟩

theorem exists_build_of_givesAll (hs : s.Bounded) (hconsistent : s.Consistent) (h : GivesAll s) :
    ∃ e, ∀ cfg, build s cfg source recorder = .ok e := by
  obtain ⟨n, hn⟩ := Option.isSome_iff_exists.mp h.searches
  let p : Parameters := ⟨100, 0.1, 0.9, 1000, 1, none⟩
  have hconv : (p.under s).Convertible s.algorithm := by
    intro halgorithm
    obtain ⟨k, x, hk, hx⟩ := h.iterations halgorithm
    exact ⟨x, by simpa only [Parameters.under, hk, Option.getD_some] using hx⟩
  have hsearches : 1 ≤ (p.under s).searches := by
    simpa only [Parameters.under, hn, Option.getD_some] using hs.searches n hn
  have hbuilt : build s .usual source recorder = .ok _ :=
    (build_eq_ok_iff hs holds_usual hconv).mpr ⟨⟨admissible_of_givesAll hs hconsistent h, hsearches⟩, rfl⟩
  exact ⟨_, fun cfg => (build_congr hs (agreeOn_of_givesAll h cfg _)).trans hbuilt⟩

end Placement

/-- What a scenario gives and the settings hold for the rest decide whether a search is built, and
which one. -/
theorem merged_parameters_decide_search {d : Datum} {s : Scenario} (hs : Scenario.check d = .ok s) :
    (∀ cfg p, cfg.Holds p → (p.under s).Convertible s.algorithm → ∀ source recorder,
      (∀ e, Placement.build s cfg source recorder = .ok e ↔
        ((p.under s).Admissible s.algorithm ∧ 1 ≤ (p.under s).searches) ∧
          e = Search.fresh ((p.under s).plan s.algorithm) (Placement.landscape s.vms s.hosts) source
            (.int (p.under s).searches) recorder) ∧
      (∀ f, Placement.build s cfg source recorder = .error f → f.kind = .configuration) ∧
      ∀ entropy, (Source.seeded (Placement.seed s cfg) entropy : Except Fault (Source Float)) =
        .ok ⟨Scenario.given .int (p.under s).seed,
          .generator (Twister.ofSeed ((p.under s).seed.elim entropy Int.natAbs)), 0⟩) ∧
    (∀ root env cfg, Settings.ofEnvironment root env = .ok cfg → ∃ p, cfg.Holds p) ∧
    (∀ cfg cfg', Placement.AgreeOn s cfg cfg' → ∀ source recorder,
      Placement.build s cfg source recorder = Placement.build s cfg' source recorder) ∧
    (∀ cfg cfg', (s.seed = none → cfg.seed = cfg'.seed) →
      Placement.seed s cfg = Placement.seed s cfg') ∧
    (Placement.GivesAll s → ∀ source recorder, ∃ e, ∀ cfg,
      Placement.build s cfg source recorder = .ok e) := by
  have hbounded := Scenario.bounded_of_check hs
  refine ⟨?_, ?_, ?_, ?_, ?_⟩
  · intro cfg p hp hconv source recorder
    exact ⟨fun e => Placement.build_eq_ok_iff hbounded hp hconv,
      fun f => Placement.kind_of_build hbounded hp hconv, Placement.seeded_seed hp⟩
  · intro root env cfg h
    exact Settings.exists_holds_of_environment h
  · intro cfg cfg' h source recorder
    exact Placement.build_congr hbounded h
  · intro cfg cfg' h
    exact Placement.chosen_congr h
  · intro h source recorder
    exact Placement.exists_build_of_givesAll hbounded (Scenario.consistent_of_check hs) h

/-- Two machines for two hosts. The seed zero counts as given; settings for annealing and of no use
elsewhere do no harm. -/
theorem merged_parameters_decide_gravity :
    let d : Datum := .object [("algo", .str "gravity"), ("seed", .int 0),
      ("gravity", .object [("max_iterations", .int 3)]),
      ("hosts", .list [.object [("id", .int 1), ("pe_count", .int 8)],
        .object [("id", .int 2), ("pe_count", .int 4)]]),
      ("vms", .list [.object [("id", .int 1), ("pe_count", .int 2)],
        .object [("id", .int 2), ("pe_count", .int 3)]])]
    let s : Scenario := ⟨none, .gravity, [⟨1, 8⟩, ⟨2, 4⟩], [⟨1, 2⟩, ⟨2, 3⟩], ⟨none, none, none⟩,
      some 3, none, some 0⟩
    let cfg : Settings := ⟨.float (0 / 0), .float 0, .float 2, .int (-5), .int 2, .int 7, .null, ""⟩
    Scenario.check d = .ok s ∧
      Placement.build s cfg (.repeating []) none = .ok (Search.fresh (.gravity ⟨⟨0, 3⟩⟩)
        (Placement.landscape [⟨1, 2⟩, ⟨2, 3⟩] [⟨1, 8⟩, ⟨2, 4⟩]) (.repeating []) (.int 2) none) ∧
      (Source.seeded (Placement.seed s cfg) 1 : Except Fault (Source Float)) =
        .ok ⟨.int 0, .generator (Twister.ofSeed 0), 0⟩ := by
  intro d s cfg
  have hs : Scenario.check d = .ok s := by cbv
  let p : Parameters := ⟨0 / 0, 0, 2, -5, 2, some 7⟩
  have hp : cfg.Holds p := ⟨rfl, rfl, rfl, rfl, rfl, rfl, by decide +kernel⟩
  have hconv : (p.under s).Convertible s.algorithm := by
    intro
    obtain ⟨x, -, hx, -⟩ := exists_ofInt? (show 3 < 2 ^ 63 by decide)
    exact ⟨x, hx⟩
  have hadmissible : (p.under s).Admissible s.algorithm := show (1 : Int) ≤ 3 by decide
  obtain ⟨hbuild, -, hseed⟩ :=
    (merged_parameters_decide_search hs).1 cfg p hp hconv (.repeating []) none
  exact ⟨hs, (hbuild _).mpr ⟨⟨hadmissible, by decide⟩, rfl⟩, hseed 1⟩

end AssignmentSearch
