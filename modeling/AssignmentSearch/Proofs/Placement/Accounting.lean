import AssignmentSearch.Proofs.Placement.Complete
import AssignmentSearch.Proofs.Placement.Neutral
import AssignmentSearch.Proofs.Placement.Plans
import AssignmentSearch.Proofs.Random.Positions
import Mathlib.Data.List.Dedup

/-!
# How many samples a placement search draws

All candidates of a placement search cost the same. So it depends on the strategy alone whether a
sample decides on a candidate, and on the number of machines placed whether two samples select the
hosts that are exchanged. As no trial fails, the samples drawn are known after any calls.
-/

namespace AssignmentSearch

open Event LawfulQuantity

namespace Placement

variable {vms : List (Vm Int)} {hosts : List (Host Int)}

def distinct (vms : List (Vm Int)) (hosts : List (Host Int)) : Nat :=
  (placed vms hosts).dedup.length

theorem distinct_le (vms : List (Vm Int)) (hosts : List (Host Int)) :
    distinct vms hosts ≤ vms.length := by
  have hle : (placed vms hosts).length ≤ vms.length := by
    rw [placed]
    split <;> simp
  exact (List.dedup_sublist _).length_le.trans hle

theorem mem_tasks_bindAll {rest : List (Vm Int)} {s t : Solution Float (Vm Int) (Host Int)}
    {source source' : Source Float}
    (h : (bindAll hosts rest s).start source = (.ok t, source')) {vm : Vm Int} :
    vm ∈ t.mapping.tasks ↔ vm ∈ s.mapping.tasks ∨ vm ∈ rest := by
  induction rest generalizing s source with
  | nil =>
    cases h
    simp
  | cons first rest ih =>
    obtain ⟨host, u, -, h⟩ := Attempt.exists_of_start_bind h
    obtain ⟨_, w, -, h⟩ := Attempt.exists_of_start_bind h
    rw [ih h, Solution.bind, Mapping.mem_tasks_bind, List.mem_cons, or_assoc]

theorem mem_tasks_initial {first : Solution Float (Vm Int) (Host Int)} {source source' : Source Float}
    (h : (initial vms hosts none).start source = (.ok first, source')) {vm : Vm Int} :
    vm ∈ first.mapping.tasks ↔ vm ∈ placed vms hosts := by
  rw [placed]
  by_cases hempty : vms = [] ∨ hosts = []
  · rw [initial_of_kept (Or.inr hempty)] at h
    cases h
    rw [if_pos hempty]
    exact Iff.rfl
  · rw [if_neg hempty]
    rw [not_or] at hempty
    rw [initial_of_ready rfl hempty.1 hempty.2] at h
    rw [mem_tasks_bindAll h]
    simp [nothing, Solution.of, Mapping.empty, Mapping.tasks]

theorem size_initial {first : Solution Float (Vm Int) (Host Int)} {source source' : Source Float}
    (h : (initial vms hosts none).start source = (.ok first, source')) :
    first.mapping.size = distinct vms hosts := by
  have hnodup : first.mapping.tasks.Nodup := (Places.initial (by simp) h).nodup
  have hperm : first.mapping.tasks.Perm (placed vms hosts).dedup := by
    rw [List.perm_ext_iff_of_nodup hnodup (List.nodup_dedup _)]
    intro vm
    rw [mem_tasks_initial h, List.mem_dedup]
  have hlength := hperm.length_eq
  rwa [Mapping.tasks, List.length_map] at hlength

/-- Two placements of the machines that are told apart, the current one and the best one. -/
structure Holds (vms : List (Vm Int)) (hosts : List (Host Int))
    (f : Found Float (Vm Int) (Host Int)) : Prop where
  current : Places vms hosts f.current.solution
  best : Places vms hosts f.best.solution
  size : f.current.solution.mapping.size = distinct vms hosts

def perTrial (vms : List (Vm Int)) (hosts : List (Host Int)) (plan : Plan Float) : Nat :=
  (if 2 ≤ distinct vms hosts then 2 else 0) + plan.decisions

theorem assess_of_cost_eq {s : PlacementSearch}
    (hplan : s.strategy.IsAnnealing ∨ s.strategy.IsGravity) (hunit : s.source.InUnit)
    {current candidate : Solution Float (Vm Int) (Host Int)} (hfinite : current.HasFiniteCost)
    (hcost : candidate.costValue = current.costValue) :
    ∃ reason source, (Search.assess current candidate).start s = (.ok reason, { s with source }) ∧
      source.InUnit ∧ source.drawn = s.source.drawn + s.strategy.decisions := by
  have hnot := Solution.isNotBetterThan_of_cost_eq hfinite hcost
  have hanswer := (Search.start_assess current candidate s).1
  rcases hplan with ⟨a, ha⟩ | ⟨g, hg⟩
  · have hcandidate : candidate.HasFiniteCost := by
      rwa [Solution.HasFiniteCost, hcost]
    have hlevel : candidate.level = current.level := by
      rw [Solution.level, Solution.level, hcost]
    obtain ⟨r, hr⟩ := annealing_takes ⟨a, ha⟩ (Source.inUnit_sample hunit) hfinite hcandidate
      hlevel.le hnot
    have hone : (Scalar.real (Quantity.one : Float)).isAtMostZero = .ok false := by
      rw [Scalar.isAtMostZero_real, decide_eq_false not_one_le_zero]
    have hstate := Search.start_assess_of_not_better (s := s) hnot
      (by rw [ha]; exact annealing_chance a hfinite hcandidate hlevel.le) hone
    refine ⟨_, s.source.sample.2, Prod.ext (hanswer.trans hr) hstate, Source.inUnit_next hunit, ?_⟩
    rw [Source.drawn_sample, ha]
    rfl
  · have hzero : (Scalar.real (Quantity.zero : Float)).isAtMostZero = .ok true := by
      rw [Scalar.isAtMostZero_real,
        decide_eq_true ((le_iff isFinite_zero isFinite_zero).mpr le_rfl)]
    have hstate := Search.start_assess_of_not_better (s := s) hnot (by rw [hg]; rfl) hzero
    refine ⟨_, s.source, Prod.ext (hanswer.trans (gravity_leaves ⟨g, hg⟩ hnot)) hstate, hunit, ?_⟩
    rw [hg]
    rfl

theorem trial_ok (hbound : elements vms hosts < 2 ^ 53) (hvms : vms.length < 2 ^ 63)
    {s : PlacementSearch} {f : Found Float (Vm Int) (Host Int)}
    (hplan : s.strategy.IsAnnealing ∨ s.strategy.IsGravity)
    (hlandscape : s.landscape = landscape vms hosts) (hunit : s.source.InUnit)
    (hf : s.progress = .searching f) (hholds : Holds vms hosts f) (b : Batch Float) :
    ∃ c source trials g, (Search.trial b).start s =
        (.ok c, { s with source, trials, progress := .searching g }) ∧ Holds vms hosts g ∧
      source.InUnit ∧ source.drawn = s.source.drawn + perTrial vms hosts s.strategy := by
  have hsize : f.current.solution.mapping.size < 2 ^ 63 := by
    rw [hholds.size]
    exact Nat.lt_of_le_of_lt (distinct_le vms hosts) hvms
  obtain ⟨next, met, hnext, -, hmet, hdrawn⟩ := Draws.swapped f.current.solution hsize s.source hunit
  obtain ⟨hplaces, hsurplus⟩ := hholds.current.swapped hnext
  have hneighbor : (Search.neighbor f.current.solution).start s =
      (.ok ⟨s.trials + 1, next⟩, { s with source := met, trials := s.trials + 1 }) := by
    have hnear : (s.landscape.neighbor (s.trials + 1) f.current.solution).start s.source =
        (.ok next, met) := by
      rw [hlandscape]
      exact hnext
    rw [Search.start_neighbor, hnear]
    rfl
  have hfinite := hholds.current.hasFiniteCost hbound
  have hcost : next.evaluated.costValue = f.current.solution.costValue := by
    rw [next.costValue_evaluated]
    exact hholds.current.costValue_eq hbound hplaces hsurplus
  obtain ⟨x, hx, -⟩ := hplaces.exists_cost hbound
  obtain ⟨reason, source, hassess, hunit', hdecided⟩ := assess_of_cost_eq
    (s := { s with source := met, trials := s.trials + 1 }) hplan hmet hfinite hcost
  have hcandidate : Places vms hosts next.evaluated := hplaces.evaluated
  have htasks : next.evaluated.mapping.size = distinct vms hosts := by
    have hlength := congrArg List.length (Mapping.Rearranges.swapped hnext).tasks
    rw [Mapping.tasks, Mapping.tasks, List.length_map, List.length_map] at hlength
    rw [next.mapping_evaluated, ← hholds.size]
    exact hlength
  have htotal : source.drawn = s.source.drawn + perTrial vms hosts s.strategy := by
    rw [hdecided, hdrawn, hholds.size, perTrial, Nat.add_assoc]
  rw [Search.trial, Attempt.start_bind_ok (Attempt.start_get s), hf]
  dsimp only [Progress.found?]
  rw [Attempt.start_bind_ok hneighbor, hx, Attempt.start_bind_ok (Attempt.start_lift _ _),
    Attempt.start_bind_ok hassess]
  cases reason.accepts with
  | false => exact ⟨_, source, s.trials + 1, f, by rw [← hf]; rfl, hholds, hunit', htotal⟩
  | true =>
    obtain ⟨y, hy, -⟩ := hcandidate.exists_cost hbound
    obtain ⟨z, hz, -⟩ := hholds.best.exists_cost hbound
    obtain ⟨best, htake, hbest⟩ := Search.take_ok
      (c := ⟨s.trials + 1, next.evaluated⟩) hy hz { s with source, trials := s.trials + 1 }
    refine ⟨⟨b.accepted || true, reason, x⟩, source, s.trials + 1,
      ⟨⟨s.trials + 1, next.evaluated⟩, best⟩, ?_,
      ⟨hcandidate, ?_, htasks⟩, hunit', htotal⟩
    · rw [if_pos rfl, Attempt.start_bind_ok htake]
      dsimp only
      rw [hf]
      rfl
    · rcases hbest with rfl | rfl
      · exact hcandidate
      · exact hholds.best

theorem batch_ok (hbound : elements vms hosts < 2 ^ 53) (hvms : vms.length < 2 ^ 63) (n : Nat)
    {s : PlacementSearch} {f : Found Float (Vm Int) (Host Int)}
    (hplan : s.strategy.IsAnnealing ∨ s.strategy.IsGravity)
    (hlandscape : s.landscape = landscape vms hosts) (hunit : s.source.InUnit)
    (hf : s.progress = .searching f) (hholds : Holds vms hosts f) (b : Batch Float) :
    ∃ c source trials g, (Search.batch n b).start s =
        (.ok c, { s with source, trials, progress := .searching g }) ∧ Holds vms hosts g ∧
      source.InUnit ∧ source.drawn = s.source.drawn + n * perTrial vms hosts s.strategy := by
  induction n generalizing s f b with
  | zero =>
    refine ⟨b, s.source, s.trials, f, by rw [← hf]; rfl, hholds, hunit, ?_⟩
    rw [Nat.zero_mul, Nat.add_zero]
  | succ n ih =>
    obtain ⟨c, source, trials, g, htrial, hg, hunit', hdrawn⟩ :=
      trial_ok hbound hvms hplan hlandscape hunit hf hholds b
    obtain ⟨d, source', trials', g', hbatch, hg', hunit'', hmore⟩ := ih
      (s := { s with source, trials, progress := .searching g }) hplan hlandscape hunit' rfl hg c
    refine ⟨d, source', trials', g', ?_, hg', hunit'', ?_⟩
    · rw [Search.batch, Attempt.start_bind_ok htrial, hbatch]
    · rw [hmore, hdrawn, Nat.succ_mul]
      dsimp only
      omega

/-- A search whose samples are accounted for: `k` trials make a step, and `drawn` samples had been
drawn before the search began. -/
structure Accounts (vms : List (Vm Int)) (hosts : List (Host Int)) (plan : Plan Float) (k drawn : Nat)
    (l : List (Event Float (Vm Int) (Host Int))) (s : PlacementSearch) : Prop where
  landscape : s.landscape = Placement.landscape vms hosts
  searches : s.searches = .int k
  unit : s.source.InUnit
  ages : Strategy.Ages s.steps plan s.strategy
  told : (toldIn l).length = s.steps
  fresh : s.progress = .fresh → s.kept = none ∧ s.steps = 0 ∧ s.source.drawn = drawn
  found : ∀ f, s.progress.found? = some f → Holds vms hosts f ∧
    s.source.drawn = drawn + (if vms = [] ∨ hosts = [] then 0 else vms.length) +
      s.steps * (k * perTrial vms hosts plan)

theorem accounts_fresh (plan : Plan Float) (k : Nat) (recorder : Option Recorder)
    {source : Source Float} (hsource : source.InUnit) :
    Accounts vms hosts plan k source.drawn []
      (.fresh plan (Placement.landscape vms hosts) source (.int k) recorder) :=
  ⟨rfl, rfl, hsource, Strategy.ages_zero.mpr rfl, rfl, fun _ => ⟨rfl, rfl, rfl⟩,
    fun _ hf => (nomatch hf)⟩

theorem Accounts.answered (hbound : elements vms hosts < 2 ^ 53) (hvms : vms.length < 2 ^ 63)
    {plan : Plan Float} {stop : Nat → Bool} (hplan : plan.IsAnnealing ∨ plan.IsGravity)
    (hschedule : Strategy.Schedule plan stop) {k drawn : Nat}
    {l : List (Event Float (Vm Int) (Host Int))} {s : PlacementSearch}
    {f : Found Float (Vm Int) (Host Int)} (hf : s.progress = .searching f)
    (h : Accounts vms hosts plan k drawn l s) :
    ∃ o t g, (Search.advance f).start s = (.ok o, t) ∧ t.recorder = s.recorder ∧
      t.progress = .searching g ∧ g.Known ∧
        Accounts vms hosts plan k drawn (l ++ Search.turnLog f s) t := by
  obtain ⟨hholds, hspent⟩ := h.found f (by rw [hf]; rfl)
  obtain ⟨hkind, hdecisions⟩ := Plan.kind_of_ages hplan h.ages
  obtain ⟨before, hbefore, -⟩ := hholds.current.exists_cost hbound
  obtain ⟨b, source, trials, g, hbatch, hg, hunit, hdrawn⟩ := batch_ok hbound hvms k hkind
    h.landscape h.unit hf hholds ⟨false, .untried, before⟩
  obtain ⟨a, ha⟩ := hschedule.exists_age h.ages
  have hages := h.ages.next ha
  obtain ⟨cost, hcost, -⟩ := hg.current.exists_cost hbound
  obtain ⟨best, hbest, -⟩ := hg.best.exists_cost hbound
  have hturned : Search.Turned f s { s with
      source, trials, progress := .searching g, steps := s.steps + 1, strategy := a }
      ⟨s.steps + 1, b.accepted, b.reason, before, b.candidateCost, cost, best, stop (s.steps + 1)⟩
      k b { s with source, trials, progress := .searching g } a :=
    { costBefore := hbefore
      rounds := by rw [h.searches]; rfl
      batch := hbatch
      age := ha
      stops := hschedule.stops_eq hages
      after := rfl
      iteration := rfl
      answers := ⟨rfl, rfl, rfl⟩
      cost := hcost
      bestCost := hbest }
  refine ⟨_, _, g, hturned.start, rfl, rfl, ⟨⟨cost, hcost⟩, ⟨best, hbest⟩⟩, ?_⟩
  rw [Search.turnLog, hturned.start]
  refine ⟨h.landscape, h.searches, hunit, hages, ?_, fun hp => (by cases hp), fun g' hg' => ?_⟩
  · simp [h.told]
  · cases hg'
    refine ⟨hg, ?_⟩
    rw [hdrawn, hspent, perTrial, perTrial, hdecisions, Nat.succ_mul]
    omega

theorem Accounts.advance (hbound : elements vms hosts < 2 ^ 53) (hvms : vms.length < 2 ^ 63)
    {plan : Plan Float} {stop : Nat → Bool} (hplan : plan.IsAnnealing ∨ plan.IsGravity)
    (hschedule : Strategy.Schedule plan stop) {k drawn : Nat}
    {l : List (Event Float (Vm Int) (Host Int))} {s : PlacementSearch}
    {f : Found Float (Vm Int) (Host Int)} (hf : s.progress = .searching f)
    (h : Accounts vms hosts plan k drawn l s) :
    Accounts vms hosts plan k drawn (l ++ Search.turnLog f s) ((Search.advance f).start s).2 := by
  obtain ⟨o, t, g, hadvance, -, -, -, haccounts⟩ := h.answered hbound hvms hplan hschedule hf
  rw [hadvance]
  exact haccounts

theorem Accounts.exists_first (hhosts : hosts.length < 2 ^ 63)
    {plan : Plan Float} {k drawn : Nat} {l : List (Event Float (Vm Int) (Host Int))}
    {s : PlacementSearch} (hfresh : s.progress = .fresh) (h : Accounts vms hosts plan k drawn l s) :
    ∃ first source, (s.landscape.initial s.kept).start s.source = (.ok first, source) ∧
      Places vms hosts first ∧ first.mapping.size = distinct vms hosts ∧ source.InUnit ∧
        source.drawn = drawn + if vms = [] ∨ hosts = [] then 0 else vms.length := by
  obtain ⟨hkept, -, hdrawn⟩ := h.fresh hfresh
  have hdraws : Draws _ _ (initial vms hosts none) := draws_initial hhosts
  obtain ⟨first, source, hfirst, -, hunit, hmore⟩ := hdraws s.source h.unit
  refine ⟨first, source, ?_, Places.initial (by simp) hfirst, size_initial hfirst, hunit, ?_⟩
  · rw [h.landscape, hkept]
    exact hfirst
  · rw [hmore, hdrawn]

theorem Accounts.beginning (hhosts : hosts.length < 2 ^ 63)
    {plan : Plan Float} {k drawn : Nat} {l : List (Event Float (Vm Int) (Host Int))}
    {s : PlacementSearch} (hfresh : s.progress = .fresh) (h : Accounts vms hosts plan k drawn l s) :
    Accounts vms hosts plan k drawn l (Search.begin.start s).2 := by
  obtain ⟨first, source, hinitial, hplaces, hsize, hunit, hdrawn⟩ := h.exists_first hhosts hfresh
  rw [Search.begin_of_ok hinitial]
  refine ⟨h.landscape, h.searches, hunit, h.ages, h.told, fun hp => (nomatch hp), fun f hf => ?_⟩
  cases hf
  refine ⟨⟨hplaces.evaluated, hplaces.evaluated, ?_⟩, ?_⟩
  · rw [first.mapping_evaluated, hsize]
  · rw [hdrawn, (h.fresh hfresh).2.1, Nat.zero_mul, Nat.add_zero]

theorem enduring_accounts (hbound : elements vms hosts < 2 ^ 53) (hvms : vms.length < 2 ^ 63)
    (hhosts : hosts.length < 2 ^ 63) {plan : Plan Float} {stop : Nat → Bool}
    (hplan : plan.IsAnnealing ∨ plan.IsGravity) (hschedule : Strategy.Schedule plan stop)
    (k drawn : Nat) : Enduring (Accounts vms hosts plan k drawn) where
  beginning hf h := h.beginning hhosts hf
  advance hf h := h.advance hbound hvms hplan hschedule hf
  finish := by
    intro l s h
    refine ⟨h.landscape, h.searches, h.unit, h.ages, h.told,
      fun hp => h.fresh (Progress.fresh_of_finish hp), fun f hf => ?_⟩
    exact h.found f (by rwa [Progress.found?_finish] at hf)
  time _ h := ⟨h.landscape, h.searches, h.unit, h.ages, h.told, h.fresh, h.found⟩

/-- However a search for placements has been called, the samples it has drawn depend on sizes alone:
one for each machine, if there are hosts, and for each trial of a completed step two to exchange
hosts, if two machines are placed, and one to decide, if it anneals. The lists are of lengths that a
memory could hold, and their processing elements are added exactly. -/
theorem samples_are_accounted_for {plan : Plan Float} (hplan : plan.IsMade) {source : Source Float}
    {searches : Datum} {recorder : Option Recorder} {s : PlacementSearch}
    (hs : Search.ofDatum plan (landscape vms hosts) source searches recorder = .ok s)
    (hsource : source.InUnit) (hbound : elements vms hosts < 2 ^ 53) (hvms : vms.length < 2 ^ 63)
    (hhosts : hosts.length < 2 ^ 63) (w : Surroundings Float) (calls : List Call) :
    ∃ k : Nat, 1 ≤ k ∧ searches.toInt = .ok k ∧
      ((Call.after calls (s, w)).1.progress.found? = none →
        (Call.after calls (s, w)).1.source.drawn = source.drawn) ∧
      ∀ f, (Call.after calls (s, w)).1.progress.found? = some f →
        f.current.solution.mapping.size = distinct vms hosts ∧
          (Call.after calls (s, w)).1.source.drawn = source.drawn +
            (if vms = [] ∨ hosts = [] then 0 else vms.length) +
              (Call.outcomes calls (s, w)).length *
                (k * ((if 2 ≤ distinct vms hosts then 2 else 0) + plan.decisions)) := by
  obtain ⟨n, hn, hpos, hfresh⟩ := Search.exists_count_of_ofDatum hs
  obtain ⟨stop, hscheduled⟩ := hplan.scheduled
  obtain ⟨k, rfl⟩ : ∃ k : Nat, n = k := ⟨n.toNat, by omega⟩
  have hfirst : Accounts vms hosts plan k source.drawn [] s :=
    hfresh ▸ accounts_fresh plan k recorder hsource
  have hrun := (enduring_accounts hbound hvms hhosts hplan.kind hscheduled.schedule k
    source.drawn).attended.run calls (r := (s, w)) hfirst
  refine ⟨k, by omega, hn, fun hnone => ?_, fun f hf => ?_⟩
  · exact (hrun.fresh (Progress.fresh_of_found? hnone)).2.2
  · obtain ⟨hholds, hdrawn⟩ := hrun.found f hf
    refine ⟨hholds.size, ?_⟩
    rw [hdrawn, ← hrun.told]
    rfl

def twiceListed : Running Float (Plan Float) (Vm Int) (Host Int) :=
  (.fresh (.annealing ⟨.real 100, 1, 0.5⟩) (landscape [⟨1, 2⟩, ⟨2, 3⟩, ⟨1, 2⟩] [⟨1, 8⟩, ⟨2, 4⟩])
    (.repeating ([0.25, 0.75, 0.5].map .real)) (.int 4) none, ⟨0, 0, .empty, []⟩)

/-- Three samples place the machines, and each of eight trials draws three. -/
theorem samples_are_accounted_for_twiceListed :
    (Call.after [.start, .step, .step] twiceListed).1.source.drawn = 3 + 2 * (4 * (2 + 1)) := by
  have hplan : (Plan.annealing ⟨.real 100, 1, 0.5⟩).IsMade :=
    .annealing (show Annealing.ofData (.float 100) (.float 1) (.float 0.5) = .ok _ by rfl)
  have hs : Search.ofDatum (.annealing ⟨.real 100, 1, 0.5⟩)
      (landscape [⟨1, 2⟩, ⟨2, 3⟩, ⟨1, 2⟩] [⟨1, 8⟩, ⟨2, 4⟩])
      (.repeating ([0.25, 0.75, 0.5].map .real)) (.int 4) none = .ok twiceListed.1 := rfl
  have hsource : (Source.repeating ([(0.25 : Float), 0.75, 0.5].map .real)).InUnit := by
    have hall : ∀ x ∈ [(0.25 : Float), 0.75, 0.5], 0 ≤ x ∧ x < 1 := by decide +kernel
    refine Source.inUnit_repeating (by simp) fun x hx => ?_
    obtain ⟨y, hy, rfl⟩ := List.mem_map.mp hx
    exact hall y hy
  obtain ⟨k, -, hk, -, hbegun⟩ := samples_are_accounted_for hplan hs hsource (by decide)
    (by decide) (by decide) twiceListed.2 [.start, .step, .step]
  obtain rfl : 4 = k := by
    have hfour : (4 : Int) = k := Except.ok.inj hk
    omega
  have hfound : ((Call.after [.start, .step, .step] twiceListed).1.progress.found?).isSome := by
    decide +kernel
  have htold : (Call.outcomes [.start, .step, .step] twiceListed).length = 2 := by decide +kernel
  cases hf : (Call.after [.start, .step, .step] twiceListed).1.progress.found? with
  | none =>
    rw [hf] at hfound
    cases hfound
  | some f =>
    rw [Prod.mk.eta] at hbegun
    have hdrawn := (hbegun f hf).2
    rw [htold] at hdrawn
    exact hdrawn

end Placement
end AssignmentSearch
