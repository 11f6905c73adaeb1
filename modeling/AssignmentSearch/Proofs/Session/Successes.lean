import AssignmentSearch.Proofs.Placement.Accounting
import AssignmentSearch.Proofs.Search.Trials
import AssignmentSearch.Proofs.Session.Answers

/-!
# Runs that succeed

A search for placements whose processing elements add up exactly knows all its costs, and draws what it
draws without a fault. So without records no step of it fails, and a run of a scenario that can be told
succeeds if its schedule comes to an end.
-/

namespace AssignmentSearch

namespace Placement

variable {vms : List (Vm Int)} {hosts : List (Host Int)}

structure Manageable (vms : List (Vm Int)) (hosts : List (Host Int)) : Prop where
  elements : elements vms hosts < 2 ^ 53
  vms : vms.length < 2 ^ 63
  hosts : hosts.length < 2 ^ 63

section
variable {plan : Plan Float} {stop : Nat → Bool} {k drawn : Nat}
  {l : List (Event Float (Vm Int) (Host Int))} {r : Running Float (Plan Float) (Vm Int) (Host Int)}
  (hsizes : Manageable vms hosts) (hplan : plan.IsAnnealing ∨ plan.IsGravity)
  (hschedule : Strategy.Schedule plan stop)
include hsizes hschedule

theorem Accounts.start_answered (h : Accounts vms hosts plan k drawn l r.1)
    (hgoes : stop 0 = false) (hfresh : r.1.progress = .fresh) :
    ∃ t, Search.start.start r = (.ok (), t) := by
  obtain ⟨first, source, hinitial, hplaces, -⟩ := h.exists_first hsizes.hosts hfresh
  obtain ⟨cost, hcost, -⟩ := hplaces.exists_cost hsizes.elements
  have hstop : Strategy.stops r.1.strategy = .ok false := by
    rw [hschedule.stops_eq h.ages, (h.fresh hfresh).2.1, hgoes]
  obtain ⟨w, -, hstart⟩ := Search.start_of_fresh hfresh r.2
  rw [Search.begin_of_ok hinitial, hcost] at hstart
  dsimp only [Except.map] at hstart
  rw [Search.endIfDue, hstop, Attempt.start_bind_ok (Attempt.start_lift _ _)] at hstart
  exact ⟨_, hstart⟩

include hplan

theorem Accounts.step_answered (h : Accounts vms hosts plan k drawn l r.1)
    {f : Found Float (Vm Int) (Host Int)} (hf : r.1.progress = .searching f)
    (hnone : r.1.recorder = none) :
    ∃ o t, Search.step.start r = (.ok o, t) ∧ t.1.recorder = none := by
  obtain ⟨o, s, g, hadvance, hrecorder, hg, hknown, -⟩ :=
    h.answered hsizes.elements hsizes.vms hplan hschedule hf
  have hstep := Search.step_of_searching hf
  rw [hadvance] at hstep
  obtain ⟨time, p, hstate, -⟩ := Search.conclude_search (r.2.now + r.2.tick) o
    (s, { r.2 with now := r.2.now + r.2.tick })
  have hanswer := (Search.answer_conclude hg hknown { r.2 with now := r.2.now + r.2.tick }
    (r.2.now + r.2.tick) o).resolve_right fun hrecorded => hrecorded.1 (hrecorder.trans hnone)
  refine ⟨o, _, hstep.trans (Prod.ext hanswer rfl), ?_⟩
  rw [hstate]
  exact hrecorder.trans hnone

theorem Accounts.drive_answered (n : Nat) (h : Accounts vms hosts plan k drawn l r.1)
    (hnone : r.1.recorder = none) :
    ∃ isOver t, (Search.drive n).start r = (.ok isOver, t) := by
  induction n generalizing l r with
  | zero => exact ⟨_, _, rfl⟩
  | succ n ih =>
    rw [Search.drive, Attempt.start_bind_ok (Attempt.start_get r)]
    cases hp : r.1.progress with
    | fresh => exact ⟨_, _, rfl⟩
    | finished f => exact ⟨_, _, rfl⟩
    | searching f =>
      obtain ⟨o, t, hstep, hnext⟩ := h.step_answered hsizes hplan hschedule hp hnone
      have haccounts := (enduring_accounts hsizes.elements hsizes.vms hsizes.hosts hplan hschedule k
        drawn).attended.step h
      rw [hstep] at haccounts
      rw [if_pos (show (Progress.searching f).stage = .searching from rfl),
        Attempt.start_bind_ok hstep]
      exact ih haccounts hnext

theorem Accounts.solve_answered (limit : Nat) (h : Accounts vms hosts plan k drawn l r.1)
    {f : Found Float (Vm Int) (Host Int)} (hf : r.1.progress.found? = some f)
    (hnone : r.1.recorder = none) :
    ∃ best t, (Search.solve limit).start r = (.ok best, t) := by
  obtain ⟨isOver, t, hdrive⟩ := h.drive_answered hsizes hplan hschedule limit hnone
  rw [Search.solve, Attempt.start_bind_ok (Search.start_of_found hf), Attempt.start_bind_ok hdrive]
  cases isOver <;> exact ⟨_, _, rfl⟩

end

theorem tellCurrent_of_begun {s t : PlacementSearch} {w w' : Surroundings Float}
    (hfresh : s.progress = .fresh) (hkept : s.kept = none)
    (hlandscape : s.landscape = landscape vms hosts)
    (hvms : ∀ vm ∈ vms, Written.isLong vm.id = false)
    (hhosts : ∀ host ∈ hosts, Written.isLong host.id = false)
    (h : Search.start.start (s, w) = (.ok (), (t, w'))) : t.tellCurrent = .ok t.currentMapping := by
  obtain ⟨first, source, stop, hinitial, -, -, ht⟩ := Search.start_ok hfresh h
  dsimp only at ht hinitial
  rw [hlandscape, hkept] at hinitial
  have hplaces : Places vms hosts first := Places.initial (by simp) hinitial
  have hwrites : writes first.evaluated.mapping = true := by
    rw [first.mapping_evaluated]
    exact writes_iff.mpr ⟨fun vm hvm => hvms vm (hplaces.tasks hvm),
      fun host hhost => hhosts host (hplaces.resources hhost)⟩
  have hfound : t.progress.found? = some (Search.firstFound first) := by
    rw [ht, Search.found?_progressOf]
  rw [Search.tellCurrent, Search.currentMapping, hfound]
  apply Search.tell_of_writes
  rw [ht, hlandscape]
  exact hwrites

end Placement

namespace Service

open Placement

variable {scenario : Datum} {history : Option Datum} {given : Option Settings} {v u : Service}
  {parsed : Scenario} {session : Session}

theorem accounts_of_register (hparse : Scenario.parse scenario = .ok parsed)
    (hregister : (register scenario history given).start v = (.ok session, u)) :
    ∃ cfg p k drawn, plan parsed cfg = .ok p ∧ session.search.strategy = p ∧
      session.search.progress = .fresh ∧
        Accounts parsed.vms parsed.hosts p k drawn [] session.search := by
  obtain ⟨parsed', cfg, -, recorder, source, search, hparse', hsource, hbuild, rfl, -⟩ :=
    register_ok hregister
  rw [hparse] at hparse'
  cases hparse'
  obtain ⟨p, n, hp, hn, rfl⟩ := exists_fresh_of_build hbuild
  obtain ⟨k, rfl⟩ : ∃ k : Nat, n = k := ⟨n.toNat, by omega⟩
  exact ⟨cfg, p, k, source.drawn, hp, rfl, rfl,
    accounts_fresh p k recorder (Source.inUnit_of_seeded hsource)⟩

theorem exists_opens_of_accounts {p : Plan Float} {stop : Nat → Bool} {k drawn : Nat}
    (hregister : (register scenario history given).start v = (.ok session, u))
    (hfresh : session.search.progress = .fresh)
    (haccounts : Accounts parsed.vms parsed.hosts p k drawn [] session.search)
    (hkind : p.IsAnnealing ∨ p.IsGravity) (hscheduled : Scheduled p stop)
    (hsizes : Manageable parsed.vms parsed.hosts)
    (hvms : ∀ vm ∈ parsed.vms, Written.isLong vm.id = false)
    (hhosts : ∀ host ∈ parsed.hosts, Written.isLong host.id = false) :
    ∃ created w l f, Opens scenario history given v session u created w ∧
      Accounts parsed.vms parsed.hosts p k drawn l (onceBegun session u).search ∧
        (onceBegun session u).search.progress.found? = some f ∧
          (onceBegun session u).search.recorder = session.search.recorder := by
  obtain ⟨⟨t, w⟩, hstart⟩ := Accounts.start_answered hsizes hscheduled.schedule
    (r := (session.search, u.surroundings)) haccounts hscheduled.goes hfresh
  have honce : (onceBegun session u).search = t := by
    rw [onceBegun, begun, hstart]
  have htold := tellCurrent_of_begun hfresh (haccounts.fresh hfresh).1 haccounts.landscape
    hvms hhosts hstart
  have hgreeting : greeting session u = .ok t.currentMapping := by
    rw [greeting, honce, begun, hstart]
    exact htold
  obtain ⟨created, w', hopens⟩ := opens_of_greeting hregister hgreeting
  have hbegun := (enduring_accounts hsizes.elements hsizes.vms hsizes.hosts hkind
    hscheduled.schedule k drawn).attended.start (r := (session.search, u.surroundings)) haccounts
  rw [hstart] at hbegun
  obtain ⟨first, source, isOver, -, -, -, ht⟩ := Search.start_ok hfresh hstart
  refine ⟨created, w', _, Search.firstFound first, hopens, honce ▸ hbegun, ?_, ?_⟩
  · rw [honce, show t = _ from ht, Search.found?_progressOf]
  · rw [honce, show t = _ from ht]

end Service

namespace Request

open Placement

variable {scenario : Datum} {history : Option Datum} {given : Option Settings} {v u : Service}
  {parsed : Scenario} {session : Session}

/-- A run of a scenario that is registered without a recorder succeeds under every limit from some
limit on, if the schedule of its plan comes to an end: its sizes are manageable and its identifiers can
be written. -/
theorem run_succeeds (hparse : Scenario.parse scenario = .ok parsed)
    (hregister : (Service.register scenario history given).start v = (.ok session, u))
    (hnone : session.search.recorder = none) (hends : session.search.strategy.Ends)
    (hsizes : Manageable parsed.vms parsed.hosts)
    (hvms : ∀ vm ∈ parsed.vms, Written.isLong vm.id = false)
    (hhosts : ∀ host ∈ parsed.hosts, Written.isLong host.id = false) :
    ∃ n, ∀ limit, n < limit → ∃ reply w,
      (run limit scenario history given).answer.start v = (.ok (some reply), w) ∧
        reply.success = true := by
  obtain ⟨cfg, p, k, drawn, hp, hstrategy, hfresh, haccounts⟩ :=
    Service.accounts_of_register hparse hregister
  have hkind := (isMade_of_plan hp).kind
  obtain ⟨stop, hscheduled⟩ := (isMade_of_plan hp).scheduled
  obtain ⟨n, hn⟩ := hscheduled.ends (hstrategy ▸ hends)
  obtain ⟨created, w, l, f, hopens, hbegun, hfound, hrecorder⟩ :=
    Service.exists_opens_of_accounts hregister hfresh haccounts hkind hscheduled hsizes hvms hhosts
  refine ⟨n, fun limit hlimit => ?_⟩
  obtain ⟨answer, v', hfinish, -, hsolved⟩ :=
    Service.finish_answered limit created hopens.get? hopens.tellable
  obtain ⟨best, r, hsolve⟩ := Accounts.solve_answered hsizes hkind hscheduled.schedule limit
    (r := ((Service.onceBegun session u).search, w.surroundings)) hbegun hfound
    (hrecorder.trans hnone)
  cases best with
  | none => exact absurd hsolve (Search.solve_ends hscheduled.schedule hn hbegun.ages hlimit)
  | some best =>
    obtain ⟨reply, rfl, hsuccess⟩ := hsolved best (by rw [hsolve])
    exact ⟨reply, v', by rw [start_run_some hopens.create, hfinish], hsuccess⟩

theorem gravity_run_succeeds (hparse : Scenario.parse scenario = .ok parsed)
    (hgravity : parsed.algorithm = .gravity)
    (hregister : (Service.register scenario history given).start v = (.ok session, u))
    (hnone : session.search.recorder = none) (hsizes : Manageable parsed.vms parsed.hosts)
    (hvms : ∀ vm ∈ parsed.vms, Written.isLong vm.id = false)
    (hhosts : ∀ host ∈ parsed.hosts, Written.isLong host.id = false) :
    ∃ n, ∀ limit, n < limit → ∃ reply w,
      (run limit scenario history given).answer.start v = (.ok (some reply), w) ∧
        reply.success = true := by
  refine run_succeeds hparse hregister hnone ?_ hsizes hvms hhosts
  obtain ⟨cfg, p, k, drawn, hp, hstrategy, -, -⟩ := Service.accounts_of_register hparse hregister
  rw [plan, hgravity] at hp
  obtain ⟨g, -, hg⟩ := exists_of_bind_ok hp
  cases hg
  rw [hstrategy]
  trivial

end Request
end AssignmentSearch
