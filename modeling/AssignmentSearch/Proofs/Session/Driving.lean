import AssignmentSearch.Proofs.Search.BestSoFar
import AssignmentSearch.Proofs.Search.Driving
import AssignmentSearch.Proofs.Session.Answers
import AssignmentSearch.Proofs.Session.Successes

/-!
# Sessions driven step by step

A session that is stepped until a reply says that the search is over gets where a run gets, however
often it is inspected on the way. The service that holds a session is told by the session's search
and the surroundings, so steps of the session are steps of a running search.
-/

namespace AssignmentSearch

namespace Service

open Placement

def holding (v : Service) (session : Session)
    (r : Running Float (Plan Float) (Vm Int) (Host Int)) : Service :=
  { v with
    registry := v.registry.put { session with search := r.1 }
    surroundings := r.2 }

variable {β : Type} {v : Service} {session : Session}
  {r t : Running Float (Plan Float) (Vm Int) (Host Int)}

theorem get?_holding (v : Service) (session : Session)
    (r : Running Float (Plan Float) (Vm Int) (Host Int)) :
    (v.holding session r).registry.get? session.id = some { session with search := r.1 } :=
  v.registry.get?_put_self { session with search := r.1 }

theorem start_onSearch_holding (v : Service) (session : Session)
    (r : Running Float (Plan Float) (Vm Int) (Host Int)) (s : PlacementSearch)
    (x : Attempt (Running Float (Plan Float) (Vm Int) (Host Int)) β) :
    (onSearch { session with search := s } x).start (v.holding session r) =
      ((x.start r).1, v.holding session (x.start r).2) := by
  have hget : (v.holding session r).registry.get? ({ session with search := s } : Session).id =
      some { session with search := r.1 } := get?_holding v session r
  have hput : (v.registry.put { session with search := r.1 }).put
      { session with search := (x.start r).2.1 } =
        v.registry.put { session with search := (x.start r).2.1 } := v.registry.put_put rfl
  rw [start_onSearch hget]
  simp only [holding, hput]

theorem start_snapshot_holding (v : Service) (session : Session) (s : PlacementSearch)
    {fields : List (String × Datum)} (h : r.1.snapshot = .ok fields) :
    (snapshot { session with search := s }).start (v.holding session r) =
      (.ok (.object fields), v.holding session r) := by
  have hget : (v.holding session r).registry.get? ({ session with search := s } : Session).id =
      some { session with search := r.1 } := get?_holding v session r
  exact start_snapshot hget h

def stepReply (id : String) (o : Outcome Float) (fields : List (String × Datum)) : Reply :=
  ⟨true, [("session_id", .str id)] ++ o.fields ++ [("state", .object fields)]⟩

def stateReply (session : Session) (s : PlacementSearch) (fields : List (String × Datum)) : Reply :=
  ⟨true, [("session_id", .str session.id), ("algo", .str session.algorithm),
    ("state", .object fields), ("best_mapping", s.bestMapping)]⟩

def runReply (session : Session) (created : Reply) (s : PlacementSearch) (cost : Float)
    (fields : List (String × Datum)) : Reply :=
  ⟨true, [("session_id", .str session.id), ("algo", .str session.algorithm),
    ("best_cost", .float cost), ("best_mapping", s.bestMapping),
    ("initial_mapping", (created.fields.lookup "initial_mapping").getD .null),
    ("state", .object fields)]⟩

theorem step_holding (v : Service) (session : Session) {o : Outcome Float}
    (hunder : r.1.progress.stage ≠ .terminated) (h : Search.step.start r = (.ok o, t)) :
    ∃ fields, t.1.snapshot = .ok fields ∧
      (Request.step session.id).answer.start (v.holding session r) =
        (.ok (some (stepReply session.id o fields)), v.holding session t) := by
  obtain ⟨fields, hfields⟩ := Search.exists_snapshot (s := t.1) fun f hf =>
    Search.known_of_step_ok h hf
  refine ⟨fields, hfields, ?_⟩
  rw [Request.answer, Attempt.start_map, step, Attempt.start_bind_ok (Attempt.start_get _),
    get?_holding]
  dsimp only
  rw [if_neg hunder, Attempt.start_bind_ok (Attempt.start_outcome _ _), start_onSearch_holding, h]
  dsimp only
  rw [Attempt.start_bind_ok (start_snapshot_holding v session r.1 hfields)]
  rfl

theorem step_holding_error (v : Service) (session : Session) {e : Fault}
    (hunder : r.1.progress.stage ≠ .terminated) (h : Search.step.start r = (.error e, t)) :
    ∃ reply w, (Request.step session.id).answer.start (v.holding session r) =
      (.ok (some reply), w) ∧ reply.success = false := by
  rw [Request.answer, Attempt.start_map, step, Attempt.start_bind_ok (Attempt.start_get _),
    get?_holding]
  dsimp only
  rw [if_neg hunder, Attempt.start_bind_ok (Attempt.start_outcome _ _), start_onSearch_holding, h]
  exact ⟨_, _, rfl, rfl⟩

theorem inspect_holding (v : Service) (session : Session) (h : Tellable r.1) :
    ∃ fields, r.1.snapshot = .ok fields ∧
      (Request.inspect session.id).answer.start (v.holding session r) =
        (.ok (some (stateReply session r.1 fields)), v.holding session r) := by
  obtain ⟨vms, hosts, first, hstands⟩ := h
  obtain ⟨fields, hfields⟩ := hstands.exists_snapshot
  refine ⟨fields, hfields, ?_⟩
  rw [Request.answer, Attempt.start_map, inspect, Attempt.start_bind_ok (Attempt.start_get _),
    get?_holding]
  dsimp only
  rw [Attempt.start_bind_ok (start_snapshot_holding v session r.1 hfields), hstands.tellBest]
  rfl

def without (v : Service) (id : String) : Service := { v with registry := v.registry.remove id }

theorem finish_holding (v : Service) (session : Session) {limit : Nat}
    {best : Solution Float (Vm Int) (Host Int)} (created : Reply) (htold : Tellable r.1)
    (h : (Search.solve limit).start r = (.ok (some best), t)) :
    ∃ cost fields, best.costValue = .ok cost ∧ t.1.snapshot = .ok fields ∧
      (finish limit session created).start (v.holding session r) =
        (.ok (some (runReply session created t.1 cost fields)),
          (v.holding session t).without session.id) := by
  obtain ⟨⟨cost, hcost⟩, htell, fields, hfields⟩ := htold.solved h
  refine ⟨cost, fields, hcost, hfields, ?_⟩
  have hsolve := start_onSearch_holding v session r session.search (Search.solve limit)
  rw [finish, Attempt.start_bind_ok (Attempt.start_outcome _ _), hsolve, h,
    Attempt.start_bind_ok (start_search (get?_holding v session t))]
  dsimp only
  rw [Attempt.start_bind_ok (start_release _ _), hcost,
    Attempt.start_bind_ok (Attempt.start_lift _ _), htell,
    Attempt.start_bind_ok (Attempt.start_lift _ _), hfields,
    Attempt.start_bind_ok (Attempt.start_lift _ _)]
  rfl

theorem solved_of_finish {limit : Nat} {created reply : Reply} {w : Service}
    (h : (finish limit session created).start (v.holding session r) = (.ok (some reply), w))
    (hsuccess : reply.success = true) :
    ∃ best t, (Search.solve limit).start r = (.ok (some best), t) := by
  obtain ⟨best, hbest, -, -⟩ := (finish_spec limit created (get?_holding v session r)).2 reply
    (by rw [h]) hsuccess
  exact ⟨best, _, Prod.ext hbest rfl⟩

section
variable {scenario : Datum} {history : Option Datum} {given : Option Settings} {u w : Service}
  {created : Reply}

abbrev opened (session : Session) (u w : Service) :
    Running Float (Plan Float) (Vm Int) (Host Int) :=
  ((onceBegun session u).search, w.surroundings)

theorem Opens.holding (h : Opens scenario history given v session u created w) :
    w = ({ w with registry := u.registry } : Service).holding session (opened session u w) := by
  have hregistry := h.registry
  cases w
  simp only at hregistry
  rw [hregistry]
  rfl

theorem Opens.tellable_opened (h : Opens scenario history given v session u created w) :
    Tellable (opened session u w).1 :=
  h.tellable

theorem Opens.searching (h : Opens scenario history given v session u created w) :
    ∃ f, (opened session u w).1.progress = .searching f := by
  obtain ⟨stop, hscheduled⟩ := h.scheduled
  obtain ⟨parsed, cfg, source, recorder, -, -, -, hbuild⟩ := (registers_of_ok h.register).built
  obtain ⟨hfresh, -⟩ := settled_of_build hbuild
  obtain ⟨first, source', isOver, -, -, hover, ht⟩ :=
    Search.start_ok (r := (session.search, u.surroundings)) hfresh (Prod.ext h.begun rfl)
  have hzero := hscheduled.schedule.stops_eq (Strategy.ages_zero.mpr rfl)
  rw [hover, hscheduled.goes] at hzero
  cases hzero
  have hsearch : (opened session u w).1 = _ := ht
  exact ⟨_, by rw [hsearch]; rfl⟩

end
end Service

namespace Request

open Placement Service

/-- A session is stepped until a reply says that its search is over, and may be inspected on the way.
All calls succeed, and `last` is the last reply. -/
inductive Drives (id : String) : List Request → Service → Reply → Service → Prop
  | last {v w : Service} {reply : Reply}
      (answer : (step id).answer.start v = (.ok (some reply), w)) (success : reply.success = true)
      (done : reply.fields.lookup "done" = some (.bool true)) : Drives id [step id] v reply w
  | step {v u w : Service} {reply last : Reply} {rest : List Request}
      (answer : (step id).answer.start v = (.ok (some reply), u)) (success : reply.success = true)
      (more : reply.fields.lookup "done" = some (.bool false)) (onward : Drives id rest u last w) :
      Drives id (Request.step id :: rest) v last w
  | inspect {v u w : Service} {reply last : Reply} {rest : List Request}
      (answer : (inspect id).answer.start v = (.ok (some reply), u)) (success : reply.success = true)
      (onward : Drives id rest u last w) : Drives id (Request.inspect id :: rest) v last w

/-- Requests that step a session `n` times, last of all, and inspect it in between. -/
inductive Mixed (id : String) : Nat → List Request → Prop
  | last : Mixed id 1 [step id]
  | step {n : Nat} {rest : List Request} (onward : Mixed id n rest) :
      Mixed id (n + 1) (Request.step id :: rest)
  | inspect {n : Nat} {rest : List Request} (onward : Mixed id n rest) :
      Mixed id n (Request.inspect id :: rest)

theorem Mixed.pos {id : String} {n : Nat} {requests : List Request} (h : Mixed id n requests) :
    0 < n := by
  induction h with
  | last => exact Nat.one_pos
  | step onward ih => exact Nat.succ_pos _
  | inspect onward ih => exact ih

theorem exists_mixed (id : String) {n : Nat} (h : 0 < n) : ∃ requests, Mixed id n requests := by
  induction n with
  | zero => cases h
  | succ n ih =>
    rcases Nat.eq_zero_or_pos n with rfl | hpos
    · exact ⟨_, .last⟩
    · obtain ⟨requests, hmixed⟩ := ih hpos
      exact ⟨_, .step hmixed⟩

variable {v : Service} {session : Session}
  {r t : Running Float (Plan Float) (Vm Int) (Host Int)}

theorem drives_of_strides {n : Nat} {o : Outcome Float} {requests : List Request}
    (hmixed : Mixed session.id n requests) {f : Found Float (Vm Int) (Host Int)}
    (hf : r.1.progress = .searching f) (htold : Tellable r.1) (h : Search.Strides n r o t) :
    ∃ fields, t.1.snapshot = .ok fields ∧
      Drives session.id requests (v.holding session r) (stepReply session.id o fields)
        (v.holding session t) := by
  induction hmixed generalizing r f with
  | last =>
    have hunder : r.1.progress.stage ≠ .terminated := by rw [hf]; nofun
    cases h with
    | last step done =>
      obtain ⟨fields, hfields, hstep⟩ := step_holding v session hunder step
      refine ⟨fields, hfields, .last hstep rfl ?_⟩
      rw [← done]
      rfl
    | next step more rest => exact absurd rest.pos (Nat.lt_irrefl 0)
  | step onward ih =>
    have hunder : r.1.progress.stage ≠ .terminated := by rw [hf]; nofun
    cases h with
    | last step done => exact absurd onward.pos (Nat.lt_irrefl 0)
    | @next _ _ s _ o' _ step more rest =>
      obtain ⟨_, -, hstep⟩ := step_holding v session hunder step
      obtain ⟨g, hg, -⟩ := Search.reports_of_step_ok step
      have hnext := kept_tellable.step (l := []) (r := r) htold
      rw [more] at hg
      rw [step] at hnext
      obtain ⟨fields, hfields, hdrives⟩ := ih hg hnext rest
      refine ⟨fields, hfields, .step hstep rfl ?_ hdrives⟩
      rw [← more]
      rfl
  | inspect onward ih =>
    obtain ⟨_, -, hinspect⟩ := inspect_holding v session htold
    obtain ⟨fields, hfields, hdrives⟩ := ih hf htold h
    exact ⟨fields, hfields, .inspect hinspect rfl hdrives⟩

theorem step_of_success {f : Found Float (Vm Int) (Host Int)} (hf : r.1.progress = .searching f)
    {reply : Reply} {w : Service}
    (h : (step session.id).answer.start (v.holding session r) = (.ok (some reply), w))
    (hsuccess : reply.success = true) :
    ∃ o t, Search.step.start r = (.ok o, t) ∧ w = v.holding session t ∧
      reply.fields.lookup "done" = some (.bool o.done) := by
  have hunder : r.1.progress.stage ≠ .terminated := by rw [hf]; nofun
  rcases hx : Search.step.start r with ⟨a, t⟩
  cases a with
  | error e =>
    obtain ⟨reply', w', hstep, hfailed⟩ := step_holding_error v session hunder hx
    rw [hstep] at h
    cases h
    rw [hfailed] at hsuccess
    cases hsuccess
  | ok o =>
    obtain ⟨fields, -, hstep⟩ := step_holding v session hunder hx
    rw [hstep] at h
    cases h
    exact ⟨o, t, rfl, rfl, rfl⟩

theorem strides_of_drives {requests : List Request} {last : Reply} {w : Service}
    {f : Found Float (Vm Int) (Host Int)} (hf : r.1.progress = .searching f)
    (htold : Tellable r.1) (h : Drives session.id requests (v.holding session r) last w) :
    ∃ n o t, Search.Strides n r o t := by
  -- All services on the way hold the same session in `v`; what changes is the running search `r`.
  generalize hv : v.holding session r = u at h
  induction h generalizing r f with
  | last answer success done =>
    rw [← hv] at answer
    obtain ⟨o, t, hstep, -, hdone⟩ := step_of_success hf answer success
    rw [hdone, Option.some_inj, Datum.bool.injEq] at done
    exact ⟨1, o, t, .last hstep done⟩
  | step answer success more onward ih =>
    rw [← hv] at answer
    obtain ⟨o, t, hstep, hw, hdone⟩ := step_of_success hf answer success
    rw [hdone, Option.some_inj, Datum.bool.injEq] at more
    obtain ⟨g, hg, -⟩ := Search.reports_of_step_ok hstep
    have hnext := kept_tellable.step (l := []) (r := r) htold
    rw [more] at hg
    rw [hstep] at hnext
    obtain ⟨n, o', t', hrest⟩ := ih hg hnext hw.symm
    exact ⟨n + 1, o', t', .next hstep more hrest⟩
  | inspect answer success onward ih =>
    obtain ⟨fields, -, hinspect⟩ := inspect_holding v session htold
    rw [← hv, hinspect] at answer
    cases answer
    exact ih hf htold rfl

def Tell (key : String) (a b : Reply) : Prop :=
  ∃ d, a.fields.lookup key = some d ∧ b.fields.lookup key = some d

/-- A run replies what is told step by step: by the creation, by the last step and by an inspection
after it. -/
structure Summarizes (run created last told : Reply) : Prop where
  algorithm : Tell "algo" run created ∧ Tell "algo" run told
  initial : Tell "initial_mapping" run created
  cost : Tell "best_cost" run last
  best : Tell "best_mapping" run told
  state : Tell "state" run last ∧ Tell "state" run told

/-- How runs of a scenario compare with sessions that are driven step by step. -/
structure RunsAsDriven (scenario : Datum) (history : Option Datum) (given : Option Settings)
    (v : Service) : Prop where
  succeeds :
    (∃ limit reply w, (run limit scenario history given).answer.start v = (.ok (some reply), w) ∧
      reply.success = true) ↔
    ∃ created u id requests last w,
      (create scenario history given).answer.start v = (.ok (some created), u) ∧
        created.success = true ∧ created.named = some id ∧ Drives id requests u last w
  agrees : ∀ limit reply w,
    (run limit scenario history given).answer.start v = (.ok (some reply), w) →
      reply.success = true →
        ∃ created u id n, (create scenario history given).answer.start v = (.ok (some created), u) ∧
          created.success = true ∧ created.named = some id ∧ (∃ requests, Mixed id n requests) ∧
            ∀ requests, Mixed id n requests → ∃ last told t, Drives id requests u last t ∧
              (inspect id).answer.start t = (.ok (some told), t) ∧ told.success = true ∧
                Summarizes reply created last told ∧ w = t.without id

section
variable {scenario : Datum} {history : Option Datum} {given : Option Settings}

theorem named_of_opens {u w : Service} {created : Reply}
    (h : Opens scenario history given v session u created w) :
    created.named = some session.id := by
  rw [Reply.named, h.welcomes.named]
  rfl

/-- A run that succeeds has opened a session, whose search has come to its end. -/
theorem opens_of_run {limit : Nat} {reply : Reply} {w : Service}
    (h : (run limit scenario history given).answer.start v = (.ok (some reply), w))
    (hsuccess : reply.success = true) :
    ∃ session u created t best t', Opens scenario history given v session u created t ∧
      (Search.solve limit).start (opened session u t) = (.ok (some best), t') := by
  rcases exists_created scenario history given v with
    ⟨reply', w', hcreate, hfailed⟩ | ⟨session, u, created, t, hopens⟩
  · rw [start_run_none hcreate] at h
    cases h
    rw [hfailed] at hsuccess
    cases hsuccess
  · rw [start_run_some hopens.create, hopens.holding] at h
    obtain ⟨best, t', hsolve⟩ := solved_of_finish h hsuccess
    exact ⟨session, u, created, t, best, t', hopens, hsolve⟩

theorem runsAsDriven (scenario : Datum) (history : Option Datum) (given : Option Settings)
    (v : Service) : RunsAsDriven scenario history given v where
  succeeds := by
    constructor
    · rintro ⟨limit, reply, w, hrun, hsuccess⟩
      obtain ⟨session, u, created, t, best, _, hopens, hsolve⟩ := opens_of_run hrun hsuccess
      obtain ⟨f, hf⟩ := hopens.searching
      obtain ⟨n, o, hstrides⟩ := Search.strides_of_solve hf hsolve
      obtain ⟨requests, hmixed⟩ := exists_mixed session.id hstrides.pos
      obtain ⟨fields, -, hdrives⟩ := drives_of_strides hmixed hf hopens.tellable_opened hstrides
      rw [← hopens.holding] at hdrives
      exact ⟨created, t, session.id, requests, _, _, start_create hopens.create,
        hopens.welcomes.success, named_of_opens hopens, hdrives⟩
    · rintro ⟨created, u, id, requests, last, w, hcreate, hsuccess, hnamed, hdrives⟩
      rcases exists_created scenario history given v with
        ⟨reply', w', hnone, hfailed⟩ | ⟨session, u', created', t, hopens⟩
      · rw [start_create hnone] at hcreate
        cases hcreate
        rw [hfailed] at hsuccess
        cases hsuccess
      · rw [start_create hopens.create] at hcreate
        cases hcreate
        rw [named_of_opens hopens, Option.some_inj] at hnamed
        rw [← hnamed, hopens.holding] at hdrives
        obtain ⟨f, hf⟩ := hopens.searching
        obtain ⟨n, o, t', hstrides⟩ := strides_of_drives hf hopens.tellable_opened hdrives
        obtain ⟨g, hg, -⟩ := hstrides.finished
        obtain ⟨cost, fields, -, -, hfinish⟩ := finish_holding
          ({ u with registry := u'.registry }) session created hopens.tellable_opened
          (hstrides.solve hg)
        rw [← hopens.holding] at hfinish
        exact ⟨n, _, _, (start_run_some hopens.create).trans hfinish, rfl⟩
  agrees := by
    intro limit reply w hrun hsuccess
    obtain ⟨session, u, created, t, best, t', hopens, hsolve⟩ := opens_of_run hrun hsuccess
    obtain ⟨f, hf⟩ := hopens.searching
    obtain ⟨n, o, hstrides⟩ := Search.strides_of_solve hf hsolve
    obtain ⟨g, hg, hcost⟩ := hstrides.finished
    obtain ⟨cost, fields, hbest, hfields, hfinish⟩ := finish_holding
      ({ t with registry := u.registry }) session created hopens.tellable_opened hsolve
    rw [start_run_some hopens.create, hopens.holding, hfinish] at hrun
    cases hrun
    have htold := kept_tellable.solve limit (l := []) (r := opened session u t) hopens.tellable_opened
    rw [hsolve] at htold
    have hsame : cost = o.bestCost := by
      obtain ⟨k, hk, hsolution⟩ := Search.solve_ok hsolve
      rw [hg] at hk
      cases hk
      rw [hsolution, hcost] at hbest
      exact (Except.ok.inj hbest).symm
    refine ⟨created, t, session.id, n, start_create hopens.create, hopens.welcomes.success,
      named_of_opens hopens, exists_mixed session.id hstrides.pos, fun requests hmixed => ?_⟩
    obtain ⟨fields', hfields', hdrives⟩ := drives_of_strides (v := { t with registry := u.registry })
      hmixed hf hopens.tellable_opened hstrides
    obtain ⟨fields'', hfields'', hinspect⟩ :=
      inspect_holding ({ t with registry := u.registry }) session htold
    rw [hfields] at hfields' hfields''
    cases hfields'
    cases hfields''
    rw [← hopens.holding] at hdrives
    refine ⟨_, _, _, hdrives, hinspect, rfl, ?_, rfl⟩
    exact {
      algorithm := ⟨⟨_, rfl, hopens.algorithm⟩, ⟨_, rfl, rfl⟩⟩
      initial := ⟨_, by simp only [runReply, hopens.welcomes.initial]; rfl, hopens.welcomes.initial⟩
      cost := ⟨_, rfl, by rw [hsame]; rfl⟩
      best := ⟨_, rfl, rfl⟩
      state := ⟨⟨_, rfl, rfl⟩, ⟨_, rfl, rfl⟩⟩ }

end

/-- Driving by hand and running agree. For a search, whatever is asked of it: what passes leaves the
rest of the run to be made, and what does not pass is a fault that the run has too. For a session,
from creation to the last reply: a run succeeds if and only if steps do, and they tell the same. -/
theorem driving_agrees_with_running {α σ τ ρ : Type} [Quantity α] [Strategy α σ]
    [Acceptance α σ (Solution α τ ρ)] [Printed α] [ToString τ] [ToString ρ] (asks : List Ask)
    (r : Running α σ τ ρ) (scenario : Datum) (history : Option Datum) (given : Option Settings)
    (v : Service) :
    AgreesWithRun asks r ∧ RunsAsDriven scenario history given v :=
  ⟨agreesWithRun asks r, runsAsDriven scenario history given v⟩

/-- A search of two steps for the places of three machines on two hosts. -/
def briefScenario : Datum :=
  .dict [(.str "algo", .str "gravity"), (.str "seed", .int 7),
    (.str "gravity", .dict [(.str "max_iterations", .int 2)]),
    (.str "hosts", .list [.dict [(.str "id", .int 1), (.str "pe_count", .int 8)],
      .dict [(.str "id", .int 2), (.str "pe_count", .int 4)]]),
    (.str "vms", .list [.dict [(.str "id", .int 1), (.str "pe_count", .int 2)],
      .dict [(.str "id", .int 2), (.str "pe_count", .int 3)],
      .dict [(.str "id", .int 3), (.str "pe_count", .int 1)]])]

def brief : Scenario :=
  ⟨none, .gravity, [⟨1, 8⟩, ⟨2, 4⟩], [⟨1, 2⟩, ⟨2, 3⟩, ⟨3, 1⟩], ⟨none, none, none⟩, some 2, none,
    some 7⟩

theorem driving_agrees_with_running_brief :
    (∃ best t, (Search.solve 3).start (listedSearch (.gravity ⟨⟨0, 3⟩⟩) [(5 : Float), 3, 4, 2] 0.5) =
        (.ok (some best), t) ∧
      (Search.solve 3).start (Ask.after [.snapshot, .step, .start, .bestCost]
        (listedSearch (.gravity ⟨⟨0, 3⟩⟩) [(5 : Float), 3, 4, 2] 0.5)) = (.ok (some best), t)) ∧
    ∃ created u id requests last w,
      (create briefScenario none (some .usual)).answer.start emptyService =
          (.ok (some created), u) ∧
        created.success = true ∧ created.named = some id ∧ Drives id requests u last w := by
  obtain ⟨hagrees, hdriven⟩ := driving_agrees_with_running [.snapshot, .step, .start, .bestCost]
    (listedSearch (.gravity ⟨⟨0, 3⟩⟩) [(5 : Float), 3, 4, 2] 0.5) briefScenario none (some .usual)
    emptyService
  constructor
  · have hends : ((Search.solve 3).start (listedSearch (.gravity ⟨⟨0, 3⟩⟩)
        [(5 : Float), 3, 4, 2] 0.5)).1.toOption.join.isSome = true := by decide +kernel
    rcases hsolve : (Search.solve 3).start
      (listedSearch (.gravity ⟨⟨0, 3⟩⟩) [(5 : Float), 3, 4, 2] 0.5) with ⟨_ | _ | best, t⟩
    · rw [hsolve] at hends
      cases hends
    · rw [hsolve] at hends
      cases hends
    · exact ⟨best, t, rfl, (hagrees.ended 3 best t hsolve).2⟩
  · apply hdriven.succeeds.mp
    have hparse : Scenario.parse briefScenario = .ok brief := by cbv
    have hregister : ((Service.register briefScenario none (some .usual)).start
        emptyService).1.toOption.map (·.search.recorder) = some none := by decide +kernel
    rcases hx : (Service.register briefScenario none (some .usual)).start emptyService with
      ⟨_ | session, u⟩
    · rw [hx] at hregister
      cases hregister
    · rw [hx] at hregister
      obtain ⟨n, hn⟩ := gravity_run_succeeds hparse rfl hx (Option.some_inj.mp hregister)
        ⟨by decide, by decide, by decide⟩ (by decide +kernel) (by decide +kernel)
      obtain ⟨reply, w, hrun, hsuccess⟩ := hn (n + 1) (Nat.lt_succ_self n)
      exact ⟨n + 1, reply, w, hrun, hsuccess⟩

def brokenSearch : Running Float (Plan Float) Nat Nat :=
  (.fresh (.gravity ⟨⟨0, 2⟩⟩)
    (.listed "Listed" [.ok 5, .error (.malformedFloat "x"), .ok 3, .ok 2])
    (.repeating [.real 0.5]) (.int 1) none, ⟨0, 0, .empty, []⟩)

/-- Whoever goes on after a step that has failed gets further than the run alone, which fails there. -/
theorem driving_disagrees_after_fault :
    ((Search.solve 2).start (Ask.after [.step] brokenSearch)).2.1.progress.stage = .terminated ∧
      ∀ limit, ((Search.solve limit).start brokenSearch).2.1.progress.stage = .searching := by
  have hfails : ¬ Ask.step.Passes brokenSearch := by
    have hstep : (Search.step.start brokenSearch).1.isOk = false := by decide +kernel
    have hstage : (Search.start.start brokenSearch).2.1.progress.stage = .searching := by
      decide +kernel
    rintro (⟨o, ho⟩ | ⟨t, hstart, hover⟩)
    · rw [ho] at hstep
      cases hstep
    · rw [hstart, hover] at hstage
      cases hstage
  refine ⟨by decide +kernel, fun limit => ?_⟩
  cases limit with
  | zero => decide +kernel
  | succ limit =>
    obtain ⟨e, -, hrun⟩ := Ask.solve_of_not_passes hfails
    rw [hrun limit]
    change (Ask.step.run.start brokenSearch).2.1.progress.stage = .searching
    decide +kernel

end Request
end AssignmentSearch
