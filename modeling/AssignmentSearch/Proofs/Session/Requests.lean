import AssignmentSearch.Proofs.Search.Steps
import AssignmentSearch.Session.Service

/-!
# Requests to the session service

Each request by what it does to the registry. Reports, summaries and settings leave it alone; a
request that creates a session registers it before the search begins, a step puts the session back
in its place, and a run releases its session on every path after its creation.
-/

namespace AssignmentSearch

variable {β γ : Type}

/-- An attempt that leaves the registry and the identifiers to come alone. -/
def Quiet (x : Attempt Service β) : Prop := ∀ v, ∃ w, (x.start v).2 = { v with surroundings := w }

namespace Quiet

theorem pure (a : β) : Quiet (Pure.pure a : Attempt Service β) := fun v => ⟨v.surroundings, rfl⟩

theorem lift (x : Except Fault β) : Quiet (Attempt.lift x : Attempt Service β) :=
  fun v => ⟨v.surroundings, rfl⟩

theorem get : Quiet (MonadState.get : Attempt Service Service) := fun v => ⟨v.surroundings, rfl⟩

theorem onSurroundings (x : Attempt (Surroundings Float) β) : Quiet (Service.onSurroundings x) :=
  fun v => ⟨(x.start v.surroundings).2, rfl⟩

theorem bind {x : Attempt Service β} {f : β → Attempt Service γ} (hx : Quiet x)
    (hf : ∀ a, Quiet (f a)) : Quiet (x >>= f) := by
  intro v
  obtain ⟨w, hw⟩ := hx v
  rw [Attempt.start_bind]
  rcases hs : x.start v with ⟨r, t⟩
  rw [hs] at hw
  cases r with
  | error e => exact ⟨w, hw⟩
  | ok a =>
    obtain ⟨w', hw'⟩ := hf a t
    exact ⟨w', by rw [hw', show t = _ from hw]⟩

theorem registry_eq {x : Attempt Service β} (hx : Quiet x) (v : Service) :
    (x.start v).2.registry = v.registry := by
  obtain ⟨w, hw⟩ := hx v
  rw [hw]

end Quiet

/-- An attempt that has not changed the registry when it fails. -/
def Withholds (x : Attempt Service β) : Prop :=
  ∀ v e u, x.start v = (.error e, u) → u.registry = v.registry

theorem Withholds.bind {x : Attempt Service β} {f : β → Attempt Service γ}
    (hx : ∀ v, (x.start v).2.registry = v.registry) (hf : ∀ a, Withholds (f a)) :
    Withholds (x >>= f) := by
  intro v e u h
  have hv := hx v
  rcases Attempt.fault_of_start_bind h with h | ⟨a, t, ha, h⟩
  · rw [h] at hv
    exact hv
  · rw [ha] at hv
    exact (hf a t e u h).trans hv

theorem Placement.exists_fresh_of_build {parsed : Scenario} {cfg : Settings} {source : Source Float}
    {recorder : Option Recorder} {s : PlacementSearch}
    (h : build parsed cfg source recorder = .ok s) :
    ∃ (p : Plan Float) (n : Int), plan parsed cfg = .ok p ∧ 1 ≤ n ∧
      s = .fresh p (landscape parsed.vms parsed.hosts) source (.int n) recorder := by
  obtain ⟨p, hp, h⟩ := exists_of_bind_ok h
  obtain ⟨n, -, hn, hs⟩ := Search.exists_count_of_ofDatum h
  exact ⟨p, n, hp, hn, hs⟩

namespace Service

theorem quiet_search (session : Session) : Quiet (search session) :=
  Quiet.get.bind fun _ => Quiet.pure _

theorem quiet_snapshot (session : Session) : Quiet (snapshot session) :=
  (quiet_search session).bind fun _ => (Quiet.lift _).bind fun _ => Quiet.pure _

theorem quiet_settingsFor (given : Option Settings) : Quiet (settingsFor given) := by
  cases given with
  | none => exact Quiet.get.bind fun _ => Quiet.lift _
  | some cfg => exact Quiet.pure _

theorem start_freshId (v : Service) :
    freshId.start v = (.ok (v.ids (v.issued + 1)), { v with issued := v.issued + 1 }) := rfl

theorem start_log (level : Level) (message : String) (v : Service) :
    (log level message).start v =
      (.ok (), { v with
        surroundings := { v.surroundings with
          journal := ⟨level, part, message⟩ :: v.surroundings.journal } }) := rfl

theorem start_search {v : Service} {session found : Session}
    (h : v.registry.get? session.id = some found) :
    (search session).start v = (.ok found.search, v) := by
  rw [search, Attempt.start_bind_ok (Attempt.start_get v), h]
  rfl

theorem start_snapshot {v : Service} {session found : Session} {fields : List (String × Datum)}
    (h : v.registry.get? session.id = some found) (hfields : found.search.snapshot = .ok fields) :
    (snapshot session).start v = (.ok (.object fields), v) := by
  rw [snapshot, Attempt.start_bind_ok (start_search h), hfields]
  rfl

theorem start_onSearch {v : Service} {session found : Session}
    (h : v.registry.get? session.id = some found)
    (x : Attempt (Running Float (Plan Float) (Vm Int) (Host Int)) β) :
    (onSearch session x).start v =
      ((x.start (found.search, v.surroundings)).1,
        { v with
          registry := v.registry.put
            { session with search := (x.start (found.search, v.surroundings)).2.1 }
          surroundings := (x.start (found.search, v.surroundings)).2.2 }) := by
  rw [onSearch, Attempt.start_of, h]
  rfl

structure Registers (scenario : Datum) (v : Service) (session : Session) (u : Service) : Prop where
  id : session.id = v.ids (v.issued + 1)
  registry : u.registry = v.registry.put session
  built : ∃ parsed cfg source recorder, Scenario.parse scenario = .ok parsed ∧
    session.vms = parsed.vms ∧ session.hosts = parsed.hosts ∧
      Placement.build parsed cfg source recorder = .ok session.search

variable {scenario : Datum} {history : Option Datum} {given : Option Settings}

theorem answer_accept (r : Except Fault Scenario) (u : Surroundings Float) :
    ((Scenario.accept r).start u).1 = r := by
  rw [Scenario.accept]
  generalize Scenario.checkReport r = entries
  induction entries generalizing u with
  | nil => rfl
  | cons e rest ih =>
    have hreport : (Surroundings.report e).start u = (.ok (), { u with journal := e :: u.journal }) :=
      rfl
    simp only [List.forIn_cons, bind_assoc, pure_bind]
    rw [Attempt.start_bind_ok hreport]
    exact ih _

theorem register_ok {v u : Service} {session : Session}
    (h : (register scenario history given).start v = (.ok session, u)) :
    ∃ parsed cfg w recorder source search, Scenario.parse scenario = .ok parsed ∧
      Source.seeded (Placement.seed parsed cfg) (v.entropy (v.issued + 1)) = .ok source ∧
        Placement.build parsed cfg source recorder = .ok search ∧
          session = ⟨v.ids (v.issued + 1), parsed.algorithm.name,
            [("name", Scenario.given .str parsed.name)], parsed.vms, parsed.hosts, search⟩ ∧
            u = { v with
              issued := v.issued + 1
              surroundings := w
              registry := v.registry.put session } := by
  obtain ⟨cfg, v₁, hcfg, h⟩ := Attempt.exists_of_start_bind h
  obtain ⟨w₁, hw₁⟩ := quiet_settingsFor given v
  rw [hcfg] at hw₁
  dsimp only at hw₁
  obtain ⟨parsed, v₂, hparsed, h⟩ := Attempt.exists_of_start_bind h
  rw [onSurroundings, Attempt.start_zoom, Prod.mk.injEq] at hparsed
  obtain ⟨hparsed, rfl⟩ := hparsed
  rw [answer_accept] at hparsed
  rw [Attempt.start_bind_ok (start_freshId _)] at h
  obtain ⟨recorder, -, h⟩ := Attempt.exists_of_start_lift_bind h
  rw [Attempt.start_bind_ok (Attempt.start_get _)] at h
  obtain ⟨source, hsource, h⟩ := Attempt.exists_of_start_lift_bind h
  obtain ⟨search, hsearch, h⟩ := Attempt.exists_of_start_lift_bind h
  rw [Attempt.start_bind_ok (Attempt.start_modify _ _), Attempt.start_pure] at h
  subst hw₁
  cases h
  exact ⟨parsed, cfg, _, recorder, source, search, hparsed, hsource, hsearch, rfl, rfl⟩

theorem registers_of_ok {v u : Service} {session : Session}
    (h : (register scenario history given).start v = (.ok session, u)) :
    Registers scenario v session u := by
  obtain ⟨parsed, cfg, w, recorder, source, search, hparse, -, hsearch, rfl, rfl⟩ := register_ok h
  exact ⟨rfl, rfl, parsed, cfg, source, recorder, hparse, rfl, rfl, hsearch⟩

theorem withholds_register : Withholds (register scenario history given) := by
  refine Withholds.bind (quiet_settingsFor given).registry_eq fun cfg => ?_
  refine Withholds.bind (Quiet.onSurroundings _).registry_eq fun parsed => ?_
  refine Withholds.bind (fun _ => rfl) fun id => ?_
  refine Withholds.bind (Quiet.lift _).registry_eq fun recorder => ?_
  refine Withholds.bind Quiet.get.registry_eq fun v => ?_
  refine Withholds.bind (Quiet.lift _).registry_eq fun source => ?_
  refine Withholds.bind (Quiet.lift _).registry_eq fun search => ?_
  -- The registration itself cannot fail.
  intro v e u h
  cases h

theorem Registers.get? {v u : Service} {session : Session} (h : Registers scenario v session u) :
    u.registry.get? session.id = some session :=
  Registry.get?_of_eq_put h.registry

theorem Registers.notMem {v u : Service} {session : Session} (h : Registers scenario v session u)
    (hfresh : v.ids (v.issued + 1) ∉ v.registry.ids) : session.id ∉ v.registry.ids := by
  rw [h.id]
  exact hfresh

def begun (session : Session) (u : Service) :
    Except Fault Unit × Running Float (Plan Float) (Vm Int) (Host Int) :=
  Search.start.start (session.search, u.surroundings)

/-- A session and what has become of its search. -/
def onceBegun (session : Session) (u : Service) : Session :=
  { session with search := (begun session u).2.1 }

theorem exists_snapshot_of_begun {v u : Service} {session : Session}
    (h : Registers scenario v session u) (hbegun : (begun session u).1 = .ok ()) :
    ∃ fields, (onceBegun session u).search.snapshot = .ok fields := by
  obtain ⟨parsed, cfg, source, recorder, -, -, -, hbuild⟩ := h.built
  obtain ⟨plan, n, -, -, hsearch⟩ := Placement.exists_fresh_of_build hbuild
  have hfresh : session.search.progress = .fresh := by rw [hsearch]; rfl
  obtain ⟨first, source', stop, -, hknown, -, ht⟩ :=
    Search.start_ok (r := (session.search, u.surroundings)) hfresh (Prod.ext hbegun rfl)
  have ht : (onceBegun session u).search = _ := ht
  refine Search.exists_snapshot fun f hf => ?_
  rw [ht, Search.found?_progressOf] at hf
  cases hf
  exact Search.known_firstFound hknown

/-- The service once the search of a session has begun. -/
def afterBegun (session : Session) (u : Service) : Service :=
  { u with
    registry := u.registry.put (onceBegun session u)
    surroundings := (begun session u).2.2 }

theorem Registers.start {v u : Service} {session : Session} (h : Registers scenario v session u) :
    (onSearch session Search.start).start u = ((begun session u).1, afterBegun session u) :=
  start_onSearch h.get? Search.start

theorem Registers.registry_afterBegun {v u : Service} {session : Session}
    (h : Registers scenario v session u) :
    (afterBegun session u).registry = v.registry.put (onceBegun session u) := by
  rw [afterBegun, h.registry]
  exact v.registry.put_put rfl

def greeting (session : Session) (u : Service) : Except Fault Datum := do
  (begun session u).1
  (onceBegun session u).search.tellCurrent

theorem greeting_ok {u : Service} {session : Session} {initial : Datum}
    (h : greeting session u = .ok initial) :
    (begun session u).1 = .ok () ∧ (onceBegun session u).search.tellCurrent = .ok initial := by
  rw [greeting] at h
  cases hbegun : (begun session u).1 with
  | error e =>
    rw [hbegun] at h
    cases h
  | ok _ =>
    rw [hbegun] at h
    exact ⟨rfl, h⟩

/-- The reply to a creation that succeeds: it names the session and gives its first mapping. -/
structure Welcomes (session : Session) (reply : Reply) : Prop where
  success : reply.success = true
  named : reply.fields.lookup "session_id" = some (.str session.id)
  initial : reply.fields.lookup "initial_mapping" = some session.search.currentMapping

theorem begin_of_begun_ok {v u : Service} {session : Session}
    (h : (register scenario history given).start v = (.ok session, u))
    (hbegun : (begun session u).1 = .ok ()) :
    ∃ answer w, (begin scenario history given).start v = (answer, w) ∧
      w.registry = (afterBegun session u).registry ∧
        match (onceBegun session u).search.tellCurrent with
        | .error e => answer = .error e
        | .ok _ => ∃ reply, answer = .ok (session, reply) ∧ Welcomes (onceBegun session u) reply := by
  have hregisters := registers_of_ok h
  have hstart := hregisters.start
  rw [hbegun] at hstart
  obtain ⟨fields, hfields⟩ := exists_snapshot_of_begun hregisters hbegun
  have hget : ∀ w : Surroundings Float,
      ({ afterBegun session u with surroundings := w } : Service).registry.get? session.id =
        some (onceBegun session u) :=
    fun _ => u.registry.get?_put_self (onceBegun session u)
  rw [begin, Attempt.start_bind_ok h, Attempt.start_bind_ok hstart,
    Attempt.start_bind_ok (start_log _ _ _),
    Attempt.start_bind_ok (start_snapshot (hget _) hfields),
    Attempt.start_bind_ok (start_search (hget _))]
  cases htold : (onceBegun session u).search.tellCurrent with
  | error e => exact ⟨_, _, rfl, rfl, rfl⟩
  | ok initial => exact ⟨_, _, rfl, rfl, _, rfl, rfl, rfl, congrArg some (Search.tellCurrent_ok htold)⟩

theorem begin_of_greeting_error {v u : Service} {session : Session} {e : Fault}
    (h : (register scenario history given).start v = (.ok session, u))
    (hgreeting : greeting session u = .error e) :
    ∃ w, (begin scenario history given).start v = (.error e, w) ∧
      w.registry = (afterBegun session u).registry := by
  rw [greeting] at hgreeting
  cases hbegun : (begun session u).1 with
  | error e' =>
    rw [hbegun] at hgreeting
    cases hgreeting
    have hstart := (registers_of_ok h).start
    rw [hbegun] at hstart
    exact ⟨_, by rw [begin, Attempt.start_bind_ok h, Attempt.start_bind_error hstart], rfl⟩
  | ok _ =>
    rw [hbegun] at hgreeting
    obtain ⟨answer, w, hbegin, hregistry, hanswer⟩ := begin_of_begun_ok h hbegun
    rw [show (onceBegun session u).search.tellCurrent = .error e from hgreeting] at hanswer
    exact ⟨w, by rw [hbegin, hanswer], hregistry⟩

theorem begin_of_greeting_ok {v u : Service} {session : Session} {initial : Datum}
    (h : (register scenario history given).start v = (.ok session, u))
    (hgreeting : greeting session u = .ok initial) :
    ∃ reply w, (begin scenario history given).start v = (.ok (session, reply), w) ∧
      Welcomes (onceBegun session u) reply ∧ w.registry = (afterBegun session u).registry := by
  obtain ⟨hbegun, htold⟩ := greeting_ok hgreeting
  obtain ⟨answer, w, hbegin, hregistry, hanswer⟩ := begin_of_begun_ok h hbegun
  rw [htold] at hanswer
  obtain ⟨reply, rfl, hwelcomes⟩ := hanswer
  exact ⟨reply, w, hbegin, hwelcomes, hregistry⟩

theorem create_of_begin_error {v u : Service} {e : Fault}
    (h : (begin scenario history given).start v = (.error e, u)) :
    ∃ reply w, (create scenario history given).start v = (.ok (none, reply), w) ∧
      reply.success = false ∧ w.registry = u.registry := by
  rw [create, Attempt.start_bind_ok (Attempt.start_outcome _ v), h]
  dsimp only
  rw [Attempt.start_bind_ok (start_log _ _ _)]
  exact ⟨_, _, rfl, rfl, rfl⟩

theorem create_of_begin_ok {v u : Service} {session : Session} {reply : Reply}
    (h : (begin scenario history given).start v = (.ok (session, reply), u)) :
    (create scenario history given).start v = (.ok (some session, reply), u) := by
  rw [create, Attempt.start_bind_ok (Attempt.start_outcome _ v), h]
  rfl

/-- The session that a creation leaves behind: it was registered, but its search cannot begin or its
first mapping cannot be told. -/
def stranded (scenario : Datum) (history : Option Datum) (given : Option Settings) (v : Service) :
    Option Session :=
  match (register scenario history given).start v with
  | (.ok session, u) =>
    match greeting session u with
    | .error _ => some (onceBegun session u)
    | .ok _ => none
  | (.error _, _) => none

/-- The three ways in which a creation goes: nothing is registered, the session is registered and left
behind, or the registered session is answered. -/
inductive Creation (scenario : Datum) (history : Option Datum) (given : Option Settings)
    (v : Service) : Option Session → Reply → Service → Prop
  | refused {reply : Reply} {w : Service} (failed : reply.success = false)
      (left : stranded scenario history given v = none) (registry : w.registry = v.registry) :
      Creation scenario history given v none reply w
  | stranded {session : Session} {u w : Service} {reply : Reply}
      (registers : Registers scenario v session u) (failed : reply.success = false)
      (left : stranded scenario history given v = some (onceBegun session u))
      (registry : w.registry = v.registry.put (onceBegun session u)) :
      Creation scenario history given v none reply w
  | opened {session : Session} {u w : Service} {initial : Datum} {reply : Reply}
      (registers : Registers scenario v session u) (greeted : greeting session u = .ok initial)
      (welcomes : Welcomes (onceBegun session u) reply)
      (left : stranded scenario history given v = none)
      (registry : w.registry = v.registry.put (onceBegun session u)) :
      Creation scenario history given v (some session) reply w

theorem creation (scenario : Datum) (history : Option Datum) (given : Option Settings)
    (v : Service) :
    ∃ answer reply w, (create scenario history given).start v = (.ok (answer, reply), w) ∧
      Creation scenario history given v answer reply w := by
  rcases hregister : (register scenario history given).start v with ⟨r, u⟩
  cases r with
  | error e =>
    have hbegin : (begin scenario history given).start v = (.error e, u) := by
      rw [begin, Attempt.start_bind_error hregister]
    have hleft : stranded scenario history given v = none := by rw [stranded, hregister]
    obtain ⟨reply, w, hcreate, hfailed, hregistry⟩ := create_of_begin_error hbegin
    exact ⟨none, reply, w, hcreate,
      .refused hfailed hleft (hregistry.trans (withholds_register v e u hregister))⟩
  | ok session =>
    have hregisters := registers_of_ok hregister
    cases hgreeting : greeting session u with
    | error e =>
      have hleft : stranded scenario history given v = some (onceBegun session u) := by
        simp only [stranded, hregister, hgreeting]
      obtain ⟨t, hbegin, hbegun⟩ := begin_of_greeting_error hregister hgreeting
      obtain ⟨reply, w, hcreate, hfailed, hregistry⟩ := create_of_begin_error hbegin
      exact ⟨none, reply, w, hcreate, .stranded hregisters hfailed hleft
        (hregistry.trans (hbegun.trans hregisters.registry_afterBegun))⟩
    | ok initial =>
      have hleft : stranded scenario history given v = none := by
        simp only [stranded, hregister, hgreeting]
      obtain ⟨reply, w, hbegin, hwelcomes, hregistry⟩ := begin_of_greeting_ok hregister hgreeting
      exact ⟨some session, reply, w, create_of_begin_ok hbegin, .opened hregisters hgreeting
        hwelcomes hleft (hregistry.trans hregisters.registry_afterBegun)⟩

theorem failed_of_creation {v w : Service} {reply : Reply}
    (h : Creation scenario history given v none reply w) : reply.success = false := by
  cases h with
  | refused failed => exact failed
  | stranded registers failed => exact failed

theorem start_release (id : String) (v : Service) :
    (release id).start v = (.ok (), { v with registry := v.registry.remove id }) := rfl

/-- A session that is run to its end is released, whether its search comes to an end or fails. A run
that succeeds replies with the best placement and the first one. -/
theorem finish_spec (limit : Nat) {v : Service} {session found : Session} (created : Reply)
    (h : v.registry.get? session.id = some found) :
    ((finish limit session created).start v).2.registry = v.registry.remove session.id ∧
      ∀ reply, ((finish limit session created).start v).1 = .ok (some reply) →
        reply.success = true →
          ∃ best, ((Search.solve limit).start (found.search, v.surroundings)).1 = .ok (some best) ∧
            reply.fields.lookup "best_mapping" = some (.dict (Search.mappingEntries best.mapping)) ∧
            reply.fields.lookup "initial_mapping" =
              some ((created.fields.lookup "initial_mapping").getD .null) := by
  have hput : ∀ s, (v.registry.put { session with search := s }).remove session.id =
      v.registry.remove session.id :=
    fun s => v.registry.remove_put { session with search := s }
  have hget : ∀ s w, ({ v with
      registry := v.registry.put { session with search := s }
      surroundings := w } : Service).registry.get? session.id = some { session with search := s } :=
    fun s _ => v.registry.get?_put_self { session with search := s }
  rw [finish, Attempt.start_bind_ok (Attempt.start_outcome _ v), start_onSearch h,
    Attempt.start_bind_ok (start_search (hget _ _))]
  cases ((Search.solve limit).start (found.search, v.surroundings)).1 with
  | error e =>
    dsimp only
    rw [Attempt.start_bind_ok (start_log _ _ _), Attempt.start_bind_ok (start_release _ _)]
    refine ⟨hput _, fun reply hreply hsuccess => ?_⟩
    cases hreply
    cases hsuccess
  | ok best =>
    cases best with
    | none =>
      dsimp only
      rw [Attempt.start_bind_ok (start_release _ _)]
      exact ⟨hput _, fun reply hreply => (nomatch hreply)⟩
    | some best =>
      dsimp only
      rw [Attempt.start_bind_ok (start_release _ _)]
      constructor
      · refine Eq.trans (Quiet.registry_eq ?_ _) (hput _)
        exact (Quiet.lift _).bind fun _ => (Quiet.lift _).bind fun _ =>
          (Quiet.lift _).bind fun _ => Quiet.pure _
      · intro reply hreply hsuccess
        obtain ⟨cost, -, hreply⟩ := Attempt.exists_of_start_lift_bind (Prod.ext hreply rfl)
        obtain ⟨mapping, htold, hreply⟩ := Attempt.exists_of_start_lift_bind hreply
        obtain ⟨state, -, hreply⟩ := Attempt.exists_of_start_lift_bind hreply
        rw [Attempt.start_pure, Prod.mk.injEq] at hreply
        obtain ⟨hreply, -⟩ := hreply
        cases hreply
        exact ⟨best, rfl, congrArg some (Search.tell_ok htold).2, rfl⟩

theorem registry_step (id : String) (v : Service) :
    ((step id).start v).2.registry = v.registry ∨
      ∃ session stepped : Session, v.registry.get? id = some session ∧ stepped.id = session.id ∧
        stepped.search = (Search.step.start (session.search, v.surroundings)).2.1 ∧
          ((step id).start v).2.registry = v.registry.put stepped := by
  rw [step, Attempt.start_bind_ok (Attempt.start_get v)]
  cases hget : v.registry.get? id with
  | none => exact Or.inl rfl
  | some session =>
    dsimp only
    by_cases hover : session.search.progress.stage = .terminated
    · rw [if_pos hover]
      refine Or.inl (Quiet.registry_eq ?_ v)
      exact (quiet_snapshot session).bind fun _ => Quiet.pure _
    · rw [if_neg hover]
      have hself : v.registry.get? session.id = some session := by
        rw [Registry.id_of_get? hget, hget]
      refine Or.inr ⟨session, { session with
        search := (Search.step.start (session.search, v.surroundings)).2.1 }, rfl, rfl, rfl, ?_⟩
      rw [Attempt.start_bind_ok (Attempt.start_outcome _ v), start_onSearch hself]
      cases (Search.step.start (session.search, v.surroundings)).1 with
      | error e => rfl
      | ok o => exact Quiet.registry_eq ((quiet_snapshot session).bind fun _ => Quiet.pure _) _

theorem quiet_inspect (id : String) : Quiet (inspect id) := by
  refine Quiet.get.bind fun v => ?_
  cases v.registry.get? id with
  | none => exact Quiet.pure _
  | some session =>
    exact (quiet_snapshot session).bind fun _ => (Quiet.lift _).bind fun _ => Quiet.pure _

theorem inspect_ok {id : String} {v : Service} {session : Session}
    {fields : List (String × Datum)} (h : v.registry.get? id = some session)
    (hfields : session.search.snapshot = .ok fields) {best : Datum}
    (hbest : session.search.tellBest = .ok best) :
    ∃ reply, (inspect id).start v = (.ok reply, v) ∧ reply.success = true ∧
      reply.fields.lookup "best_mapping" = some best := by
  have hself : v.registry.get? session.id = some session := by rw [Registry.id_of_get? h, h]
  rw [inspect, Attempt.start_bind_ok (Attempt.start_get v), h]
  dsimp only
  rw [Attempt.start_bind_ok (start_snapshot hself hfields), hbest]
  exact ⟨_, rfl, rfl, rfl⟩

theorem start_close (id : String) (v : Service) :
    (close id).start v =
      if id ∈ v.registry.ids then
        (.ok ⟨true, [("session_id", .str id)]⟩, { v with registry := v.registry.remove id })
      else (.ok (unknown id), v) := by
  rw [close, Attempt.start_bind_ok (Attempt.start_get v)]
  cases hget : v.registry.get? id with
  | none =>
    rw [if_neg (Registry.get?_eq_none_iff.mp hget)]
    rfl
  | some session =>
    rw [if_pos (Registry.mem_ids_of_get? hget)]
    rfl

end Service

def Reply.named (r : Reply) : Option String :=
  match r.fields.lookup "session_id" with
  | some (.str id) => some id
  | _ => none

inductive Request where
  | create (scenario : Datum) (history : Option Datum) (given : Option Settings)
  | step (id : String)
  | inspect (id : String)
  | run (limit : Nat) (scenario : Datum) (history : Option Datum) (given : Option Settings)
  | close (id : String)

namespace Request

def answer : Request → Attempt Service (Option Reply)
  | create scenario history given => (fun r => some r.2) <$> Service.create scenario history given
  | step id => some <$> Service.step id
  | inspect id => some <$> Service.inspect id
  | run limit scenario history given => Service.run limit scenario history given
  | close id => some <$> Service.close id

/-- Where a sequence of calls leads, whatever they answer. -/
def after : List Request → Service → Service
  | [], v => v
  | q :: rest, v => after rest (q.answer.start v).2

/-- The calls that hand out an identifier. -/
def handsOut : Request → Bool
  | create .. | run .. => true
  | step _ | inspect _ | close _ => false

/-- Each identifier that is handed out is not in use. -/
def AreFresh : List Request → Service → Prop
  | [], _ => True
  | q :: rest, v =>
    (q.handsOut = true → v.ids (v.issued + 1) ∉ v.registry.ids) ∧ AreFresh rest (q.answer.start v).2

/-- No call closes an identifier or hands it out again. -/
def Spares (id : String) : List Request → Service → Prop
  | [], _ => True
  | q :: rest, v =>
    q ≠ close id ∧ (q.handsOut = true → v.ids (v.issued + 1) ≠ id) ∧
      Spares id rest (q.answer.start v).2

theorem areFresh_append {earlier later : List Request} {v : Service} :
    AreFresh (earlier ++ later) v ↔ AreFresh earlier v ∧ AreFresh later (after earlier v) := by
  induction earlier generalizing v with
  | nil => exact ⟨fun h => ⟨trivial, h⟩, And.right⟩
  | cons q rest ih =>
    rw [List.cons_append, AreFresh, ih, AreFresh, and_assoc]
    rfl

theorem start_create {scenario : Datum} {history : Option Datum} {given : Option Settings}
    {v w : Service} {session : Option Session} {reply : Reply}
    (h : (Service.create scenario history given).start v = (.ok (session, reply), w)) :
    (create scenario history given).answer.start v = (.ok (some reply), w) := by
  rw [answer, Attempt.start_map, h]
  rfl

theorem start_run_none {limit : Nat} {scenario : Datum} {history : Option Datum}
    {given : Option Settings} {v w : Service} {reply : Reply}
    (h : (Service.create scenario history given).start v = (.ok (none, reply), w)) :
    (run limit scenario history given).answer.start v = (.ok (some reply), w) := by
  rw [answer, Service.run, Attempt.start_bind_ok h]
  rfl

theorem start_run_some {limit : Nat} {scenario : Datum} {history : Option Datum}
    {given : Option Settings} {v w : Service} {session : Session} {reply : Reply}
    (h : (Service.create scenario history given).start v = (.ok (some session, reply), w)) :
    (run limit scenario history given).answer.start v =
      (Service.finish limit session reply).start w := by
  rw [answer, Service.run, Attempt.start_bind_ok h]

/-- A run is a creation, and the session that it opens is released. -/
theorem creation_of_run (limit : Nat) (scenario : Datum) (history : Option Datum)
    (given : Option Settings) (v : Service) :
    ∃ session reply w, Service.Creation scenario history given v session reply w ∧
      ((run limit scenario history given).answer.start v).2.registry =
        match session with
        | none => w.registry
        | some session => w.registry.remove session.id := by
  obtain ⟨session, reply, w, hcreate, hcreation⟩ := Service.creation scenario history given v
  refine ⟨session, reply, w, hcreation, ?_⟩
  cases hcreation with
  | refused => rw [start_run_none hcreate]
  | stranded => rw [start_run_none hcreate]
  | @opened session u _ _ _ registers greeted welcomes left registry =>
    have hget : w.registry.get? session.id = some (Service.onceBegun session u) :=
      Registry.get?_of_eq_put registry
    rw [start_run_some hcreate, (Service.finish_spec limit reply hget).1]

theorem registry_inspect (id : String) (v : Service) :
    ((inspect id).answer.start v).2.registry = v.registry := by
  rw [answer, Attempt.start_map]
  exact (Service.quiet_inspect id).registry_eq v

theorem registry_step (id : String) (v : Service) :
    ((step id).answer.start v).2.registry = v.registry ∨
      ∃ session stepped : Session, v.registry.get? id = some session ∧ stepped.id = session.id ∧
        stepped.search = (Search.step.start (session.search, v.surroundings)).2.1 ∧
          ((step id).answer.start v).2.registry = v.registry.put stepped := by
  rw [answer, Attempt.start_map]
  exact Service.registry_step id v

theorem start_close (id : String) (v : Service) :
    (close id).answer.start v =
      if id ∈ v.registry.ids then
        (.ok (some ⟨true, [("session_id", .str id)]⟩), { v with registry := v.registry.remove id })
      else (.ok (some (Service.unknown id)), v) := by
  rw [answer, Attempt.start_map, Service.start_close]
  split <;> rfl

/-- A call that is about a session: it names the session's identifier, or its own session is to get
that one. -/
def Concerns (id : String) (v : Service) : Request → Prop
  | create .. | run .. => v.ids (v.issued + 1) = id
  | step other | inspect other | close other => other = id

instance (id : String) (v : Service) : DecidablePred (Concerns id v)
  | create .. | run .. => inferInstanceAs (Decidable (v.ids (v.issued + 1) = id))
  | step other | inspect other | close other => inferInstanceAs (Decidable (other = id))

theorem get?_of_creation {scenario : Datum} {history : Option Datum} {given : Option Settings}
    {v w : Service} {session : Option Session} {reply : Reply} {id : String}
    (h : Service.Creation scenario history given v session reply w)
    (hne : v.ids (v.issued + 1) ≠ id) : w.registry.get? id = v.registry.get? id := by
  have hput : ∀ {session u}, Service.Registers scenario v session u →
      (v.registry.put (Service.onceBegun session u)).get? id = v.registry.get? id := by
    intro session u hregisters
    apply Registry.get?_put_of_ne
    have hid : (Service.onceBegun session u).id = v.ids (v.issued + 1) := hregisters.id
    rw [hid]
    exact hne.symm
  cases h with
  | refused failed left registry => rw [registry]
  | stranded registers failed left registry => rw [registry, hput registers]
  | opened registers greeted welcomes left registry => rw [registry, hput registers]

theorem get?_answer_of_not_concerns {id : String} {q : Request} {v : Service}
    (h : ¬ q.Concerns id v) :
    (q.answer.start v).2.registry.get? id = v.registry.get? id := by
  cases q with
  | create scenario history given =>
    obtain ⟨session, reply, w, hcreate, hcreation⟩ := Service.creation scenario history given v
    rw [start_create hcreate]
    exact get?_of_creation hcreation h
  | run limit scenario history given =>
    obtain ⟨session, reply, w, hcreation, hregistry⟩ :=
      creation_of_run limit scenario history given v
    have hsame := get?_of_creation hcreation h
    rw [hregistry]
    cases hcreation with
    | refused => exact hsame
    | stranded => exact hsame
    | @opened session _ _ _ _ registers =>
      have hne : id ≠ session.id := fun heq => h (registers.id.symm.trans heq.symm)
      exact (Registry.get?_remove_of_ne _ hne).trans hsame
  | inspect other => rw [registry_inspect]
  | step other =>
    rcases registry_step other v with hsame | ⟨found, stepped, hfound, hid, -, hput⟩
    · rw [hsame]
    · rw [Registry.id_of_get? hfound] at hid
      rw [hput]
      exact Registry.get?_put_of_ne _ _ fun heq => h (hid.symm.trans heq.symm)
  | close other =>
    rw [start_close]
    split
    · exact Registry.get?_remove_of_ne _ fun heq => h heq.symm
    · rfl

end Request
end AssignmentSearch
