import AssignmentSearch.Proofs.Placement.Plans
import AssignmentSearch.Proofs.Random.Positions
import AssignmentSearch.Proofs.Search.Endings
import AssignmentSearch.Proofs.Search.Over
import AssignmentSearch.Proofs.Session.Conservation
import AssignmentSearch.Proofs.Session.Placements

/-!
# Which calls are answered

A search that has been answered once has costs and placements that can be told, whatever comes of it.
So the service replies to every call, but for one: to inspect a session that a failed creation has
left behind. A run is answered if its schedule comes to an end.
-/

namespace AssignmentSearch

theorem Kept.any {α σ τ ρ : Type} [Quantity α] [Strategy α σ]
    [Acceptance α σ (Solution α τ ρ)] {ι : Type}
    {P : ι → Search α σ τ ρ → Prop} (h : ∀ i, Kept fun (_ : List (Event α τ ρ)) s => P i s) :
    Kept fun (_ : List (Event α τ ρ)) (s : Search α σ τ ρ) => ∃ i, P i s where
  fault := fun ⟨i, hi⟩ hfresh he => ⟨i, (h i).fault (l := []) hi hfresh he⟩
  begin := fun ⟨i, hi⟩ hfresh hfirst => ⟨i, (h i).begin (l := []) hi hfresh hfirst⟩
  trial b := fun ⟨i, hi⟩ => ⟨i, (h i).trial (l := []) b hi⟩
  count := fun ⟨i, hi⟩ => ⟨i, (h i).count (l := []) hi⟩
  age := fun ⟨i, hi⟩ ha => ⟨i, (h i).age (l := []) hi ha⟩
  told _ _ h _ := h
  finish := fun ⟨i, hi⟩ => ⟨i, (h i).finish (l := []) hi⟩
  time x := fun ⟨i, hi⟩ => ⟨i, (h i).time (l := []) x hi⟩

namespace Placement

/-- A search whose state and placements can be told, now and after whatever is asked of it. -/
def Tellable (s : PlacementSearch) : Prop :=
  ∃ (vms : { vms : List (Vm Int) // vms.Nodup }) (hosts : List (Host Int))
    (first : Solution Float (Vm Int) (Host Int)), Stands vms hosts first s

theorem kept_tellable : Kept fun (_ : List (Event Float (Vm Int) (Host Int))) s => Tellable s :=
  Kept.any fun vms => Kept.any fun _ => Kept.any fun _ => kept_stands vms.2

def inspected (s : PlacementSearch) : Except Fault (List (String × Datum) × Datum) := do
  return (← s.snapshot, ← s.tellBest)

theorem Tellable.inspected {s : PlacementSearch} (h : Tellable s) :
    ∃ told, inspected s = .ok told := by
  obtain ⟨vms, hosts, first, hstands⟩ := h
  obtain ⟨fields, hfields⟩ := hstands.exists_snapshot
  rw [Placement.inspected, hfields, hstands.tellBest]
  exact ⟨_, rfl⟩

theorem Tellable.solved {s : PlacementSearch} (h : Tellable s) {limit : Nat}
    {w w' : Surroundings Float} {t : PlacementSearch} {best : Solution Float (Vm Int) (Host Int)}
    (hsolve : (Search.solve limit).start (s, w) = (.ok (some best), (t, w'))) :
    (∃ c, best.costValue = .ok c) ∧ t.tell best.mapping = .ok t.bestMapping ∧
      ∃ fields, t.snapshot = .ok fields := by
  have hend := kept_tellable.solve limit (l := []) (r := (s, w)) h
  rw [hsolve] at hend
  obtain ⟨vms, hosts, first, hstands⟩ := hend
  obtain ⟨f, hf, hbest⟩ := Search.solve_ok hsolve
  obtain ⟨g, hg, hknown⟩ := hstands.begun
  have htold := hstands.tellBest
  rw [hf] at hg
  cases hg
  rw [Search.tellBest, hf] at htold
  dsimp only at htold
  rw [← hbest] at htold
  exact ⟨by rw [hbest]; exact hknown.best, htold, hstands.exists_snapshot⟩

end Placement

namespace Service

open Placement

variable {scenario : Datum} {history : Option Datum} {given : Option Settings} {u v w : Service}

theorem inspect_of_get? {id : String} {session : Session} (h : v.registry.get? id = some session) :
    ((inspect id).start v).1 = (inspected session.search).map fun told =>
      ⟨true, [("session_id", .str session.id), ("algo", .str session.algorithm),
        ("state", .object told.1), ("best_mapping", told.2)]⟩ := by
  have hself : v.registry.get? session.id = some session := by rw [Registry.id_of_get? h, h]
  rw [inspect, Attempt.start_bind_ok (Attempt.start_get v), h]
  dsimp only
  rw [snapshot, inspected, Attempt.start_bind, Attempt.start_bind_ok (start_search hself),
    Attempt.start_bind, Attempt.start_lift]
  cases session.search.snapshot with
  | error e => rfl
  | ok fields => cases session.search.tellBest <;> rfl

theorem Registers.tellable {session : Session} (h : Registers scenario v session u)
    {initial : Datum} (hgreeting : greeting session u = .ok initial) :
    Tellable (onceBegun session u).search := by
  obtain ⟨parsed, cfg, source, recorder, hparse, -, -, -⟩ := h.built
  obtain ⟨first, hstands, -⟩ := h.stands hparse hgreeting
  exact ⟨⟨parsed.vms, (Scenario.nodup_of_parse hparse).of_map⟩, parsed.hosts, first, hstands⟩

theorem Registers.sound {session : Session} (h : Registers scenario v session u) :
    (onceBegun session u).search.Sound := by
  obtain ⟨parsed, cfg, source, recorder, -, -, -, hbuild⟩ := h.built
  obtain ⟨hfresh, -⟩ := settled_of_build hbuild
  have hsound : session.search.Sound := by
    intro f hf
    rw [hfresh] at hf
    cases hf
  exact hsound.start (r := (session.search, u.surroundings))

/-- Finishing a run is answered, unless its limit comes first; and it succeeds with a solution. -/
theorem finish_answered (limit : Nat) {session found : Session} (created : Reply)
    (h : v.registry.get? session.id = some found) (htold : Tellable found.search) :
    ∃ answer w, (finish limit session created).start v = (.ok answer, w) ∧
      (answer = none →
        ((Search.solve limit).start (found.search, v.surroundings)).1 = .ok none) ∧
      ∀ best, ((Search.solve limit).start (found.search, v.surroundings)).1 = .ok (some best) →
        ∃ reply, answer = some reply ∧ reply.success = true := by
  rw [finish, Attempt.start_bind_ok (Attempt.start_outcome _ v), start_onSearch h]
  rcases hsolve : (Search.solve limit).start (found.search, v.surroundings) with ⟨a, t, u⟩
  dsimp only
  rw [Attempt.start_bind_ok (start_search (v.registry.get?_put_self { session with search := t }))]
  cases a with
  | error e =>
    refine ⟨_, _, rfl, ?_, ?_⟩
    · intro hanswer
      cases hanswer
    · intro best hbest
      cases hbest
  | ok best =>
    cases best with
    | none =>
      refine ⟨none, _, rfl, fun _ => rfl, ?_⟩
      intro best hbest
      cases hbest
    | some best =>
      obtain ⟨⟨cost, hcost⟩, htell, fields, hfields⟩ := htold.solved hsolve
      dsimp only
      rw [Attempt.start_bind_ok (start_release _ _), hcost,
        Attempt.start_bind_ok (Attempt.start_lift _ _), htell,
        Attempt.start_bind_ok (Attempt.start_lift _ _), hfields,
        Attempt.start_bind_ok (Attempt.start_lift _ _)]
      refine ⟨_, _, rfl, ?_, fun _ _ => ⟨_, rfl, rfl⟩⟩
      intro hanswer
      cases hanswer

theorem inUnit_of_register {session : Session}
    (h : (register scenario history given).start v = (.ok session, u)) :
    session.search.source.InUnit := by
  obtain ⟨parsed, cfg, w, recorder, source, search, -, hsource, hsearch, heq, -⟩ := register_ok h
  obtain ⟨plan, n, -, -, hfresh⟩ := exists_fresh_of_build hsearch
  rw [heq, hfresh]
  exact Source.inUnit_of_seeded hsource

theorem inspected_of_costless {parsed : Scenario} {vm : Vm Int} {host : Host Int}
    (hparse : Scenario.parse scenario = .ok parsed) (hvms : parsed.vms = [vm])
    (hhosts : parsed.hosts = [host])
    (hcost : (nothing.bind vm host : Solution Float (Vm Int) (Host Int)).costValue.isOk = false)
    (hregister : ((register scenario history given).start v).1.isOk = true) :
    ∃ session, session.id = v.ids (v.issued + 1) ∧
      stranded scenario history given v = some session ∧
        ∃ e, inspected session.search = .error e := by
  rcases hx : (register scenario history given).start v with ⟨r, u⟩
  rw [hx] at hregister
  cases r with
  | error e => cases hregister
  | ok session =>
    have hregisters := registers_of_ok hx
    obtain ⟨parsed', cfg, source, recorder, hparse', -, -, hbuild⟩ := hregisters.built
    rw [hparse] at hparse'
    cases hparse'
    obtain ⟨plan, n, -, -, hsearch⟩ := exists_fresh_of_build hbuild
    rw [hvms, hhosts] at hsearch
    have hdraws : Draws 1 (fun _ => True) (initial [vm] [host] none) := draws_initial (by simp)
    obtain ⟨first, t, hinitial, -⟩ := hdraws session.search.source (inUnit_of_register hx)
    have hfirst := first_of_single hinitial
    cases hc : first.costValue with
    | ok c =>
      rw [← hfirst, hc] at hcost
      cases hcost
    | error e =>
      have hfresh : session.search.progress = .fresh := by rw [hsearch]; rfl
      have hlandscape : (session.search.landscape.initial session.search.kept).start
          session.search.source = (.ok first, t) := by
        rw [← hinitial, hsearch]
        rfl
      obtain ⟨w, -, hstart⟩ := Search.start_of_fresh hfresh u.surroundings
      rw [Search.begin_of_ok hlandscape, hc] at hstart
      have hbegun : begun session u = _ := hstart
      refine ⟨onceBegun session u, hregisters.id, ?_, e, ?_⟩
      · simp only [stranded, hx, greeting, hbegun]
        rfl
      · have hevaluated : first.evaluated.costValue = .error e := by
          rw [Solution.costValue_evaluated, hc]
        rw [inspected, onceBegun, hbegun, Search.snapshot, Search.currentCost?]
        simp only [Except.map, Progress.found?, hevaluated]
        rfl

theorem algorithm_of_begin {session : Session} {reply : Reply}
    (h : (begin scenario history given).start v = (.ok (session, reply), w)) :
    reply.fields.lookup "algo" = some (.str session.algorithm) := by
  obtain ⟨registered, v₁, -, h⟩ := Attempt.exists_of_start_bind h
  obtain ⟨_, v₂, -, h⟩ := Attempt.exists_of_start_bind h
  obtain ⟨_, v₃, -, h⟩ := Attempt.exists_of_start_bind h
  obtain ⟨state, v₄, -, h⟩ := Attempt.exists_of_start_bind h
  obtain ⟨search, v₅, -, h⟩ := Attempt.exists_of_start_bind h
  obtain ⟨initial, -, h⟩ := Attempt.exists_of_start_lift_bind h
  cases h
  rfl

structure Opens (scenario : Datum) (history : Option Datum) (given : Option Settings)
    (v : Service) (session : Session) (u : Service) (created : Reply) (w : Service) : Prop where
  register : (register scenario history given).start v = (.ok session, u)
  greeted : ∃ initial, greeting session u = .ok initial
  create : (create scenario history given).start v = (.ok (some session, created), w)
  welcomes : Welcomes (onceBegun session u) created
  algorithm : created.fields.lookup "algo" = some (.str session.algorithm)
  registry : w.registry = u.registry.put (onceBegun session u)

theorem opens_of_greeting {session : Session} {initial : Datum}
    (hregister : (register scenario history given).start v = (.ok session, u))
    (hgreeting : greeting session u = .ok initial) :
    ∃ created w, Opens scenario history given v session u created w := by
  obtain ⟨reply, w, hbegin, hwelcomes, hregistry⟩ := begin_of_greeting_ok hregister hgreeting
  exact ⟨reply, w, hregister, ⟨initial, hgreeting⟩, create_of_begin_ok hbegin, hwelcomes,
    algorithm_of_begin hbegin, hregistry⟩

theorem exists_created (scenario : Datum) (history : Option Datum) (given : Option Settings)
    (v : Service) :
    (∃ reply w, (create scenario history given).start v = (.ok (none, reply), w) ∧
        reply.success = false) ∨
      ∃ session u created w, Opens scenario history given v session u created w := by
  rcases hregister : (register scenario history given).start v with ⟨r, u⟩
  cases r with
  | error e =>
    have hbegin : (begin scenario history given).start v = (.error e, u) := by
      rw [begin, Attempt.start_bind_error hregister]
    obtain ⟨reply, w, hcreate, hfailed, -⟩ := create_of_begin_error hbegin
    exact Or.inl ⟨reply, w, hcreate, hfailed⟩
  | ok session =>
    cases hgreeting : greeting session u with
    | error e =>
      obtain ⟨t, hbegin, -⟩ := begin_of_greeting_error hregister hgreeting
      obtain ⟨reply, w, hcreate, hfailed, -⟩ := create_of_begin_error hbegin
      exact Or.inl ⟨reply, w, hcreate, hfailed⟩
    | ok initial =>
      obtain ⟨created, w, hopens⟩ := opens_of_greeting hregister hgreeting
      exact Or.inr ⟨session, u, created, w, hopens⟩

section
variable {session : Session} {created : Reply}

theorem Opens.get? (h : Opens scenario history given v session u created w) :
    w.registry.get? session.id = some (onceBegun session u) := by
  rw [h.registry]
  exact u.registry.get?_put_self (onceBegun session u)

theorem Opens.tellable (h : Opens scenario history given v session u created w) :
    Tellable (onceBegun session u).search := by
  obtain ⟨initial, hgreeting⟩ := h.greeted
  exact (registers_of_ok h.register).tellable hgreeting

theorem Opens.begun (h : Opens scenario history given v session u created w) :
    (begun session u).1 = .ok () := by
  obtain ⟨initial, hgreeting⟩ := h.greeted
  exact (greeting_ok hgreeting).1

theorem Opens.scheduled (h : Opens scenario history given v session u created w) :
    ∃ stop, Scheduled session.search.strategy stop := by
  obtain ⟨parsed, cfg, source, recorder, -, -, -, hbuild⟩ := (registers_of_ok h.register).built
  exact scheduled_of_build hbuild

end

theorem step_answered (id : String)
    (h : ∀ session, v.registry.get? id = some session → session.search.Sound) :
    ∃ reply w, (step id).start v = (.ok reply, w) := by
  rw [step, Attempt.start_bind_ok (Attempt.start_get v)]
  cases hget : v.registry.get? id with
  | none => exact ⟨_, _, rfl⟩
  | some session =>
    dsimp only
    have hself : v.registry.get? session.id = some session := by
      rw [Registry.id_of_get? hget, hget]
    by_cases hover : session.search.progress.stage = .terminated
    · obtain ⟨f, hf⟩ := Progress.finished_of_stage hover
      have hsound := h session hget
      obtain ⟨fields, hfields⟩ := Search.exists_snapshot (s := session.search) fun g hg => by
        rw [hf] at hg
        cases hg
        exact hsound f hf
      rw [if_pos hover, Attempt.start_bind_ok (start_snapshot hself hfields)]
      exact ⟨_, _, rfl⟩
    · rw [if_neg hover, Attempt.start_bind_ok (Attempt.start_outcome _ v), start_onSearch hself]
      rcases hstep : Search.step.start (session.search, v.surroundings) with ⟨a, t, u⟩
      cases a with
      | error e => exact ⟨_, _, rfl⟩
      | ok o =>
        obtain ⟨fields, hfields⟩ := Search.exists_snapshot (s := t) fun g hg =>
          Search.known_of_step_ok hstep hg
        dsimp only
        rw [Attempt.start_bind_ok (start_snapshot
          (v.registry.get?_put_self { session with search := t }) hfields)]
        exact ⟨_, _, rfl⟩

end Service

namespace Request

open Placement

variable {scenario : Datum} {history : Option Datum} {given : Option Settings} {v : Service}

/-- All registered searches have a property. -/
def Everywhere (P : PlacementSearch → Prop) (v : Service) : Prop :=
  ∀ id session, v.registry.get? id = some session → P session.search

variable {P : PlacementSearch → Prop}

theorem Everywhere.put {w : Service} {session : Session} (h : Everywhere P v)
    (hw : w.registry = v.registry.put session) (hsession : P session.search) :
    Everywhere P w := by
  intro id found hget
  rw [hw] at hget
  by_cases hid : id = session.id
  · rw [hid, Registry.get?_put_self, Option.some_inj] at hget
    exact hget ▸ hsession
  · rw [Registry.get?_put_of_ne _ _ hid] at hget
    exact h id found hget

theorem Everywhere.remove {w : Service} {other : String} (h : Everywhere P v)
    (hw : w.registry = v.registry.remove other) : Everywhere P w := by
  intro id found hget
  rw [hw] at hget
  by_cases hid : id = other
  · rw [hid, Registry.get?_remove_self] at hget
    cases hget
  · rw [Registry.get?_remove_of_ne _ hid] at hget
    exact h id found hget

theorem Everywhere.of_registry {w : Service} (h : Everywhere P v) (hw : w.registry = v.registry) :
    Everywhere P w := by
  intro id found hget
  rw [hw] at hget
  exact h id found hget

/-- What steps keep and what holds of every search that a creation registers, holds of all. -/
theorem Everywhere.answer
    (hstep : ∀ (s : PlacementSearch) (w : Surroundings Float),
      P s → P (Search.step.start (s, w)).2.1) {q : Request}
    (hbegun : ∀ scenario session u, Service.Registers scenario v session u →
      (q.stranded v = none → ∃ initial, Service.greeting session u = .ok initial) →
        P (Service.onceBegun session u).search)
    (h : Everywhere P v) : Everywhere P (q.answer.start v).2 := by
  -- A run registers its session as a creation does, and may leave it behind as well.
  have hcreate : ∀ {scenario history given answer reply w},
      Service.Creation scenario history given v answer reply w →
        q.stranded v = Service.stranded scenario history given v → Everywhere P w := by
    intro scenario history given answer reply w hcreation hleft
    cases hcreation with
    | refused failed left registry => exact h.of_registry registry
    | stranded registers failed left registry =>
      refine h.put registry (hbegun _ _ _ registers fun hnone => ?_)
      rw [hleft, left] at hnone
      cases hnone
    | opened registers greeted welcomes left registry =>
      exact h.put registry (hbegun _ _ _ registers fun _ => ⟨_, greeted⟩)
  cases q with
  | create scenario history given =>
    obtain ⟨answer, reply, w, hstart, hcreation⟩ := Service.creation scenario history given v
    rw [start_create hstart]
    exact hcreate hcreation rfl
  | run limit scenario history given =>
    obtain ⟨answer, reply, w, hcreation, hregistry⟩ :=
      creation_of_run limit scenario history given v
    have hopen := hcreate hcreation rfl
    cases answer with
    | none => exact hopen.of_registry hregistry
    | some session => exact hopen.remove hregistry
  | inspect id =>
    exact h.of_registry (registry_inspect id v)
  | step id =>
    rcases registry_step id v with hsame | ⟨found, stepped, hfound, -, hsearch, hput⟩
    · exact h.of_registry hsame
    · refine h.put hput ?_
      rw [hsearch]
      exact hstep _ _ (h id found hfound)
  | close id =>
    rw [start_close]
    split
    · exact h.remove rfl
    · exact h

theorem sound_after (requests : List Request) (h : Everywhere Search.Sound v) :
    Everywhere Search.Sound (after requests v) := by
  induction requests generalizing v with
  | nil => exact h
  | cons q rest ih =>
    apply ih
    refine h.answer (fun s w hs => Search.Sound.step (r := (s, w)) hs) ?_
    intro _ _ _ hregisters _
    exact hregisters.sound

theorem tellable_after {requests : List Request} (hnone : NoneStranded requests v)
    (h : Everywhere Tellable v) : Everywhere Tellable (after requests v) := by
  induction requests generalizing v with
  | nil => exact h
  | cons q rest ih =>
    obtain ⟨hq, hrest⟩ := hnone
    apply ih hrest
    refine h.answer (fun s w hs => kept_tellable.step (l := []) (r := (s, w)) hs) ?_
    intro _ _ _ hregisters hgreeted
    obtain ⟨initial, hinitial⟩ := hgreeted hq
    exact hregisters.tellable hinitial

/-- Open sessions can be told after a call, as long as identifiers are not handed out twice. -/
theorem isOpen_of_mem_tally {q : Request} {held : List String}
    (hfresh : q.handsOut = true → v.ids (v.issued + 1) ∉ v.registry.ids)
    (hheld : ∀ id ∈ held, IsOpen Tellable id v) :
    ∀ id ∈ q.tally (q.answer.start v).1 held, IsOpen Tellable id (q.answer.start v).2 := by
  have hmem : ∀ id ∈ held, id ∈ v.registry.ids := by
    intro id hid
    obtain ⟨session, hget, -⟩ := hheld id hid
    exact Registry.mem_ids_of_get? hget
  have hstays : ∀ id ∈ held, q ≠ close id → IsOpen Tellable id (q.answer.start v).2 := by
    intro id hid hclose
    refine (hheld id hid).answer kept_tellable hclose fun hout heq => ?_
    exact hfresh hout (heq ▸ hmem id hid)
  intro id hid
  cases q with
  | create scenario history given =>
    obtain ⟨answer, reply, w, hcreate, hcreation⟩ := Service.creation scenario history given v
    rw [start_create hcreate] at hid hstays ⊢
    by_cases hsuccess : reply.success = true
    · rw [tally, if_pos hsuccess, List.mem_append] at hid
      rcases hid with hid | hid
      · exact hstays id hid (by rintro ⟨⟩)
      · cases answer with
        | none =>
          rw [Service.failed_of_creation hcreation] at hsuccess
          cases hsuccess
        | some session =>
          cases hcreation with
          | @opened _ u _ _ _ registers greeted welcomes left registry =>
            have hnamed : reply.named = some session.id := by
              rw [Reply.named, welcomes.named]
              rfl
            rw [hnamed, Option.toList_some, List.mem_singleton] at hid
            rw [hid]
            exact ⟨Service.onceBegun session u, Registry.get?_of_eq_put registry,
              registers.tellable greeted⟩
    · rw [tally, if_neg hsuccess] at hid
      exact hstays id hid (by rintro ⟨⟩)
  | close other =>
    rw [start_close] at hid
    by_cases hother : other ∈ v.registry.ids
    · rw [if_pos hother] at hid
      simp only [tally, if_true, List.mem_filter, decide_eq_true_eq] at hid
      refine hstays id hid.1 fun hclose => hid.2 ?_
      cases hclose
      rfl
    · rw [if_neg hother] at hid
      have hheld : id ∈ held := hid
      refine hstays id hheld fun hclose => hother ?_
      cases hclose
      exact hmem id hheld
  | step other => exact hstays id hid (by rintro ⟨⟩)
  | inspect other => exact hstays id hid (by rintro ⟨⟩)
  | run limit scenario history given => exact hstays id hid (by rintro ⟨⟩)

theorem isOpen_of_mem_openAfter {requests : List Request} {held : List String}
    (hfresh : AreFresh requests v) (hheld : ∀ id ∈ held, IsOpen Tellable id v) :
    ∀ id ∈ openAfter requests v held, IsOpen Tellable id (after requests v) := by
  induction requests generalizing v held with
  | nil => exact hheld
  | cons q rest ih => exact ih hfresh.2 (isOpen_of_mem_tally hfresh.1 hheld)

def IsAnswered (q : Request) (v : Service) : Prop :=
  ∃ reply, (q.answer.start v).1 = .ok (some reply)

theorem run_answered (limit : Nat) (scenario : Datum) (history : Option Datum)
    (given : Option Settings) (v : Service) :
    ∃ answer, ((run limit scenario history given).answer.start v).1 = .ok answer := by
  rcases Service.exists_created scenario history given v with
    ⟨reply, w, hcreate, -⟩ | ⟨session, u, created, w, hopens⟩
  · rw [start_run_none hcreate]
    exact ⟨_, rfl⟩
  · obtain ⟨answer, t, hfinish, -⟩ :=
      Service.finish_answered limit created hopens.get? hopens.tellable
    rw [start_run_some hopens.create, hfinish]
    exact ⟨answer, rfl⟩

/-- A run of a schedule that comes to its end is answered under all limits beyond that. -/
theorem run_answered_of_ends
    (hends : ∀ session u, (Service.register scenario history given).start v = (.ok session, u) →
      session.search.strategy.Ends) :
    ∃ n, ∀ limit, n < limit → (run limit scenario history given).IsAnswered v := by
  rcases Service.exists_created scenario history given v with
    ⟨reply, w, hcreate, -⟩ | ⟨session, u, created, w, hopens⟩
  · refine ⟨0, fun limit _ => ⟨reply, ?_⟩⟩
    rw [start_run_none hcreate]
  · obtain ⟨stop, hscheduled⟩ := hopens.scheduled
    obtain ⟨n, hn⟩ := hscheduled.ends (hends session u hopens.register)
    have hstrategy : (Service.onceBegun session u).search.strategy = session.search.strategy :=
      (Search.start_ok_keeps (r := (session.search, u.surroundings)) (Prod.ext hopens.begun rfl)).1
    refine ⟨n, fun limit hlimit => ?_⟩
    obtain ⟨answer, t, hfinish, hnone, -⟩ :=
      Service.finish_answered limit created hopens.get? hopens.tellable
    cases answer with
    | some reply => exact ⟨reply, by rw [start_run_some hopens.create, hfinish]⟩
    | none =>
      have hages : Strategy.Ages 0 session.search.strategy
          (Service.onceBegun session u).search.strategy := Strategy.ages_zero.mpr hstrategy.symm
      have hsolve : (Search.solve limit).start
          ((Service.onceBegun session u).search, w.surroundings) = (.ok none, _) :=
        Prod.ext (hnone rfl) rfl
      exact absurd hsolve (Search.solve_ends hscheduled.schedule hn hages hlimit)

theorem inspect_fails_iff {id : String} {e : Fault} :
    ((inspect id).answer.start v).1 = .error e ↔
      ∃ session, v.registry.get? id = some session ∧ inspected session.search = .error e := by
  rw [answer, Attempt.start_map]
  cases hget : v.registry.get? id with
  | none =>
    rw [Service.inspect, Attempt.start_bind_ok (Attempt.start_get v), hget]
    constructor
    · intro h
      cases h
    · rintro ⟨session, h, -⟩
      cases h
  | some session =>
    dsimp only
    rw [Service.inspect_of_get? hget]
    cases htold : inspected session.search with
    | error e' =>
      constructor
      · intro h
        cases h
        exact ⟨session, rfl, htold⟩
      · rintro ⟨found, hfound, hfault⟩
        cases hfound
        rw [htold] at hfault
        cases hfault
        rfl
    | ok told =>
      constructor
      · intro h
        cases h
      · rintro ⟨found, hfound, hfault⟩
        cases hfound
        rw [htold] at hfault
        cases hfault

theorem inspect_answered {id : String}
    (h : ∀ session, v.registry.get? id = some session → Tellable session.search) :
    (inspect id).IsAnswered v := by
  rw [IsAnswered]
  cases hanswer : ((inspect id).answer.start v).1 with
  | error e =>
    obtain ⟨session, hget, hfault⟩ := inspect_fails_iff.mp hanswer
    obtain ⟨told, htold⟩ := (h session hget).inspected
    rw [htold] at hfault
    cases hfault
  | ok reply =>
    rw [answer, Attempt.start_map] at hanswer
    cases hinspect : ((Service.inspect id).start v).1 with
    | error e =>
      rw [hinspect] at hanswer
      cases hanswer
    | ok reply' =>
      rw [hinspect] at hanswer
      cases hanswer
      exact ⟨reply', rfl⟩

/-- How a service answers: with a reply, but for the state of a session that cannot be told and for
a run that does not come to its end. -/
structure Answering (v : Service) : Prop where
  create : ∀ scenario history given, (create scenario history given).IsAnswered v
  step : ∀ id, (step id).IsAnswered v
  close : ∀ id, (close id).IsAnswered v
  inspect : ∀ id e, ((inspect id).answer.start v).1 = .error e ↔
    ∃ session, v.registry.get? id = some session ∧ inspected session.search = .error e
  run : ∀ limit scenario history given,
    ∃ answer, ((run limit scenario history given).answer.start v).1 = .ok answer
  ends : ∀ scenario history given,
    (∀ session u, (Service.register scenario history given).start v = (.ok session, u) →
      session.search.strategy.Ends) →
        ∃ n, ∀ limit, n < limit → (Request.run limit scenario history given).IsAnswered v

theorem Everywhere.answering (h : Everywhere Search.Sound v) : Answering v where
  create scenario history given := by
    obtain ⟨session, reply, w, hcreate, -⟩ := Service.creation scenario history given v
    exact ⟨reply, by rw [start_create hcreate]⟩
  step id := by
    obtain ⟨reply, w, hstep⟩ := Service.step_answered id (h id)
    exact ⟨reply, by rw [Request.answer, Attempt.start_map, hstep]; rfl⟩
  close id := by
    rw [IsAnswered, start_close]
    split <;> exact ⟨_, rfl⟩
  inspect _ _ := inspect_fails_iff
  run limit scenario history given := run_answered limit scenario history given v
  ends _ _ _ hends := run_answered_of_ends hends

/-- From an empty registry on, whatever has been asked, every call is answered but for inspecting a
session that cannot be told; and such a session was left behind by a creation that failed, so it is
not open. A run goes on for ever only if it anneals and never gets cold. -/
theorem calls_are_answered (hempty : v.registry = []) (requests : List Request) :
    Answering (after requests v) ∧
      (NoneStranded requests v → ∀ id, (inspect id).IsAnswered (after requests v)) ∧
      (AreFresh requests v → ∀ id ∈ openAfter requests v [],
        (inspect id).IsAnswered (after requests v)) := by
  have hall : ∀ P, Everywhere P v := by
    intro P id session hget
    rw [hempty] at hget
    cases hget
  refine ⟨(sound_after requests (hall _)).answering, fun hnone id => ?_, fun hfresh id hid => ?_⟩
  · exact inspect_answered (tellable_after hnone (hall _) id)
  · have hheld : ∀ other ∈ ([] : List String), IsOpen Tellable other v := nofun
    obtain ⟨session, hget, htold⟩ := isOpen_of_mem_openAfter hfresh hheld id hid
    apply inspect_answered
    intro found hfound
    rw [hget] at hfound
    cases hfound
    exact htold

/-- A creation fails as the cost of its first placement is beyond all doubles. The session that it
leaves behind can be closed but not inspected. -/
theorem calls_are_answered_vast :
    (∃ e, ((inspect "s1").answer.start
        (after [create vastScenario none (some .usual)] emptyService)).1 = .error e) ∧
      (close "s1").IsAnswered (after [create vastScenario none (some .usual)] emptyService) := by
  obtain ⟨hanswering, -, -⟩ := calls_are_answered (v := emptyService) rfl
    [create vastScenario none (some .usual)]
  refine ⟨?_, hanswering.close "s1"⟩
  obtain ⟨parsed, hparse, hvms, hhosts⟩ := exists_parsed_vast
  have hcost : (nothing.bind ⟨0, 1⟩ ⟨0, 10 ^ 400⟩ :
      Solution Float (Vm Int) (Host Int)).costValue.isOk = false := by
    decide +kernel
  have hregister : ((Service.register vastScenario none (some .usual)).start emptyService).1.isOk =
      true := by
    decide +kernel
  obtain ⟨session, hid, hstranded, e, hfault⟩ :=
    Service.inspected_of_costless hparse hvms hhosts hcost hregister
  obtain ⟨answer, reply, w, hcreate, hcreation⟩ :=
    Service.creation vastScenario none (some .usual) emptyService
  refine ⟨e, (hanswering.inspect "s1" e).mpr ⟨session, ?_, hfault⟩⟩
  rw [after, after, start_create hcreate]
  cases hcreation with
  | refused failed left registry =>
    rw [hstranded] at left
    cases left
  | opened registers greeted welcomes left registry =>
    rw [hstranded] at left
    cases left
  | stranded registers failed left registry =>
    rw [hstranded, Option.some_inj] at left
    rw [registry, ← left, show "s1" = session.id from hid.symm]
    exact Registry.get?_put_self _ _

end Request
end AssignmentSearch
