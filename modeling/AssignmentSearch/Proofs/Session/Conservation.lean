import AssignmentSearch.Proofs.Placement.Exchanges
import AssignmentSearch.Proofs.Session.Requests

/-!
# The registry holds the open sessions

A caller can tell the open sessions from the replies: a creation that succeeds opens the one that its
reply names, and a closing that succeeds ends one. The registry holds these, and besides them every
session that was registered and then could not be answered: its search cannot begin, or its first
mapping cannot be told. No reply names such a session.
-/

namespace AssignmentSearch

namespace Service

variable {scenario : Datum} {history : Option Datum} {given : Option Settings} {v w : Service}
  {reply : Reply}

theorem registry_of_failed (h : Creation scenario history given v none reply w)
    (hfresh : v.ids (v.issued + 1) ∉ v.registry.ids) :
    w.registry = v.registry ++ (stranded scenario history given v).toList := by
  cases h with
  | refused failed left registry =>
    rw [left, registry]
    simp
  | stranded registers failed left registry =>
    rw [left, registry]
    exact Registry.put_of_notMem (registers.notMem hfresh)

theorem registry_of_opened {session : Session}
    (h : Creation scenario history given v (some session) reply w)
    (hfresh : v.ids (v.issued + 1) ∉ v.registry.ids) :
    reply.success = true ∧ reply.named = some session.id ∧
      stranded scenario history given v = none ∧
        ∃ begun : Session, begun.id = session.id ∧ w.registry = v.registry ++ [begun] := by
  cases h with
  | @opened _ u _ _ _ registers greeted welcomes left registry =>
    refine ⟨welcomes.success, ?_, left, onceBegun session u, rfl, ?_⟩
    · rw [Reply.named, welcomes.named]
      rfl
    · rw [registry]
      exact Registry.put_of_notMem (registers.notMem hfresh)

theorem first_of_single {vm : Vm Int} {host : Host Int}
    {first : Solution Float (Vm Int) (Host Int)} {source source' : Source Float}
    (h : (Placement.initial [vm] [host] none).start source = (.ok first, source')) :
    first = Placement.nothing.bind vm host := by
  have hbind : (Placement.bindAll [host] [vm] Placement.nothing).start source =
      (.ok first, source') := h
  obtain ⟨drawn, t, hdrawn, hbind⟩ := Attempt.exists_of_start_bind hbind
  rw [List.mem_singleton.mp (Placement.mem_of_randomHost hdrawn)] at hbind
  obtain ⟨_, _, -, hbind⟩ := Attempt.exists_of_start_bind hbind
  cases hbind
  rfl

theorem exists_stranded (history : Option Datum) (given : Option Settings) {parsed : Scenario}
    {vm : Vm Int} {host : Host Int}
    (hparse : Scenario.parse scenario = .ok parsed) (hvms : parsed.vms = [vm])
    (hhosts : parsed.hosts = [host])
    (hcost : (Placement.nothing.bind vm host : Solution Float (Vm Int) (Host Int)).costValue.isOk =
      false)
    (hregister : ((register scenario history given).start v).1.isOk = true) :
    ∃ session, stranded scenario history given v = some session ∧
      session.id = v.ids (v.issued + 1) := by
  rcases hx : (register scenario history given).start v with ⟨r, u⟩
  rw [hx] at hregister
  cases r with
  | error e => cases hregister
  | ok session =>
    have hregisters := registers_of_ok hx
    obtain ⟨parsed', cfg, source, recorder, hparse', -, -, hbuild⟩ := hregisters.built
    rw [hparse] at hparse'
    cases hparse'
    obtain ⟨plan, n, -, -, hsearch⟩ := Placement.exists_fresh_of_build hbuild
    cases hgreeting : greeting session u with
    | error e =>
      refine ⟨onceBegun session u, ?_, hregisters.id⟩
      simp only [stranded, hx, hgreeting]
    | ok _ =>
      have hbegun := (greeting_ok hgreeting).1
      have hfresh : session.search.progress = .fresh := by rw [hsearch]; rfl
      obtain ⟨first, source', stop, hinitial, ⟨c, hc⟩, -, -⟩ :=
        Search.start_ok (r := (session.search, u.surroundings)) hfresh (Prod.ext hbegun rfl)
      rw [hsearch, hvms, hhosts] at hinitial
      rw [← first_of_single hinitial, hc] at hcost
      cases hcost

end Service

namespace Request

/-- The open sessions after a call, by what it answers. -/
def tally : Request → Except Fault (Option Reply) → List String → List String
  | create .., .ok (some reply), held =>
    if reply.success then held ++ reply.named.toList else held
  | close id, .ok (some reply), held =>
    if reply.success then held.filter fun other => other ≠ id else held
  | _, _, held => held

/-- The session that a call leaves behind. -/
def stranded : Request → Service → Option Session
  | create scenario history given, v | run _ scenario history given, v =>
    Service.stranded scenario history given v
  | _, _ => none

def openAfter : List Request → Service → List String → List String
  | [], _, held => held
  | q :: rest, v, held => openAfter rest (q.answer.start v).2 (q.tally (q.answer.start v).1 held)

/-- The open sessions and those left behind, in the order of their creation. -/
def heldAfter : List Request → Service → List String → List String
  | [], _, held => held
  | q :: rest, v, held =>
    heldAfter rest (q.answer.start v).2
      (q.tally (q.answer.start v).1 held ++ (q.stranded v).toList.map (·.id))

/-- No call leaves a session behind. -/
def NoneStranded : List Request → Service → Prop
  | [], _ => True
  | q :: rest, v => q.stranded v = none ∧ NoneStranded rest (q.answer.start v).2

/-- A call that opens no session: a run, or a creation that fails. -/
def OpensNone : Request → Except Fault (Option Reply) → Prop
  | create .., answer => ∀ reply, answer = .ok (some reply) → reply.success = false
  | run .., _ => True
  | _, _ => False

theorem heldAfter_of_noneStranded {requests : List Request} {v : Service}
    (h : NoneStranded requests v) (held : List String) :
    heldAfter requests v held = openAfter requests v held := by
  induction requests generalizing v held with
  | nil => rfl
  | cons q rest ih =>
    obtain ⟨hq, hrest⟩ := h
    rw [heldAfter, openAfter, hq, ih hrest]
    simp

/-- A run releases the session that it has created, so it leaves the registry as it was but for a
session left behind. -/
theorem registry_run (limit : Nat) (scenario : Datum) (history : Option Datum)
    (given : Option Settings) {v : Service} (hfresh : v.ids (v.issued + 1) ∉ v.registry.ids) :
    ((run limit scenario history given).answer.start v).2.registry =
      v.registry ++ (Service.stranded scenario history given v).toList := by
  obtain ⟨session, reply, w, hcreation, hregistry⟩ := creation_of_run limit scenario history given v
  rw [hregistry]
  cases session with
  | none => exact Service.registry_of_failed hcreation hfresh
  | some session =>
    cases hcreation with
    | @opened _ u _ _ _ registers greeted welcomes left registry =>
      have hput := v.registry.remove_put (Service.onceBegun session u)
      dsimp only
      rw [registry, left]
      exact (hput.trans (Registry.remove_of_notMem (registers.notMem hfresh))).trans (by simp)

/-- One call changes the identifiers in the registry as its answer says, and adds the one of a
session that it leaves behind. -/
theorem ids_answer (q : Request) {v : Service}
    (hfresh : q.handsOut = true → v.ids (v.issued + 1) ∉ v.registry.ids) :
    (q.answer.start v).2.registry.ids =
      q.tally (q.answer.start v).1 v.registry.ids ++ (q.stranded v).toList.map (·.id) := by
  cases q with
  | create scenario history given =>
    obtain ⟨session, reply, w, hcreate, hcreation⟩ :=
      Service.creation scenario history given v
    rw [start_create hcreate]
    cases session with
    | none =>
      have hfailed := Service.failed_of_creation hcreation
      have hregistry := Service.registry_of_failed hcreation (hfresh rfl)
      simp [tally, stranded, hfailed, hregistry, Registry.ids]
    | some session =>
      obtain ⟨hsuccess, hnamed, hleft, begun, hid, hregistry⟩ :=
        Service.registry_of_opened hcreation (hfresh rfl)
      simp [tally, stranded, hsuccess, hnamed, hleft, hid, hregistry, Registry.ids]
  | step id =>
    have hids : ((step id).answer.start v).2.registry.ids = v.registry.ids := by
      rcases registry_step id v with h | ⟨session, stepped, hget, hid, -, h⟩
      · rw [h]
      · have hmem := Registry.mem_ids_of_get? hget
        rw [← Registry.id_of_get? hget, ← hid] at hmem
        rw [h]
        exact Registry.ids_put_of_mem hmem
    rw [hids]
    simp [tally, stranded]
  | inspect id =>
    rw [registry_inspect]
    simp [tally, stranded]
  | run limit scenario history given =>
    rw [registry_run limit scenario history given (hfresh rfl)]
    simp [tally, stranded, Registry.ids]
  | close id =>
    rw [start_close]
    by_cases hmem : id ∈ v.registry.ids
    · rw [if_pos hmem]
      simp [tally, stranded, Registry.ids_remove]
    · rw [if_neg hmem]
      simp [tally, stranded, Service.unknown, Service.failure]

theorem ids_after {requests : List Request} {v : Service} (hfresh : AreFresh requests v) :
    (after requests v).registry.ids = heldAfter requests v v.registry.ids := by
  induction requests generalizing v with
  | nil => rfl
  | cons q rest ih =>
    obtain ⟨hq, hrest⟩ := hfresh
    rw [after, heldAfter, ih hrest, ids_answer q hq]

theorem registry_of_opensNone {q : Request} {v : Service}
    (hfresh : q.handsOut = true → v.ids (v.issued + 1) ∉ v.registry.ids)
    (h : q.OpensNone (q.answer.start v).1) :
    (q.answer.start v).2.registry = v.registry ++ (q.stranded v).toList := by
  cases q with
  | create scenario history given =>
    obtain ⟨session, reply, w, hcreate, hcreation⟩ :=
      Service.creation scenario history given v
    rw [start_create hcreate] at h ⊢
    cases session with
    | none => exact Service.registry_of_failed hcreation (hfresh rfl)
    | some session =>
      have hsuccess := (Service.registry_of_opened hcreation (hfresh rfl)).1
      rw [h reply rfl] at hsuccess
      cases hsuccess
  | run limit scenario history given =>
    exact registry_run limit scenario history given (hfresh rfl)
  | step id => cases h
  | inspect id => cases h
  | close id => cases h

/-- From an empty registry on, the registry always holds the open sessions and those left behind by
creations that fail late. So as long as every registered session is answered, it holds exactly the
sessions that were opened and have not been closed. A call that opens no session adds none but the
one it leaves behind. -/
theorem registry_holds_open_sessions {v : Service} (hempty : v.registry = [])
    {requests : List Request} (hfresh : AreFresh requests v) :
    (after requests v).registry.ids = heldAfter requests v [] ∧
      (NoneStranded requests v → (after requests v).registry.ids = openAfter requests v []) ∧
      ∀ earlier q later, requests = earlier ++ q :: later →
        q.OpensNone (q.answer.start (after earlier v)).1 →
          (q.answer.start (after earlier v)).2.registry =
            (after earlier v).registry ++ (q.stranded (after earlier v)).toList := by
  have hids := ids_after hfresh
  rw [hempty] at hids
  refine ⟨hids, fun hnone => ?_, fun earlier q later hsplit hopens => ?_⟩
  · rw [hids]
    exact heldAfter_of_noneStranded hnone []
  · rw [hsplit, areFresh_append] at hfresh
    exact registry_of_opensNone hfresh.2.1 hopens

def emptyService : Service :=
  ⟨[], fun n => "s" ++ toString n, fun _ => 0, 0, "", [], ⟨0, 0, .empty, []⟩⟩

def idleCreation : Request := .create (.dict [(.str "algo", .str "gravity")]) none (some .usual)

/-- One machine and one host, which offers more processing elements than a double can tell. -/
def vastScenario : Datum :=
  .dict [(.str "algo", .str "gravity"), (.str "vms", .list [.dict [(.str "id", .int 0)]]),
    (.str "hosts", .list [.dict [(.str "id", .int 0), (.str "pe_count", .int (10 ^ 400))]])]

theorem exists_parsed_vast : ∃ parsed, Scenario.parse vastScenario = .ok parsed ∧
    parsed.vms = [⟨0, 1⟩] ∧ parsed.hosts = [⟨0, 10 ^ 400⟩] := by
  have hmachines : (Scenario.parse vastScenario).toOption.map (fun p => (p.vms, p.hosts)) =
      some ([⟨0, 1⟩], [⟨0, 10 ^ 400⟩]) := by
    decide +kernel
  cases hparse : Scenario.parse vastScenario with
  | error e =>
    rw [hparse] at hmachines
    cases hmachines
  | ok parsed =>
    rw [hparse, Except.toOption, Option.map_some, Option.some_inj, Prod.mk.injEq] at hmachines
    exact ⟨parsed, rfl, hmachines.1, hmachines.2⟩

/-- The run fails and leaves behind a session that no reply has named. -/
theorem registry_holds_open_sessions_vast :
    (after [idleCreation, run 3 vastScenario none (some .usual)] emptyService).registry.ids =
        ["s1", "s2"] ∧
      openAfter [idleCreation, run 3 vastScenario none (some .usual)] emptyService [] = ["s1"] := by
  have hfresh : AreFresh [idleCreation, run 3 vastScenario none (some .usual)] emptyService :=
    ⟨fun _ => by decide +kernel, fun _ => by decide +kernel, trivial⟩
  have hopen : openAfter [idleCreation] emptyService [] = ["s1"] := by decide +kernel
  have hnone : NoneStranded [idleCreation] emptyService :=
    ⟨Option.isNone_iff_eq_none.mp (by decide +kernel), trivial⟩
  have hid : (after [idleCreation] emptyService).ids
      ((after [idleCreation] emptyService).issued + 1) = "s2" := by
    decide +kernel
  obtain ⟨parsed, hparse, hvms, hhosts⟩ := exists_parsed_vast
  obtain ⟨session, hstranded, hsession⟩ := Service.exists_stranded none (some .usual)
    (v := after [idleCreation] emptyService) hparse hvms hhosts (by decide +kernel)
    (by decide +kernel)
  obtain ⟨hids, -, -⟩ := registry_holds_open_sessions (v := emptyService) rfl hfresh
  have hheld : heldAfter [idleCreation] emptyService [] = ["s1"] := by
    rw [heldAfter_of_noneStranded hnone, hopen]
  have htally : ∀ answer held,
      (run 3 vastScenario none (some .usual)).tally answer held = held := fun _ _ => rfl
  constructor
  · rw [heldAfter, heldAfter] at hheld
    rw [hid] at hsession
    rw [after, after] at hstranded
    rw [hids, heldAfter, heldAfter, heldAfter, htally, hheld, stranded, hstranded]
    simp [hsession]
  · rw [openAfter, openAfter, openAfter, htally]
    rw [openAfter, openAfter] at hopen
    exact hopen

end Request
end AssignmentSearch
