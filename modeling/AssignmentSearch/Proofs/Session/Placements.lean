import AssignmentSearch.Proofs.Placement.Complete
import AssignmentSearch.Proofs.Session.Requests

/-!
# What sessions answer

What every change of a search keeps holds of an open session, whatever else is asked of the service
in the meantime. So the placements that a session answers stay complete as long as it is open.
-/

namespace AssignmentSearch

namespace Request

variable {P : PlacementSearch → Prop} {id : String}

def IsOpen (P : PlacementSearch → Prop) (id : String) (v : Service) : Prop :=
  ∃ session, v.registry.get? id = some session ∧ P session.search

theorem IsOpen.of_get? {v w : Service} (h : IsOpen P id v)
    (hw : w.registry.get? id = v.registry.get? id) : IsOpen P id w := by
  obtain ⟨session, hget, hsearch⟩ := h
  exact ⟨session, hw.trans hget, hsearch⟩

theorem IsOpen.answer (hP : Kept fun (_ : List (Event Float (Vm Int) (Host Int))) s => P s)
    {q : Request} {v : Service} (hclose : q ≠ close id)
    (hne : q.handsOut = true → v.ids (v.issued + 1) ≠ id) (h : IsOpen P id v) :
    IsOpen P id (q.answer.start v).2 := by
  by_cases hconcerns : q.Concerns id v
  · cases q with
    | create scenario history given => exact absurd hconcerns (hne rfl)
    | run limit scenario history given => exact absurd hconcerns (hne rfl)
    | close other => exact absurd (congrArg close hconcerns) hclose
    | inspect other =>
      apply h.of_get?
      rw [registry_inspect]
    | step other =>
      obtain ⟨session, hget, hsearch⟩ := h
      have hother : other = id := hconcerns
      rcases registry_step other v with hsame | ⟨found, stepped, hfound, hid, hstep, hput⟩
      · exact ⟨session, by rw [hsame, hget], hsearch⟩
      · rw [Registry.id_of_get? hfound, hother] at hid
        rw [hother, hget] at hfound
        cases hfound
        refine ⟨stepped, ?_, ?_⟩
        · rw [hput, ← hid]
          exact v.registry.get?_put_self stepped
        · rw [hstep]
          exact hP.step (l := []) (r := (session.search, v.surroundings)) hsearch
  · exact h.of_get? (get?_answer_of_not_concerns hconcerns)

/-- What every change of a search keeps holds of a session as long as it is open. -/
theorem IsOpen.after (hP : Kept fun (_ : List (Event Float (Vm Int) (Host Int))) s => P s)
    {requests : List Request} {v : Service} (hspares : Spares id requests v) (h : IsOpen P id v) :
    IsOpen P id (after requests v) := by
  induction requests generalizing v with
  | nil => exact h
  | cons q rest ih =>
    obtain ⟨hclose, hne, hrest⟩ := hspares
    exact ih hrest (h.answer hP hclose hne)

end Request

namespace Placement

variable {vms : List (Vm Int)} {hosts : List (Host Int)}
  {first : Solution Float (Vm Int) (Host Int)}

/-- A search for placements that has begun with `first`, which can be told, and knows what its
placements cost. -/
structure Stands (vms : List (Vm Int)) (hosts : List (Host Int))
    (first : Solution Float (Vm Int) (Host Int)) (s : PlacementSearch) : Prop where
  settled : Settled vms hosts s
  begun : ∃ f, s.progress.found? = some f ∧ f.Known
  kept : s.kept = some first
  written : writes first.mapping = true

theorem Stands.not_fresh {s : PlacementSearch} (h : Stands vms hosts first s) :
    s.progress ≠ .fresh := by
  intro hfresh
  obtain ⟨f, hf, -⟩ := h.begun
  rw [hfresh] at hf
  cases hf

theorem kept_stands (hnodup : vms.Nodup) :
    Kept fun (_ : List (Event Float (Vm Int) (Host Int))) s => Stands vms hosts first s where
  fault h hfresh _ := absurd hfresh h.not_fresh
  begin h hfresh _ := absurd hfresh h.not_fresh
  trial := by
    intro l s b h
    refine ⟨(kept_settled hnodup).trial (l := l) b h.settled, ?_, ?_, h.written⟩
    · obtain ⟨f, hf, hknown⟩ := h.begun
      obtain ⟨source, trials, ht, -⟩ := Search.start_trial_state b s
      rw [ht, Search.progressAfter]
      cases hm : Search.meeting? s with
      | none => exact ⟨f, hf, hknown⟩
      | some m =>
        have hfound := Search.found_of_meeting hm
        rw [hf] at hfound
        cases hfound
        exact ⟨m.after, Progress.found?_holding hf m.after, hknown.after hm⟩
    · rw [Search.kept_trial]
      exact h.kept
  count h := ⟨(kept_settled hnodup).count (l := []) h.settled, h.begun, h.kept, h.written⟩
  age h ha := ⟨(kept_settled hnodup).age (l := []) h.settled ha, h.begun, h.kept,
    h.written⟩
  told _ _ h _ := h
  finish h := ⟨(kept_settled hnodup).finish (l := []) h.settled, by
    rw [Progress.found?_finish]
    exact h.begun, h.kept, h.written⟩
  time x h := ⟨(kept_settled hnodup).time (l := []) x h.settled, h.begun, h.kept, h.written⟩

theorem Stands.fills {s : PlacementSearch} (h : Stands vms hosts first s) :
    Fills vms hosts first.mapping := by
  obtain ⟨f, hf, -⟩ := h.begun
  obtain ⟨kept, hkept, hfills, -⟩ := h.settled.found f hf
  rw [h.kept, Option.some_inj] at hkept
  rw [hkept]
  exact hfills

theorem Stands.rehouses {s : PlacementSearch} (h : Stands vms hosts first s)
    (hids : (vms.map (·.id)).Nodup) :
    Rehouses vms hosts (.dict (Search.mappingEntries first.mapping)) s.currentMapping ∧
      Rehouses vms hosts (.dict (Search.mappingEntries first.mapping)) s.bestMapping := by
  obtain ⟨f, hf, -⟩ := h.begun
  obtain ⟨kept, hkept, hanswers⟩ := h.settled.rehouses hids hf
  rw [h.kept, Option.some_inj] at hkept
  rw [hkept]
  exact hanswers

theorem Stands.exists_snapshot {s : PlacementSearch} (h : Stands vms hosts first s) :
    ∃ fields, s.snapshot = .ok fields := by
  obtain ⟨f, hf, hknown⟩ := h.begun
  refine Search.exists_snapshot fun g hg => ?_
  rw [hf] at hg
  cases hg
  exact hknown

theorem Stands.tellBest {s : PlacementSearch} (h : Stands vms hosts first s) :
    s.tellBest = .ok s.bestMapping := by
  obtain ⟨f, hf, -⟩ := h.begun
  obtain ⟨kept, hkept, -, -, hbest⟩ := h.settled.found f hf
  rw [h.kept, Option.some_inj] at hkept
  apply Search.tellBest_of_writes hf
  rw [h.settled.landscape]
  exact writes_of_rearranges (hkept ▸ hbest) h.written

theorem settled_of_build {parsed : Scenario} {cfg : Settings} {source : Source Float}
    {recorder : Option Recorder} {s : PlacementSearch}
    (h : build parsed cfg source recorder = .ok s) :
    s.progress = .fresh ∧ Settled parsed.vms parsed.hosts s := by
  obtain ⟨plan, n, -, -, rfl⟩ := exists_fresh_of_build h
  exact ⟨rfl, rfl, fun _ => rfl, fun f hf => (nomatch hf)⟩

end Placement

namespace Service

theorem Registers.stands {scenario : Datum} {parsed : Scenario} {v u : Service} {session : Session}
    (h : Registers scenario v session u) (hparse : Scenario.parse scenario = .ok parsed)
    {initial : Datum} (hgreeting : greeting session u = .ok initial) :
    ∃ first, Placement.Stands parsed.vms parsed.hosts first (onceBegun session u).search ∧
      (onceBegun session u).search.currentMapping =
        .dict (Search.mappingEntries first.mapping) := by
  obtain ⟨hbegun, htold⟩ := greeting_ok hgreeting
  obtain ⟨parsed', cfg, source, recorder, hparse', -, -, hbuild⟩ := h.built
  rw [hparse] at hparse'
  cases hparse'
  obtain ⟨hfresh, hsettled⟩ := Placement.settled_of_build hbuild
  have hnodup := (Scenario.nodup_of_parse hparse).of_map
  have hstart := (Placement.kept_settled hnodup).start (l := [])
    (r := (session.search, u.surroundings)) hsettled
  obtain ⟨first, source', stop, -, hknown, -, ht⟩ :=
    Search.start_ok (r := (session.search, u.surroundings)) hfresh (Prod.ext hbegun rfl)
  have hsearch : (onceBegun session u).search = _ := ht
  have hfound : (onceBegun session u).search.progress.found? = some (Search.firstFound first) := by
    rw [hsearch, Search.found?_progressOf]
  have hsettled' : Placement.Settled parsed.vms parsed.hosts (onceBegun session u).search := hstart
  have hwritten : Placement.writes first.evaluated.mapping = true := by
    rw [Search.tellCurrent, hfound] at htold
    have hwrites := (Search.tell_ok htold).1
    rwa [hsettled'.landscape] at hwrites
  refine ⟨first.evaluated, ⟨hsettled', ⟨_, hfound, Search.known_firstFound hknown⟩, ?_, hwritten⟩, ?_⟩
  · rw [hsearch]
  · rw [hsearch, Search.currentMapping, Search.found?_progressOf]
    rfl

end Service

namespace Request

variable {scenario : Datum} {parsed : Scenario} {history : Option Datum} {given : Option Settings}
  {v w : Service} {reply : Reply}

open Placement

theorem create_ok (hparse : Scenario.parse scenario = .ok parsed)
    (h : (create scenario history given).answer.start v = (.ok (some reply), w))
    (hsuccess : reply.success = true) :
    ∃ id first, reply.named = some id ∧
      reply.fields.lookup "initial_mapping" = some (.dict (Search.mappingEntries first.mapping)) ∧
        IsOpen (Stands parsed.vms parsed.hosts first) id w := by
  obtain ⟨answer, reply', w', hcreate, hcreation⟩ := Service.creation scenario history given v
  rw [start_create hcreate] at h
  cases h
  cases answer with
  | none =>
    rw [Service.failed_of_creation hcreation] at hsuccess
    cases hsuccess
  | some session =>
    cases hcreation with
    | @opened _ u _ _ _ registers greeted welcomes left registry =>
      obtain ⟨first, hstands, hcurrent⟩ := registers.stands hparse greeted
      refine ⟨session.id, first, ?_, ?_, Service.onceBegun session u, ?_, hstands⟩
      · rw [Reply.named, welcomes.named]
        rfl
      · rw [welcomes.initial, hcurrent]
      · exact Registry.get?_of_eq_put registry

theorem run_ok {limit : Nat} (hparse : Scenario.parse scenario = .ok parsed)
    (h : (run limit scenario history given).answer.start v = (.ok (some reply), w))
    (hsuccess : reply.success = true) :
    ∃ initial best, reply.fields.lookup "initial_mapping" = some initial ∧
      reply.fields.lookup "best_mapping" = some best ∧
        Rehouses parsed.vms parsed.hosts initial best := by
  have hids := Scenario.nodup_of_parse hparse
  obtain ⟨answer, created, u, hcreate, hcreation⟩ := Service.creation scenario history given v
  cases answer with
  | none =>
    rw [start_run_none hcreate] at h
    cases h
    rw [Service.failed_of_creation hcreation] at hsuccess
    cases hsuccess
  | some session =>
    rw [start_run_some hcreate] at h
    cases hcreation with
    | @opened _ t _ _ _ registers greeted welcomes left registry =>
      obtain ⟨first, hstands, hcurrent⟩ := registers.stands hparse greeted
      have hget : u.registry.get? session.id = some (Service.onceBegun session t) :=
        Registry.get?_of_eq_put registry
      obtain ⟨best, hsolve, hbest, hinitial⟩ :=
        (Service.finish_spec limit created hget).2 reply (by rw [h]) hsuccess
      rw [welcomes.initial, Option.getD_some, hcurrent] at hinitial
      refine ⟨_, _, hinitial, hbest, ?_⟩
      have hend := (kept_stands hids.of_map).solve limit (l := [])
        (r := ((Service.onceBegun session t).search, u.surroundings)) hstands
      obtain ⟨f, hf, hsolution⟩ := Search.solve_ok
        (r := ((Service.onceBegun session t).search, u.surroundings)) (Prod.ext hsolve rfl)
      have hanswer := (hend.rehouses hids).2
      rw [Search.bestMapping, hf] at hanswer
      rw [hsolution]
      exact hanswer

/-- A scenario that is accepted is answered by complete placements, whatever the settings and the
samples: each machine is told once, in the order of the scenario, with a host of the scenario, and
the hosts are those of the first placement in some order. Without machines or without hosts nothing
is told. So it is for the solutions that a search for the scenario holds after any calls, for what a
session answers until it is closed, and for what a run answers. -/
theorem placements_stay_complete (hparse : Scenario.parse scenario = .ok parsed) :
    (∀ cfg source recorder s, Placement.build parsed cfg source recorder = .ok s →
      ∀ (w : Surroundings Float) (earlier : List Call) f,
        (Call.after earlier (s, w)).1.progress.found? = some f →
          ∃ first, ∀ later, (Call.after (earlier ++ later) (s, w)).1.kept = some first ∧
            Rehouses parsed.vms parsed.hosts (.dict (Search.mappingEntries first.mapping))
              (Call.after (earlier ++ later) (s, w)).1.currentMapping ∧
            Rehouses parsed.vms parsed.hosts (.dict (Search.mappingEntries first.mapping))
              (Call.after (earlier ++ later) (s, w)).1.bestMapping) ∧
    (∀ history given v reply w,
      (create scenario history given).answer.start v = (.ok (some reply), w) →
        reply.success = true →
          ∃ id initial, reply.named = some id ∧
            reply.fields.lookup "initial_mapping" = some initial ∧
              Rehouses parsed.vms parsed.hosts initial initial ∧
                ∀ requests, Spares id requests w →
                  ∃ session answer, (after requests w).registry.get? id = some session ∧
                    Rehouses parsed.vms parsed.hosts initial session.search.currentMapping ∧
                    ((inspect id).answer.start (after requests w)).1 = .ok (some answer) ∧
                    answer.fields.lookup "best_mapping" = some session.search.bestMapping ∧
                    Rehouses parsed.vms parsed.hosts initial session.search.bestMapping) ∧
    (∀ limit history given v reply w,
      (run limit scenario history given).answer.start v = (.ok (some reply), w) →
        reply.success = true →
          ∃ initial best, reply.fields.lookup "initial_mapping" = some initial ∧
            reply.fields.lookup "best_mapping" = some best ∧
              Rehouses parsed.vms parsed.hosts initial best) := by
  have hids := Scenario.nodup_of_parse hparse
  refine ⟨?_, ?_, fun limit history given v reply w h hsuccess => run_ok hparse h hsuccess⟩
  · intro cfg source recorder s hbuild w earlier f hf
    obtain ⟨-, hsettled⟩ := settled_of_build hbuild
    have hsettles : ∀ calls, Settled parsed.vms parsed.hosts (Call.after calls (s, w)).1 :=
      fun calls => (kept_settled hids.of_map).calls calls (l := []) (r := (s, w)) hsettled
    obtain ⟨first, hkept, -⟩ := (hsettles earlier).rehouses hids hf
    refine ⟨first, fun later => ?_⟩
    obtain ⟨⟨g, hg⟩, hsame⟩ := Call.begun_after_append later hf hkept
    obtain ⟨kept, hkept', hanswers⟩ := (hsettles (earlier ++ later)).rehouses hids hg
    rw [hsame, Option.some_inj] at hkept'
    rw [hkept']
    exact ⟨hsame.trans (congrArg some hkept'), hanswers⟩
  · intro history given v reply w h hsuccess
    obtain ⟨id, first, hnamed, hinitial, hopen⟩ := create_ok hparse h hsuccess
    have hfirst : Rehouses parsed.vms parsed.hosts (.dict (Search.mappingEntries first.mapping))
        (.dict (Search.mappingEntries first.mapping)) := by
      obtain ⟨session, -, hstands⟩ := hopen
      exact hstands.fills.rehouses hids (.refl _)
    refine ⟨id, _, hnamed, hinitial, hfirst, fun requests hspares => ?_⟩
    obtain ⟨session, hget, hstands⟩ := hopen.after (kept_stands hids.of_map) hspares
    obtain ⟨fields, hfields⟩ := hstands.exists_snapshot
    obtain ⟨answer, hinspect, -, hbest⟩ := Service.inspect_ok hget hfields hstands.tellBest
    obtain ⟨hcurrent, hbestMapping⟩ := hstands.rehouses hids
    refine ⟨session, answer, hget, hcurrent, ?_, hbest, hbestMapping⟩
    rw [Request.answer, Attempt.start_map, hinspect]
    rfl

def pairScenario : Datum :=
  .dict [(.str "algo", .str "gravity"),
    (.str "vms", .list [.dict [(.str "id", .int 1)], .dict [(.str "id", .int 2)]]),
    (.str "hosts", .list [.dict [(.str "id", .int 3), (.str "pe_count", .int 4)],
      .dict [(.str "id", .int (-5)), (.str "pe_count", .int 4)]])]

def pair : Scenario :=
  ⟨none, .gravity, [⟨3, 4⟩, ⟨-5, 4⟩], [⟨1, 1⟩, ⟨2, 1⟩], ⟨none, none, none⟩, none, none, none⟩

/-- A search for two machines and two hosts, in surroundings without files. -/
def pairSearch (source : Source Float) : Running Float (Plan Float) (Vm Int) (Host Int) :=
  (.fresh (.gravity ⟨⟨0, 1000⟩⟩) (landscape pair.vms pair.hosts) source (.int 1) none,
    ⟨0, 1, .empty, []⟩)

def pairSource : Source Float := .repeating ([0.25, 0.75].map .real)

theorem placements_stay_complete_pair :
    Scenario.parse pairScenario = .ok pair ∧
      (∃ first,
        (Call.after [.start, .step] (pairSearch pairSource)).1.kept = some first ∧
          Rehouses pair.vms pair.hosts (.dict (Search.mappingEntries first.mapping))
            (Call.after [.start, .step] (pairSearch pairSource)).1.currentMapping) ∧
      (Call.after [.start, .step] (pairSearch pairSource)).1.progress.found?.map
        (fun f => f.current.solution.mapping.labels) =
          some [("Vm1", "Host3"), ("Vm2", "Host-5")] := by
  have hparse : Scenario.parse pairScenario = .ok pair := by cbv
  have hbuild : Placement.build pair .usual pairSource none = .ok (pairSearch pairSource).1 := rfl
  have hbegun : (Call.after [.start] (pairSearch pairSource)).1.progress.found?.isSome = true := by
    decide +kernel
  obtain ⟨f, hf⟩ := Option.isSome_iff_exists.mp hbegun
  obtain ⟨hsearch, -, -⟩ := placements_stay_complete hparse
  obtain ⟨first, hfirst⟩ := hsearch _ _ _ _ hbuild (pairSearch pairSource).2 [.start] f hf
  obtain ⟨hkept, hcurrent, -⟩ := hfirst [.step]
  rw [List.cons_append, List.nil_append, Prod.mk.eta] at hkept hcurrent
  exact ⟨hparse, ⟨first, hkept, hcurrent⟩, by decide +kernel⟩

end Request
end AssignmentSearch
