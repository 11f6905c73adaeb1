import AssignmentSearch.Proofs.Session.Alike
import AssignmentSearch.Proofs.Session.Conservation

/-!
# Sessions keep apart

What a session answers is decided by the calls about it. Such a call reads and changes its own session
only, and a call about another session changes nothing of it. So the calls about one session can be
repeated alone, with the identifiers and seeds that were due to them, and answer what they answered.
-/

namespace AssignmentSearch

variable {β γ : Type}

/-- An attempt that leaves alone what later calls draw on: the identifiers and seeds, the folder and
the environment. -/
def KeepsSetting (x : Attempt Service β) : Prop :=
  ∀ v, ∃ registry surroundings issued, (x.start v).2 =
    { v with registry := registry, surroundings := surroundings, issued := issued }

theorem Quiet.keepsSetting {x : Attempt Service β} (h : Quiet x) : KeepsSetting x := by
  intro v
  obtain ⟨w, hw⟩ := h v
  exact ⟨v.registry, w, v.issued, hw⟩

namespace KeepsSetting

theorem pure (a : β) : KeepsSetting (Pure.pure a) := (Quiet.pure a).keepsSetting

theorem lift (x : Except Fault β) : KeepsSetting (Attempt.lift x) := (Quiet.lift x).keepsSetting

theorem bind {x : Attempt Service β} {f : β → Attempt Service γ} (hx : KeepsSetting x)
    (hf : ∀ a, KeepsSetting (f a)) : KeepsSetting (x >>= f) := by
  intro v
  have hstate := hx v
  rw [Attempt.start_bind]
  rcases hs : x.start v with ⟨r, t⟩
  rw [hs] at hstate
  cases r with
  | error e => exact hstate
  | ok a =>
    obtain ⟨registry, surroundings, issued, ht⟩ := hstate
    obtain ⟨registry', surroundings', issued', hu⟩ := hf a t
    refine ⟨registry', surroundings', issued', ?_⟩
    dsimp only at ht ⊢
    rw [hu, ht]

theorem read {f : Service → Attempt Service β} (hf : ∀ v, KeepsSetting (f v)) :
    KeepsSetting (get >>= f) :=
  Quiet.get.keepsSetting.bind hf

theorem outcome {x : Attempt Service β} (h : KeepsSetting x) : KeepsSetting (Attempt.outcome x) := h

theorem map {x : Attempt Service β} (f : β → γ) (h : KeepsSetting x) : KeepsSetting (f <$> x) := by
  intro v
  rw [Attempt.start_map]
  exact h v

end KeepsSetting

namespace Service

variable {scenario : Datum} {history : Option Datum} {given : Option Settings}

theorem keepsSetting_log (level : Level) (message : String) : KeepsSetting (log level message) :=
  (Quiet.onSurroundings _).keepsSetting

theorem keepsSetting_release (id : String) : KeepsSetting (release id) :=
  fun v => ⟨v.registry.remove id, v.surroundings, v.issued, rfl⟩

theorem keepsSetting_onSearch (session : Session)
    (x : Attempt (Running Float (Plan Float) (Vm Int) (Host Int)) β) :
    KeepsSetting (onSearch session x) :=
  fun v => ⟨_, _, v.issued, rfl⟩

theorem keepsSetting_register : KeepsSetting (register scenario history given) := by
  apply (quiet_settingsFor given).keepsSetting.bind
  intro cfg
  apply (Quiet.onSurroundings _).keepsSetting.bind
  intro parsed
  apply KeepsSetting.bind (x := freshId) fun v => ⟨v.registry, v.surroundings, v.issued + 1, rfl⟩
  intro id
  apply (KeepsSetting.lift _).bind
  intro recorder
  apply KeepsSetting.read
  intro v
  apply (KeepsSetting.lift _).bind
  intro source
  apply (KeepsSetting.lift _).bind
  intro search
  exact fun v => ⟨_, v.surroundings, v.issued, rfl⟩

theorem keepsSetting_create : KeepsSetting (create scenario history given) := by
  have hbegin : KeepsSetting (begin scenario history given) := by
    apply keepsSetting_register.bind
    intro session
    apply (keepsSetting_onSearch _ _).bind
    intro _
    apply (keepsSetting_log _ _).bind
    intro _
    apply (quiet_snapshot session).keepsSetting.bind
    intro state
    apply (quiet_search session).keepsSetting.bind
    intro current
    exact (KeepsSetting.lift _).bind fun _ => KeepsSetting.pure _
  apply hbegin.outcome.bind
  intro r
  cases r with
  | error e => exact (keepsSetting_log _ _).bind fun _ => KeepsSetting.pure _
  | ok a => exact KeepsSetting.pure _

theorem keepsSetting_finish (limit : Nat) (session : Session) (created : Reply) :
    KeepsSetting (finish limit session created) := by
  apply (keepsSetting_onSearch _ _).outcome.bind
  intro r
  apply (quiet_search session).keepsSetting.bind
  intro search
  rcases r with e | _ | best
  · apply (keepsSetting_log _ _).bind
    intro _
    exact (keepsSetting_release _).bind fun _ => KeepsSetting.pure _
  · exact (keepsSetting_release _).bind fun _ => KeepsSetting.pure _
  · apply (keepsSetting_release _).bind
    intro _
    apply (KeepsSetting.lift _).bind
    intro cost
    apply (KeepsSetting.lift _).bind
    intro mapping
    exact (KeepsSetting.lift _).bind fun _ => KeepsSetting.pure _

theorem keepsSetting_step (id : String) : KeepsSetting (step id) := by
  apply KeepsSetting.read
  intro v
  cases v.registry.get? id with
  | none => exact KeepsSetting.pure _
  | some session =>
    dsimp only
    split
    · exact (quiet_snapshot session).keepsSetting.bind fun _ => KeepsSetting.pure _
    · apply (keepsSetting_onSearch _ _).outcome.bind
      intro r
      cases r with
      | error e => exact (keepsSetting_log _ _).bind fun _ => KeepsSetting.pure _
      | ok o => exact (quiet_snapshot session).keepsSetting.bind fun _ => KeepsSetting.pure _

theorem keepsSetting_close (id : String) : KeepsSetting (close id) := by
  apply KeepsSetting.read
  intro v
  cases v.registry.get? id with
  | none => exact KeepsSetting.pure _
  | some session => exact (keepsSetting_release id).bind fun _ => KeepsSetting.pure _

end Service

namespace Request

theorem keepsSetting_answer (q : Request) : KeepsSetting q.answer := by
  cases q with
  | create scenario history given => exact Service.keepsSetting_create.map _
  | step id => exact (Service.keepsSetting_step id).map _
  | inspect id => exact (Service.quiet_inspect id).keepsSetting.map _
  | close id => exact (Service.keepsSetting_close id).map _
  | run limit scenario history given =>
    apply Service.keepsSetting_create.bind
    rintro ⟨_ | session, reply⟩
    · exact KeepsSetting.pure _
    · exact Service.keepsSetting_finish limit session reply

/-- A call that gives no folder to record a search in. -/
def Unrecorded (v : Service) : Request → Prop
  | create _ history given | run _ _ history given => Service.Unrecorded history given v
  | _ => True

def timeless (answer : Except Fault (Option Reply)) : Except Fault (Option Reply) :=
  answer.map (Option.map Reply.timeless)

/-- The calls about a session, each with how many identifiers were handed out before it. -/
def own (id : String) : List Request → Service → List (Nat × Request)
  | [], _ => []
  | q :: rest, v =>
    if q.Concerns id v then (v.issued, q) :: own id rest (q.answer.start v).2
    else own id rest (q.answer.start v).2

theorem mem_of_mem_own {id : String} {requests : List Request} {v : Service} {p : Nat × Request}
    (h : p ∈ own id requests v) : p.2 ∈ requests := by
  induction requests generalizing v with
  | nil => cases h
  | cons q rest ih =>
    rw [own] at h
    split at h
    · rcases List.mem_cons.mp h with rfl | h
      · exact List.mem_cons_self ..
      · exact List.mem_cons_of_mem q (ih h)
    · exact List.mem_cons_of_mem q (ih h)

def ownAnswers (id : String) : List Request → Service → List (Except Fault (Option Reply))
  | [], _ => []
  | q :: rest, v =>
    if q.Concerns id v then (q.answer.start v).1 :: ownAnswers id rest (q.answer.start v).2
    else ownAnswers id rest (q.answer.start v).2

/-- What calls answer one after another, each made when so many identifiers have been handed out. -/
def answersAlone : List (Nat × Request) → Service → List (Except Fault (Option Reply))
  | [], _ => []
  | (n, q) :: rest, v =>
    (q.answer.start { v with issued := n }).1 ::
      answersAlone rest (q.answer.start { v with issued := n }).2

def afterAlone : List (Nat × Request) → Service → Service
  | [], v => v
  | (n, q) :: rest, v => afterAlone rest (q.answer.start { v with issued := n }).2

theorem timeless_eq_of_matches {a b : Except Fault (Option Reply)}
    (h : Matches (Option.Rel Similar) a b) : timeless a = timeless b := by
  cases h with
  | error e => rfl
  | ok related =>
    cases related with
    | none => rfl
    | some hsame => exact congrArg (fun r => Except.ok (some r)) hsame.symm

variable {id : String} {v w : Service}

/-- A call about a session is answered alike by services that agree on it. -/
theorem parallel_answer {q : Request} (h : Alike id v w) (hconcerns : q.Concerns id v)
    (hplain : q.Unrecorded v) :
    timeless (q.answer.start v).1 = timeless (q.answer.start w).1 ∧
      Alike id (q.answer.start v).2 (q.answer.start w).2 := by
  have hparallel : Matches (Option.Rel Similar) (q.answer.start v).1 (q.answer.start w).1 ∧
      Alike id (q.answer.start v).2 (q.answer.start w).2 := by
    cases q with
    | create scenario history given =>
      exact (Service.parallel_create.map fun _ _ hab => .some hab.2) v w ⟨h, hconcerns, hplain⟩
    | run limit scenario history given =>
      exact Service.parallel_run limit v w ⟨h, hconcerns, hplain⟩
    | step other =>
      cases hconcerns
      exact (Service.parallel_step.map fun _ _ hab => .some hab) v w h
    | inspect other =>
      cases hconcerns
      exact (Service.parallel_inspect.map fun _ _ hab => .some hab) v w h
    | close other =>
      cases hconcerns
      exact (Service.parallel_close.map fun _ _ hab => .some hab) v w h
  exact ⟨timeless_eq_of_matches hparallel.1, hparallel.2⟩

theorem unrecorded_answer {q next : Request} (h : next.Unrecorded v) :
    next.Unrecorded (q.answer.start v).2 := by
  obtain ⟨registry, surroundings, issued, hstate⟩ := keepsSetting_answer q v
  have hplain : ∀ {history given}, Service.Unrecorded history given v →
      Service.Unrecorded history given (q.answer.start v).2 := by
    intro history given hgiven cfg hcfg
    rw [hstate] at hcfg
    apply hgiven cfg
    rw [← hcfg]
    cases given <;> rfl
  cases next with
  | create => exact hplain h
  | run => exact hplain h
  | step => trivial
  | inspect => trivial
  | close => trivial

/-- A call about another session leaves services alike, as far as the next identifier is the same. -/
theorem alike_of_not_concerns {q : Request} (h : Alike id v { w with issued := v.issued })
    (hconcerns : ¬ q.Concerns id v) :
    Alike id (q.answer.start v).2 { w with issued := (q.answer.start v).2.issued } := by
  have hget := get?_answer_of_not_concerns hconcerns
  have hsession := h.session
  rw [← hget] at hsession
  obtain ⟨registry, surroundings, issued, hstate⟩ := keepsSetting_answer q v
  -- Services that are alike differ in their registries and surroundings only, so `w` is `v` but for
  -- these and the number of identifiers.
  have hw : ∀ n, { w with issued := n } =
      { v with registry := w.registry, surroundings := w.surroundings, issued := n } := by
    intro n
    generalize hx : ({ w with issued := v.issued } : Service) = x at h
    cases h
    cases w
    cases hx
    rfl
  rw [hw]
  generalize (q.answer.start v).2 = u at hstate hsession
  subst hstate
  exact .of hsession

theorem keep_apart {requests : List Request} (h : Alike id v { w with issued := v.issued })
    (hplain : ∀ p ∈ own id requests v, p.2.Unrecorded v) :
    (ownAnswers id requests v).map timeless =
        (answersAlone (own id requests v) w).map timeless ∧
      Option.Rel (TwinSession id) ((after requests v).registry.get? id)
        ((afterAlone (own id requests v) w).registry.get? id) := by
  -- The service on its own stays behind while other calls are made; its number is set to that of `v`
  -- before the next of its own calls, and then the two are alike.
  induction requests generalizing v w with
  | nil => exact ⟨rfl, h.session⟩
  | cons q rest ih =>
    rw [ownAnswers, own, after]
    by_cases hconcerns : q.Concerns id v
    · rw [own, if_pos hconcerns] at hplain
      have hq : q.Unrecorded v := hplain _ (List.mem_cons_self ..)
      obtain ⟨hanswer, hnext⟩ := parallel_answer h hconcerns hq
      obtain ⟨hanswers, hsession⟩ := ih hnext.reissued fun p hp =>
        unrecorded_answer (hplain p (List.mem_cons_of_mem _ hp))
      rw [if_pos hconcerns, if_pos hconcerns, answersAlone, afterAlone, List.map_cons,
        List.map_cons, hanswer, hanswers]
      exact ⟨rfl, hsession⟩
    · rw [own, if_neg hconcerns] at hplain
      rw [if_neg hconcerns, if_neg hconcerns]
      exact ih (alike_of_not_concerns h hconcerns) fun p hp => unrecorded_answer (hplain p hp)

/-- A service with one session of another, in surroundings of its own. -/
def holdingOnly (id : String) (v : Service) (w : Surroundings Float) : Service :=
  { v with registry := (v.registry.get? id).toList, surroundings := w }

theorem alike_holdingOnly (w : Surroundings Float)
    (hplain : ∀ session, v.registry.get? id = some session → session.search.recorder = none) :
    Alike id v (holdingOnly id v w) := by
  apply Alike.of
  cases hget : v.registry.get? id with
  | none => exact .none
  | some session =>
    have hid := Registry.id_of_get? hget
    have hself : Registry.get? [session] id = some session := by simp [Registry.get?, hid]
    change Option.Rel _ _ (Registry.get? [session] id)
    rw [hself, ← hid]
    exact .some (TwinSession.refl (hplain session hget))

/-- Sessions keep apart. The calls about one session answer what they answer when they are repeated
alone, but for the times, in a service that has never held another session and whose clock, files and
journal have nothing to do with those here; and the session gets to the same point. -/
theorem sessions_keep_apart (id : String) (requests : List Request) (v : Service)
    (w : Surroundings Float)
    (hsession : ∀ session, v.registry.get? id = some session → session.search.recorder = none)
    (hrequests : ∀ p ∈ own id requests v, p.2.Unrecorded v) :
    (ownAnswers id requests v).map timeless =
        (answersAlone (own id requests v) (holdingOnly id v w)).map timeless ∧
      Option.Rel (TwinSession id) ((after requests v).registry.get? id)
        ((afterAlone (own id requests v) (holdingOnly id v w)).registry.get? id) :=
  keep_apart (alike_holdingOnly w hsession).reissued hrequests

/-- A session that places three machines on two hosts, with samples from a list. -/
def placingSession (id : String) (plan : Plan Float) (samples : List Float) : Session :=
  ⟨id, Strategy.name plan, [], [⟨1, 2⟩, ⟨2, 3⟩, ⟨3, 1⟩], [⟨1, 8⟩, ⟨2, 4⟩],
    .fresh plan (Placement.landscape [⟨1, 2⟩, ⟨2, 3⟩, ⟨3, 1⟩] [⟨1, 8⟩, ⟨2, 4⟩])
      (.repeating (samples.map .real)) (.int 1) none⟩

/-- Two sessions have been opened, one for each strategy. -/
def placingService : Service :=
  { emptyService with
    registry := [placingSession "s1" (.gravity ⟨⟨0, 3⟩⟩) [0.25, 0.75, 0.5],
      placingSession "s2" (.annealing ⟨.real 100, 1, 0.5⟩) [0.75, 0.125]]
    issued := 2 }

/-- Calls about the two sessions in turn, a creation and a run. -/
def mixedCalls : List Request :=
  [step "s1", step "s2", inspect "s2", idleCreation, step "s1",
    run 2 (.dict [(.str "algo", .str "gravity")]) none (some .usual), close "s2", inspect "s1"]

theorem sessions_keep_apart_mixed :
    (own "s1" mixedCalls placingService).map Prod.fst = [2, 3, 4] ∧
      (ownAnswers "s1" mixedCalls placingService).map
          (fun a => a.toOption.map (Option.map Reply.success)) =
        [some (some true), some (some true), some (some true)] ∧
      (ownAnswers "s1" mixedCalls placingService).map timeless =
        (answersAlone (own "s1" mixedCalls placingService)
          (holdingOnly "s1" placingService ⟨7, 1, .empty, []⟩)).map timeless := by
  have hsession : ∀ session, placingService.registry.get? "s1" = some session →
      session.search.recorder = none := by
    intro session hget
    cases hget
    rfl
  have husual : Service.Unrecorded none (some .usual) placingService := by
    intro cfg hcfg
    cases hcfg
    rfl
  have hplain : ∀ q ∈ mixedCalls, q.Unrecorded placingService := by
    simp [mixedCalls, idleCreation, Unrecorded, husual]
  obtain ⟨hanswers, -⟩ := sessions_keep_apart "s1" mixedCalls placingService ⟨7, 1, .empty, []⟩
    hsession fun p hp => hplain p.2 (mem_of_mem_own hp)
  exact ⟨by decide +kernel, by decide +kernel, hanswers⟩

end Request
end AssignmentSearch
