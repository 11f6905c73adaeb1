import AssignmentSearch.Proofs.Search.Twins
import AssignmentSearch.Proofs.Session.Requests

/-!
# Services that agree on a session

Services that hold the same session, but for the time its search has taken, answer every call about it
alike but for that time, and go on to hold the same session. What else they hold does not matter, and
neither do their clocks, files and journals, as long as the session has no recorder.
-/

namespace AssignmentSearch

variable {β γ : Type}

def Parallel (J K : Service → Service → Prop) (R : β → β → Prop) (x y : Attempt Service β) : Prop :=
  ∀ v w, J v w → Matches R (x.start v).1 (y.start w).1 ∧ K (x.start v).2 (y.start w).2

namespace Parallel

variable {J K L : Service → Service → Prop} {R : β → β → Prop} {S : γ → γ → Prop}

theorem pure {a b : β} (h : R a b) : Parallel J J R (Pure.pure a) (Pure.pure b) :=
  fun _ _ hvw => ⟨.ok h, hvw⟩

theorem lift {x y : Except Fault β} (h : Matches R x y) :
    Parallel J J R (Attempt.lift x) (Attempt.lift y) :=
  fun _ _ hvw => ⟨h, hvw⟩

theorem bind_of_le {x y : Attempt Service β} {f g : β → Attempt Service γ}
    (hx : Parallel J K R x y) (hKL : ∀ v w, K v w → L v w)
    (hf : ∀ a b, R a b → Parallel K L S (f a) (g b)) : Parallel J L S (x >>= f) (y >>= g) := by
  intro v w h
  obtain ⟨hanswer, hstate⟩ := hx v w h
  rw [Attempt.start_bind, Attempt.start_bind]
  rcases hx : x.start v with ⟨a, v'⟩
  rcases hy : y.start w with ⟨b, w'⟩
  rw [hx, hy] at hanswer hstate
  dsimp only at hanswer hstate
  cases hanswer with
  | error e => exact ⟨.error e, hKL v' w' hstate⟩
  | ok related => exact hf _ _ related v' w' hstate

theorem bind {x y : Attempt Service β} {f g : β → Attempt Service γ} (hx : Parallel J K R x y)
    (hf : ∀ a b, R a b → Parallel K K S (f a) (g b)) : Parallel J K S (x >>= f) (y >>= g) :=
  hx.bind_of_le (fun _ _ h => h) hf

theorem read {f g : Service → Attempt Service β}
    (hf : ∀ v w, J v w → Parallel J K R (f v) (g w)) :
    Parallel J K R (get >>= f) (get >>= g) := by
  intro v w h
  rw [Attempt.start_bind_ok (Attempt.start_get v), Attempt.start_bind_ok (Attempt.start_get w)]
  exact hf v w h v w h

theorem outcome {x y : Attempt Service β} (h : Parallel J K R x y) :
    Parallel J K (Matches R) (Attempt.outcome x) (Attempt.outcome y) := by
  intro v w hvw
  obtain ⟨hanswer, hstate⟩ := h v w hvw
  exact ⟨.ok hanswer, hstate⟩

theorem map {x y : Attempt Service β} {f : β → γ} (h : Parallel J K R x y)
    (hf : ∀ a b, R a b → S (f a) (f b)) : Parallel J K S (f <$> x) (f <$> y) := by
  intro v w hvw
  obtain ⟨hanswer, hstate⟩ := h v w hvw
  rw [Attempt.start_map, Attempt.start_map]
  exact ⟨hanswer.map hf, hstate⟩

end Parallel

/-- The same session, but for the time its search has taken. -/
inductive TwinSession (id : String) : Session → Session → Prop
  | of {s : Session} {search : PlacementSearch} (named : s.id = id) (twins : Twin s.search search) :
      TwinSession id s { s with search := search }

/-- Services that agree on one session and on all that calls draw on. -/
inductive Alike (id : String) : Service → Service → Prop
  | of {v : Service} {registry : Registry} {surroundings : Surroundings Float}
      (session : Option.Rel (TwinSession id) (v.registry.get? id) (registry.get? id)) :
      Alike id v { v with registry := registry, surroundings := surroundings }

/-- A reply without the time in its summary. -/
def Reply.timeless (r : Reply) : Reply :=
  { r with fields := r.fields.map fun e => (e.1, if e.1 = "state" then e.2.untimed else e.2) }

/-- Replies that tell the same but for the time. -/
def Similar (r r' : Reply) : Prop := r'.timeless = r.timeless

theorem Similar.lookup {r r' : Reply} (h : Similar r r') {key : String} (hkey : key ≠ "state") :
    r'.fields.lookup key = r.fields.lookup key := by
  have htimeless : ∀ fields : List (String × Datum),
      (fields.map fun e => (e.1, if e.1 = "state" then e.2.untimed else e.2)).lookup key =
        fields.lookup key := by
    intro fields
    induction fields with
    | nil => rfl
    | cons e rest ih =>
      rcases e with ⟨name, d⟩
      by_cases hname : key = name
      · subst hname
        simp [hkey]
      · have hbeq : (key == name) = false := beq_eq_false_iff_ne.mpr hname
        simp only [List.map_cons, List.lookup_cons, hbeq, ih]
  have hfields := congrArg Reply.fields h
  rw [← htimeless r.fields, ← htimeless r'.fields]
  exact congrArg (List.lookup key) hfields

variable {id : String} {s s' : Session} {v w : Service}

theorem TwinSession.refl (h : s.search.recorder = none) : TwinSession s.id s s :=
  .of rfl (Twin.refl h)

theorem TwinSession.twin (h : TwinSession id s s') : Twin s.search s'.search := by
  cases h
  assumption

theorem TwinSession.named (h : TwinSession id s s') : s.id = id ∧ s'.id = id := by
  cases h with
  | of named => exact ⟨named, named⟩

theorem TwinSession.with_search {search search' : PlacementSearch} (h : TwinSession id s s')
    (htwin : Twin search search') :
    TwinSession id { s with search := search } { s' with search := search' } := by
  cases h with
  | of named => exact .of (s := { s with search := search }) named htwin

namespace Alike

theorem session (h : Alike id v w) :
    Option.Rel (TwinSession id) (v.registry.get? id) (w.registry.get? id) := by
  cases h
  assumption

theorem found (h : Alike id v w) :
    (v.registry.get? id = none ∧ w.registry.get? id = none) ∨
      ∃ s s', v.registry.get? id = some s ∧ w.registry.get? id = some s' ∧ TwinSession id s s' := by
  have hfound := h.session
  generalize v.registry.get? id = found, w.registry.get? id = found' at hfound
  cases hfound with
  | none => exact Or.inl ⟨rfl, rfl⟩
  | some hs => exact Or.inr ⟨_, _, rfl, rfl, hs⟩

theorem surroundings (h : Alike id v w) (u u' : Surroundings Float) :
    Alike id { v with surroundings := u } { w with surroundings := u' } := by
  cases h with
  | of session => exact .of (v := { v with surroundings := u }) session

theorem reissued (h : Alike id v w) : Alike id v { w with issued := v.issued } := by
  cases h with
  | of session => exact .of session

theorem put (h : Alike id v w) (hs : TwinSession id s s') :
    Alike id { v with registry := v.registry.put s } { w with registry := w.registry.put s' } := by
  have hfound : Option.Rel (TwinSession id) ((v.registry.put s).get? id)
      ((w.registry.put s').get? id) := by
    have hself := v.registry.get?_put_self s
    have hself' := w.registry.get?_put_self s'
    rw [hs.named.1] at hself
    rw [hs.named.2] at hself'
    rw [hself, hself']
    exact .some hs
  cases h
  exact .of (v := { v with registry := v.registry.put s }) hfound

theorem remove (h : Alike id v w) :
    Alike id { v with registry := v.registry.remove id }
      { w with registry := w.registry.remove id } := by
  have hfound : Option.Rel (TwinSession id) ((v.registry.remove id).get? id)
      ((w.registry.remove id).get? id) := by
    rw [Registry.get?_remove_self, Registry.get?_remove_self]
    exact .none
  cases h
  exact .of (v := { v with registry := v.registry.remove id }) hfound

theorem twin (h : Alike id v w) (hs : TwinSession id s s') :
    Twin ((v.registry.get? s.id).getD s).search ((w.registry.get? s'.id).getD s').search := by
  rw [hs.named.1, hs.named.2]
  rcases h.found with ⟨hv, hw⟩ | ⟨t, t', hv, hw, ht⟩
  · rw [hv, hw]
    exact hs.twin
  · rw [hv, hw]
    exact ht.twin

end Alike

namespace Service

theorem parallel_log (level level' : Level) (message message' : String) :
    Parallel (Alike id) (Alike id) (fun _ _ => True) (log level message) (log level' message') :=
  fun _ _ h => ⟨.ok trivial, h.surroundings _ _⟩

theorem parallel_search (hs : TwinSession id s s') :
    Parallel (Alike id) (Alike id) Twin (search s) (search s') :=
  Parallel.read fun _ _ h => Parallel.pure (h.twin hs)

theorem parallel_snapshot (hs : TwinSession id s s') :
    Parallel (Alike id) (Alike id) (fun d d' => d'.untimed = d.untimed) (snapshot s)
      (snapshot s') := by
  apply (parallel_search hs).bind
  intro t t' htwin
  apply (Parallel.lift htwin.snapshot).bind
  intro a b hab
  exact Parallel.pure hab

theorem parallel_onSearch {x : Attempt (Running Float (Plan Float) (Vm Int) (Host Int)) β}
    (hs : TwinSession id s s') (hx : Agrees x) :
    Parallel (Alike id) (Alike id) (fun a b => b = a) (onSearch s x) (onSearch s' x) := by
  intro v w h
  obtain ⟨hanswer, htwin⟩ := hx _ _ v.surroundings w.surroundings (h.twin hs)
  refine ⟨Matches.of_eq hanswer, ?_⟩
  exact (h.put (hs.with_search htwin)).surroundings _ _

section
variable {scenario : Datum} {history : Option Datum} {given : Option Settings}

def settings (given : Option Settings) (v : Service) : Except Fault Settings :=
  match given with
  | some cfg => .ok cfg
  | none => Settings.ofEnvironment v.root v.environment

theorem start_settingsFor (given : Option Settings) (v : Service) :
    (settingsFor given).start v = (settings given v, v) := by
  cases given <;> rfl

/-- No folder is given to record a search in. -/
def Unrecorded (history : Option Datum) (given : Option Settings) (v : Service) : Prop :=
  ∀ cfg, settings given v = .ok cfg → (history.getD cfg.historyFolder).isTrue = false

/-- A session is to be registered with its identifier, without a recorder. -/
structure Due (id : String) (history : Option Datum) (given : Option Settings) (v w : Service) :
    Prop where
  alike : Alike id v w
  next : v.ids (v.issued + 1) = id
  unrecorded : Unrecorded history given v

theorem parallel_settingsFor :
    Parallel (Due id history given) (Due id history given)
      (fun cfg cfg' => cfg' = cfg ∧ (history.getD cfg.historyFolder).isTrue = false)
      (settingsFor given) (settingsFor given) := by
  intro v w h
  have hsame : settings given w = settings given v := by
    cases h.alike
    cases given <;> rfl
  rw [start_settingsFor, start_settingsFor, hsame]
  refine ⟨?_, h⟩
  cases hcfg : settings given v with
  | error e => exact .error e
  | ok cfg => exact .ok ⟨rfl, h.unrecorded cfg hcfg⟩

theorem parallel_accept (r : Except Fault Scenario) :
    Parallel (Due id history given) (Due id history given) (fun a b => b = a)
      (onSurroundings (Scenario.accept r)) (onSurroundings (Scenario.accept r)) := by
  intro v w h
  rw [onSurroundings, Attempt.start_zoom, Attempt.start_zoom, answer_accept, answer_accept]
  exact ⟨Matches.of_eq rfl, h.alike.surroundings _ _, h.next, h.unrecorded⟩

theorem parallel_freshId :
    Parallel (Due id history given) (Alike id) (fun a b => a = id ∧ b = id) freshId freshId := by
  intro v w h
  have hnext := h.next
  have hsession := h.alike.session
  cases h.alike
  rw [start_freshId, start_freshId]
  exact ⟨.ok ⟨hnext, hnext⟩, .of (v := { v with issued := v.issued + 1 }) hsession⟩

theorem recorderIn_of_not_isTrue {folder : Datum} (h : folder.isTrue = false) (id : String) :
    recorderIn folder id = .ok none := by
  cases folder with
  | str path =>
    have hpath : path = "" := by simpa [Datum.isTrue] using h
    simp [recorderIn, hpath]
  | _ => simp [recorderIn, h]

theorem parallel_register :
    Parallel (Due id history given) (Alike id) (TwinSession id) (register scenario history given)
      (register scenario history given) := by
  refine parallel_settingsFor.bind_of_le (fun _ _ h => h.alike) ?_
  rintro _ cfg ⟨rfl, hfolder⟩
  refine (parallel_accept _).bind_of_le (fun _ _ h => h.alike) ?_
  rintro _ parsed rfl
  -- From here on the session has its identifier, so nothing but that entry of the registry counts.
  apply parallel_freshId.bind
  rintro _ named ⟨rfl, rfl⟩
  rw [recorderIn_of_not_isTrue hfolder]
  apply (Parallel.lift (R := fun a b => a = none ∧ b = none) (.ok ⟨rfl, rfl⟩)).bind
  rintro _ _ ⟨rfl, rfl⟩
  apply Parallel.read
  intro v w h
  have hseed : w.entropy w.issued = v.entropy v.issued := by
    cases h
    rfl
  rw [hseed]
  apply (Parallel.lift (Matches.of_eq rfl)).bind
  rintro _ source rfl
  apply (Parallel.lift (R := fun s s' => s' = s ∧ s.recorder = none) ?_).bind
  · rintro _ search ⟨rfl, hplain⟩
    intro v w h
    have hs := TwinSession.refl (s := ⟨named, parsed.algorithm.name,
      [("name", Scenario.given .str parsed.name)], parsed.vms, parsed.hosts, search⟩) hplain
    exact ⟨.ok hs, h.put hs⟩
  · cases hbuild : Placement.build parsed cfg source none with
    | error e => exact .error e
    | ok search =>
      obtain ⟨plan, n, -, -, rfl⟩ := Placement.exists_fresh_of_build hbuild
      exact .ok ⟨rfl, rfl⟩

theorem parallel_begin :
    Parallel (Due id history given) (Alike id)
      (fun a b => TwinSession id a.1 b.1 ∧ Similar a.2 b.2) (begin scenario history given)
      (begin scenario history given) := by
  apply parallel_register.bind
  intro s s' hs
  apply (parallel_onSearch hs Search.agrees_start).bind
  intro _ _ _
  apply (parallel_log _ _ _ _).bind
  intro _ _ _
  apply (parallel_snapshot hs).bind
  intro state state' hstate
  apply (parallel_search hs).bind
  intro t t' htwin
  apply (Parallel.lift (Matches.of_eq htwin.tellCurrent)).bind
  rintro _ initial rfl
  apply Parallel.pure
  cases hs with
  | of named twins => exact ⟨.of named twins, by simp [Similar, Reply.timeless, hstate]⟩

theorem parallel_create :
    Parallel (Due id history given) (Alike id)
      (fun a b => Option.Rel (TwinSession id) a.1 b.1 ∧ Similar a.2 b.2)
      (create scenario history given) (create scenario history given) := by
  apply parallel_begin.outcome.bind
  intro a b hab
  cases hab with
  | error e =>
    apply (parallel_log _ _ _ _).bind
    intro _ _ _
    exact Parallel.pure ⟨.none, rfl⟩
  | ok related => exact Parallel.pure ⟨.some related.1, related.2⟩

theorem parallel_finish (limit : Nat) {created created' : Reply} (hs : TwinSession id s s')
    (hcreated : Similar created created') :
    Parallel (Alike id) (Alike id) (Option.Rel Similar) (finish limit s created)
      (finish limit s' created') := by
  apply (parallel_onSearch hs (Search.agrees_solve limit)).outcome.bind
  intro a b hab
  apply (parallel_search hs).bind
  intro t t' htwin
  have hrelease : Parallel (Alike id) (Alike id) (fun _ _ => True) (release s.id)
      (release s'.id) := by
    intro v w h
    rw [hs.named.1, hs.named.2]
    exact ⟨.ok trivial, h.remove⟩
  cases hab with
  | error e =>
    apply (parallel_log _ _ _ _).bind
    intro _ _ _
    apply hrelease.bind
    intro _ _ _
    cases hs with
    | of named twins => exact Parallel.pure (.some rfl)
  | @ok _ best related =>
    subst related
    cases best with
    | none =>
      apply hrelease.bind
      intro _ _ _
      exact Parallel.pure .none
    | some best =>
      apply hrelease.bind
      intro _ _ _
      apply (Parallel.lift (Matches.of_eq rfl)).bind
      rintro _ cost rfl
      apply (Parallel.lift (Matches.of_eq (htwin.tell best.mapping))).bind
      rintro _ mapping rfl
      apply (Parallel.lift htwin.snapshot).bind
      intro state state' hstate
      apply Parallel.pure
      have hinitial : created'.fields.lookup "initial_mapping" =
          created.fields.lookup "initial_mapping" := hcreated.lookup (by decide)
      cases hs with
      | of named twins => exact .some (by simp [Similar, Reply.timeless, hstate, hinitial])

theorem parallel_run (limit : Nat) :
    Parallel (Due id history given) (Alike id) (Option.Rel Similar)
      (run limit scenario history given) (run limit scenario history given) := by
  apply parallel_create.bind
  rintro ⟨a, created⟩ ⟨b, created'⟩ ⟨hab, hcreated⟩
  dsimp only at hab hcreated
  cases hab with
  | none => exact Parallel.pure (.some hcreated)
  | some hs => exact parallel_finish limit hs hcreated

end

theorem parallel_inspect :
    Parallel (Alike id) (Alike id) Similar (inspect id) (inspect id) := by
  apply Parallel.read
  intro v w h
  rcases h.found with ⟨hv, hw⟩ | ⟨s, s', hv, hw, hs⟩
  · rw [hv, hw]
    exact Parallel.pure rfl
  · rw [hv, hw]
    apply (parallel_snapshot hs).bind
    intro state state' hstate
    apply (Parallel.lift (Matches.of_eq hs.twin.tellBest)).bind
    rintro _ best rfl
    apply Parallel.pure
    cases hs with
    | of named twins => simp [Similar, Reply.timeless, hstate]

theorem parallel_step :
    Parallel (Alike id) (Alike id) Similar (step id) (step id) := by
  apply Parallel.read
  intro v w h
  rcases h.found with ⟨hv, hw⟩ | ⟨s, s', hv, hw, hs⟩
  · rw [hv, hw]
    exact Parallel.pure rfl
  · rw [hv, hw]
    dsimp only
    rw [hs.twin.progress_eq]
    by_cases hover : s.search.progress.stage = .terminated
    · rw [if_pos hover, if_pos hover]
      apply (parallel_snapshot hs).bind
      intro state state' hstate
      apply Parallel.pure
      simp [Similar, Reply.timeless, hstate]
    · rw [if_neg hover, if_neg hover]
      apply (parallel_onSearch hs Search.agrees_step).outcome.bind
      intro a b hab
      cases hab with
      | error e =>
        apply (parallel_log _ _ _ _).bind
        intro _ _ _
        exact Parallel.pure rfl
      | @ok _ o related =>
        subst related
        apply (parallel_snapshot hs).bind
        intro state state' hstate
        apply Parallel.pure
        simp [Similar, Reply.timeless, hstate]

theorem parallel_close :
    Parallel (Alike id) (Alike id) Similar (close id) (close id) := by
  apply Parallel.read
  intro v w h
  rcases h.found with ⟨hv, hw⟩ | ⟨s, s', hv, hw, hs⟩
  · rw [hv, hw]
    exact Parallel.pure rfl
  · rw [hv, hw]
    exact fun _ _ h => ⟨.ok rfl, h.remove⟩

end Service
end AssignmentSearch
