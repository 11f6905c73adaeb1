import AssignmentSearch.Proofs.Search.Steps
import AssignmentSearch.Proofs.Storage.PlainPaths

/-!
# What records do to a search

Reports and records with plain paths leave the search and the clock alone, and only the best result
can be at fault: it may be one that cannot be told. So beginning, concluding a step and ending can
each be told in full, but for files and reports.
-/

namespace AssignmentSearch

variable {α σ τ ρ β γ : Type}

/-- The clock shows what it showed and goes on as fast. -/
structure SameClock (w w' : Surroundings α) : Prop where
  now : w'.now = w.now
  tick : w'.tick = w.tick

theorem SameClock.rfl {w : Surroundings α} : SameClock w w := ⟨Eq.refl _, Eq.refl _⟩

theorem SameClock.trans {u v w : Surroundings α} (h : SameClock u v) (h' : SameClock v w) :
    SameClock u w :=
  ⟨h'.now.trans h.now, h'.tick.trans h.tick⟩

theorem SameClock.symm {v w : Surroundings α} (h : SameClock v w) : SameClock w v :=
  ⟨h.now.symm, h.tick.symm⟩

def Surroundings.ticked [Quantity α] (w : Surroundings α) : Surroundings α :=
  { w with now := w.now + w.tick }

theorem SameClock.ticked [Quantity α] {v w : Surroundings α} (h : SameClock v w) :
    SameClock v.ticked w.ticked := by
  refine ⟨?_, h.tick⟩
  simp only [Surroundings.ticked, h.now, h.tick]

namespace Surroundings

theorem start_tryAccess (trouble : Entry) {x : Access Unit} (hx : IsTried x) (w : Surroundings α) :
    (tryAccess trouble x).start w =
      match x w.files with
      | (.ok _, files) => (.ok true, { w with files })
      | (.error _, files) => (.ok false, { w with files, journal := trouble :: w.journal }) := by
  rw [tryAccess, Attempt.start_bind_ok (Attempt.start_get w)]
  rcases h : x w.files with ⟨a, files⟩
  cases a with
  | ok _ => rfl
  | error d =>
    dsimp only
    rw [if_neg (hx w.files files d h)]
    rfl

theorem tryAccess_cases (trouble : Entry) {x : Access Unit} (hx : IsTried x) (w : Surroundings α) :
    ∃ isDone w', (tryAccess trouble x).start w = (.ok isDone, w') ∧ SameClock w w' := by
  rw [start_tryAccess trouble hx w]
  rcases x w.files with ⟨a, files⟩
  cases a <;> exact ⟨_, _, rfl, rfl, rfl⟩

end Surroundings

/-- An attempt on a search `s` that leaves it and the clock as they are. Its faults are those that
`P` allows. -/
def Clerical (s : Search α σ τ ρ) (P : Fault → Prop) (x : Attempt (Running α σ τ ρ) β) : Prop :=
  ∀ w, ∃ a w', x.start (s, w) = (a, (s, w')) ∧ SameClock w w' ∧ ∀ e, a = .error e → P e

namespace Clerical

variable {s : Search α σ τ ρ} {P : Fault → Prop}

theorem pure (a : β) : Clerical s P (Pure.pure a) :=
  fun w => ⟨.ok a, w, rfl, .rfl, fun _ h => nomatch h⟩

theorem lift {x : Except Fault β} (hx : ∀ e, x = .error e → P e) : Clerical s P (Attempt.lift x) :=
  fun w => ⟨x, w, rfl, .rfl, hx⟩

theorem bind {x : Attempt (Running α σ τ ρ) β} {f : β → Attempt (Running α σ τ ρ) γ}
    (hx : Clerical s P x) (hf : ∀ a, Clerical s P (f a)) : Clerical s P (x >>= f) := by
  intro w
  obtain ⟨a, u, hstart, hu, ha⟩ := hx w
  cases a with
  | error e =>
    have hfault := ha e rfl
    refine ⟨.error e, u, Attempt.start_bind_error hstart, hu, fun e' he => ?_⟩
    cases he
    exact hfault
  | ok a =>
    obtain ⟨b, v, hnext, hv, hb⟩ := hf a u
    exact ⟨b, v, by rw [Attempt.start_bind_ok hstart, hnext], hu.trans hv, hb⟩

theorem read {f : Running α σ τ ρ → Attempt (Running α σ τ ρ) β}
    (hf : ∀ w, Clerical s P (f (s, w))) : Clerical s P (get >>= f) := by
  intro w
  rw [Attempt.start_bind_ok (Attempt.start_get _)]
  exact hf w w

theorem onSurroundings {x : Attempt (Surroundings α) β}
    (hx : ∀ w, ∃ a w', x.start w = (a, w') ∧ SameClock w w' ∧ ∀ e, a = .error e → P e) :
    Clerical s P (Search.onSurroundings x) := by
  intro w
  obtain ⟨a, w', hstart, hclock, ha⟩ := hx w
  exact ⟨a, w', by rw [Search.onSurroundings, Attempt.start_zoom, hstart], hclock, ha⟩

theorem report (e : Entry) :
    Clerical s P (Search.onSurroundings (Surroundings.report e) : Attempt (Running α σ τ ρ) Unit) :=
  onSurroundings fun w => ⟨.ok (), { w with journal := e :: w.journal }, rfl, ⟨rfl, rfl⟩,
    fun _ h => nomatch h⟩

end Clerical

namespace Recorder

variable {r : Recorder} {s : Search α σ τ ρ} {P : Fault → Prop}

theorem IsPlain.clerical_recordStep [Printed α] (h : r.IsPlain) (state : List (String × Datum))
    (o : Outcome α) : Clerical s P (Search.onSurroundings (r.recordStep state o)) := by
  apply Clerical.onSurroundings
  intro w
  obtain ⟨isDone, w', htry, hclock⟩ := Surroundings.tryAccess_cases
    ⟨.error, part, "写入搜索迭代历史 CSV 时出错（已忽略）。"⟩ (h.isTried_appendStep state o) w
  refine ⟨.ok (), w', ?_, hclock, fun _ h => nomatch h⟩
  rw [recordStep, Attempt.start_bind_ok htry]
  rfl

/-- A plain recorder fails only with a result that is a fault itself. -/
theorem IsPlain.clerical_recordBest (h : r.IsPlain)
    {result : Except Fault (List (String × Datum))} (hresult : ∀ e, result = .error e → P e) :
    Clerical s P (Search.onSurroundings (r.recordBest result)) := by
  apply Clerical.onSurroundings
  intro w
  obtain ⟨isMade, u, hmake, hu⟩ := Surroundings.tryAccess_cases bestTrouble
    (Files.isTried_makeFolder h.folder) w
  rw [recordBest, Attempt.start_bind_ok hmake]
  cases isMade with
  | false => exact ⟨_, u, rfl, hu, fun _ h => nomatch h⟩
  | true =>
    cases result with
    | error e => exact ⟨_, u, rfl, hu, fun e' he => by cases he; exact hresult e rfl⟩
    | ok fields =>
      obtain ⟨isDone, v, hwrite, hv⟩ := Surroundings.tryAccess_cases bestTrouble
        (h.isTried_writeBest fields) u
      rw [if_pos rfl, Attempt.start_bind_ok (Attempt.start_lift _ _), Attempt.start_bind_ok hwrite]
      cases isDone with
      | false => exact ⟨_, v, rfl, hu.trans hv, fun _ h => nomatch h⟩
      | true => exact ⟨_, _, rfl, hu.trans ⟨hv.now, hv.tick⟩, fun _ h => nomatch h⟩

end Recorder

namespace Search
variable [Strategy α σ] [Printed α]

/-- A search whose recorder, if there is one, is plain. -/
def IsPlain (s : Search α σ τ ρ) : Prop := ∀ recorder, s.recorder = some recorder → recorder.IsPlain

theorem clerical_settle {s : Search α σ τ ρ} (hplain : s.IsPlain) (o : Outcome α) :
    Clerical s (fun _ => False) (settle o) := by
  refine Clerical.read fun w => ?_
  dsimp only
  cases Strategy.note s.strategy with
  | none =>
    cases hr : s.recorder with
    | none => exact Clerical.report _
    | some recorder =>
      exact ((hplain recorder hr).clerical_recordStep _ o).bind fun _ => Clerical.report _
  | some e =>
    refine (Clerical.report e).bind fun _ => ?_
    cases hr : s.recorder with
    | none => exact Clerical.report _
    | some recorder =>
      exact ((hplain recorder hr).clerical_recordStep _ o).bind fun _ => Clerical.report _

variable [ToString τ] [ToString ρ]

/-- The best result of a search that is over cannot be told, though it is to be recorded. -/
structure Untold (s : Search α σ τ ρ) : Prop where
  ended : s.progress.stage = .terminated
  recorded : s.recorder ≠ none
  result : s.result = .error .unwritable

theorem answer_of_clerical {s : Search α σ τ ρ}
    {x : Attempt (Running α σ τ ρ) Unit}
    (h : Clerical s (fun e => e = .unwritable ∧ Untold s) x) (w : Surroundings α) :
    ∃ a w', x.start (s, w) = (a, (s, w')) ∧ SameClock w w' ∧
      (a = .ok () ∨ a = .error .unwritable ∧ Untold s) := by
  obtain ⟨a, w', hstart, hclock, ha⟩ := h w
  refine ⟨a, w', hstart, hclock, ?_⟩
  cases a with
  | ok _ => exact Or.inl rfl
  | error e =>
    obtain ⟨rfl, huntold⟩ := ha e rfl
    exact Or.inr ⟨rfl, huntold⟩

theorem untold_of_result {s : Search α σ τ ρ} {f : Found α τ ρ} (hf : s.progress = .finished f)
    (hknown : f.Known) (hrecorded : s.recorder ≠ none) (e : Fault) (he : s.result = .error e) :
    e = .unwritable ∧ Untold s := by
  have hfault : e = .unwritable := by
    refine fault_of_result (fun g hg => ?_) he
    rw [hf] at hg
    cases hg
    exact hknown
  refine ⟨hfault, by rw [hf]; rfl, hrecorded, ?_⟩
  rw [he, hfault]

/-- Ending a search whose costs are known fails only with a result that cannot be told. -/
theorem terminate_cases {s : Search α σ τ ρ} (hplain : s.IsPlain) (w : Surroundings α)
    {f : Found α τ ρ} (hf : s.progress = .searching f) (hknown : f.Known) :
    ∃ a w', terminate.start (s, w) = (a, ({ s with progress := .finished f }, w')) ∧
      SameClock w w' ∧
        (a = .ok () ∨ a = .error .unwritable ∧ Untold { s with progress := .finished f }) := by
  have hend : ({ s with progress := s.progress.finish } : Search α σ τ ρ) =
      { s with progress := .finished f } := by rw [hf]; rfl
  rw [terminate, Attempt.start_bind_ok (start_onSearch _ _), Attempt.start_modify, hend]
  generalize ht : ({ s with progress := .finished f } : Search α σ τ ρ) = t
  have hover : t.progress = .finished f := by rw [← ht]
  have htplain : t.IsPlain := by rw [← ht]; exact hplain
  obtain ⟨best, hbest⟩ := exists_bestCost (s := t) fun g hg => by
    rw [hover] at hg
    cases hg
    exact hknown
  have hlogged : ∀ P (message : Option α → String), Clerical t P (do
      let best ← Attempt.lift t.bestCost?
      log .info (message best) : Attempt (Running α σ τ ρ) Unit) := by
    intro P message
    rw [hbest]
    exact (Clerical.lift fun _ h => by cases h).bind fun _ => Clerical.report _
  refine answer_of_clerical (Clerical.read fun w => ?_) w
  dsimp only
  cases hr : t.recorder with
  | none => exact hlogged _ _
  | some recorder =>
    have hrecorded : t.recorder ≠ none := by rw [hr]; exact Option.some_ne_none recorder
    exact ((htplain recorder hr).clerical_recordBest
      (untold_of_result hover hknown hrecorded)).bind fun _ => hlogged _ _

theorem conclude_cases [Quantity α] {s : Search α σ τ ρ} (hplain : s.IsPlain)
    (w : Surroundings α) (started : α) (o : Outcome α) {f : Found α τ ρ}
    (hf : s.progress = .searching f) (hknown : f.Known) :
    ∃ a w', (conclude started o).start (s, w) = (a, ({ s with
          solveTime := s.solveTime + (w.ticked.now - started)
          progress := progressOf o.done f }, w')) ∧
      SameClock w.ticked w' ∧
        (a = .ok o ∨ a = .error .unwritable ∧ Untold { s with
          solveTime := s.solveTime + (w.ticked.now - started)
          progress := progressOf o.done f }) := by
  obtain ⟨a, u, hsettle, hu, ha⟩ := clerical_settle hplain o w
  have hok : a = .ok () := by
    cases a with
    | error e => exact absurd rfl (ha e)
    | ok _ => rfl
  rw [hok] at hsettle
  rw [conclude, Attempt.start_bind_ok hsettle, Attempt.start_bind_ok (start_readClock _),
    Attempt.start_bind_ok (start_onSearch _ _), Attempt.start_modify, ← hu.ticked.now]
  dsimp only
  cases hdone : o.done with
  | false =>
    rw [show progressOf false f = s.progress from hf.symm]
    exact ⟨.ok o, u.ticked, rfl, hu.ticked, Or.inl rfl⟩
  | true =>
    have htplain : IsPlain { s with solveTime := s.solveTime + (u.ticked.now - started) } := hplain
    obtain ⟨b, v, hend, hv, hb⟩ := terminate_cases htplain u.ticked hf hknown
    rw [if_pos rfl]
    rcases hb with rfl | ⟨rfl, huntold⟩
    · exact ⟨.ok o, v, (Attempt.start_bind_ok hend).trans rfl, hu.ticked.trans hv, Or.inl rfl⟩
    · exact ⟨_, v, Attempt.start_bind_error hend, hu.ticked.trans hv, Or.inr ⟨rfl, huntold⟩⟩

end Search

namespace Search

theorem known_of_begin_ok {s t : Search α σ τ ρ} {first : Solution α τ ρ} {cost : α}
    (h : begin.start s = (.ok (first, cost), t)) :
    ∃ g, t.progress = .searching g ∧ g.Known := by
  rcases hx : (s.landscape.initial s.kept).start s.source with ⟨a, source⟩
  cases a with
  | error e =>
    rw [begin_of_error hx] at h
    cases h
  | ok first' =>
    rw [begin_of_ok hx] at h
    cases hc : first'.costValue with
    | error e =>
      rw [hc] at h
      cases h
    | ok c =>
      rw [hc] at h
      cases h
      exact ⟨firstFound first, rfl, known_firstFound ⟨cost, hc⟩⟩

variable [Strategy α σ] [Printed α] [ToString τ] [ToString ρ]

def endIfDue (strategy : σ) : Attempt (Running α σ τ ρ) Unit := do
  if ← Attempt.lift (Strategy.stops strategy) then terminate

theorem start_fresh_apply {s : Search α σ τ ρ} (hfresh : s.progress = .fresh)
    (w : Surroundings α) : ∃ note : Entry, start.start (s, w) =
      match begin.start s with
      | (.error e, t) => (.error e, (t, w))
      | (.ok _, t) => (endIfDue t.strategy).start (t, { w with journal := note :: w.journal }) := by
  rw [start, Attempt.start_bind_ok (Attempt.start_get _), hfresh]
  dsimp only
  rw [Attempt.start_bind, start_onSearch]
  rcases hx : begin.start s with ⟨a, t⟩
  cases a with
  | error e => exact ⟨⟨.info, part, ""⟩, rfl⟩
  | ok first =>
    obtain ⟨first, cost⟩ := first
    refine ⟨⟨.info, part, "搜索开始：strategy=" ++ Strategy.name t.strategy ++ ", entries=" ++
      toString first.mapping.size ++ ", initial_cost=" ++ (Printed.datum cost).text⟩, ?_⟩
    dsimp only
    rw [Attempt.start_bind_ok (Attempt.start_get _)]
    rfl

theorem start_of_fresh {s : Search α σ τ ρ} (hfresh : s.progress = .fresh) (w : Surroundings α) :
    ∃ u, SameClock w u ∧ start.start (s, w) =
      match begin.start s with
      | (.error e, t) => (.error e, (t, w))
      | (.ok _, t) => (endIfDue t.strategy).start (t, u) := by
  obtain ⟨note, hstart⟩ := start_fresh_apply hfresh w
  exact ⟨{ w with journal := note :: w.journal }, ⟨rfl, rfl⟩, hstart⟩

end Search

end AssignmentSearch
