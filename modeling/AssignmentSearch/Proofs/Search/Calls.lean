import AssignmentSearch.Proofs.Search.Runs

/-!
# Calls keep invariants

Records, reports and the clock leave the search alone. So what every change of a search keeps holds
after any sequence of calls.
-/

namespace AssignmentSearch

variable {α σ τ ρ β γ : Type}

def Idle (x : Attempt (Running α σ τ ρ) β) : Prop := ∀ r, (x.start r).2.1 = r.1

namespace Idle

theorem pure (a : β) : Idle (Pure.pure a : Attempt (Running α σ τ ρ) β) := fun _ => rfl

theorem lift (x : Except Fault β) : Idle (Attempt.lift x : Attempt (Running α σ τ ρ) β) :=
  fun _ => rfl

theorem get : Idle (MonadState.get : Attempt (Running α σ τ ρ) (Running α σ τ ρ)) := fun _ => rfl

theorem bind {x : Attempt (Running α σ τ ρ) β} {f : β → Attempt (Running α σ τ ρ) γ} (hx : Idle x)
    (hf : ∀ a, Idle (f a)) : Idle (x >>= f) := by
  intro r
  have hr := hx r
  rw [Attempt.start_bind]
  rcases hs : x.start r with ⟨a, t⟩
  rw [hs] at hr
  cases a with
  | error e => exact hr
  | ok a => exact (hf a t).trans hr

theorem onSurroundings (x : Attempt (Surroundings α) β) :
    Idle (Search.onSurroundings x : Attempt (Running α σ τ ρ) β) := fun _ => rfl

theorem keep {Q : Search α σ τ ρ → Prop} {x : Attempt (Running α σ τ ρ) β}
    {f : β → Attempt (Running α σ τ ρ) γ} (hx : Idle x)
    (hf : ∀ a (r : Running α σ τ ρ), Q r.1 → Q ((f a).start r).2.1) {r : Running α σ τ ρ}
    (h : Q r.1) : Q ((x >>= f).start r).2.1 := by
  have hr := hx r
  rw [Attempt.start_bind]
  rcases hs : x.start r with ⟨a, t⟩
  rw [hs] at hr
  rw [← hr] at h
  cases a with
  | error e => exact h
  | ok a => exact hf a t h

end Idle

namespace Search

theorem start_readClock [Quantity α] (r : Running α σ τ ρ) :
    (onSurroundings Surroundings.readClock).start r =
      (.ok (r.2.now + r.2.tick), (r.1, { r.2 with now := r.2.now + r.2.tick })) := rfl

theorem start_onSearch (x : Attempt (Search α σ τ ρ) β) (r : Running α σ τ ρ) :
    (onSearch x).start r = ((x.start r.1).1, ((x.start r.1).2, r.2)) := rfl

theorem idle_log (level : Level) (message : String) :
    Idle (log level message : Attempt (Running α σ τ ρ) Unit) :=
  Idle.onSurroundings _

variable [Strategy α σ] [Printed α]

theorem idle_settle (o : Outcome α) : Idle (settle o : Attempt (Running α σ τ ρ) Unit) := by
  refine Idle.get.bind fun r => ?_
  obtain ⟨s, w⟩ := r
  dsimp only
  cases Strategy.note s.strategy with
  | none =>
    cases s.recorder with
    | none => exact idle_log _ _
    | some recorder => exact (Idle.onSurroundings _).bind fun _ => idle_log _ _
  | some e =>
    refine (Idle.onSurroundings _).bind fun _ => ?_
    cases s.recorder with
    | none => exact idle_log _ _
    | some recorder => exact (Idle.onSurroundings _).bind fun _ => idle_log _ _

variable [ToString τ] [ToString ρ]

def conclude [Quantity α] (started : α) (o : Outcome α) :
    Attempt (Running α σ τ ρ) (Outcome α) := do
  settle o
  let ended ← onSurroundings Surroundings.readClock
  onSearch (modify fun s => { s with solveTime := s.solveTime + (ended - started) })
  if o.done then terminate
  return o

theorem start_of_searching [Quantity α] {r : Running α σ τ ρ} {f : Found α τ ρ}
    (hf : r.1.progress = .searching f) : start.start r = (.ok (), r) := by
  rw [start, Attempt.start_bind_ok (Attempt.start_get r), hf]
  rfl

theorem step_of_searching [Quantity α] [Acceptance α σ (Solution α τ ρ)] {r : Running α σ τ ρ}
    {f : Found α τ ρ} (hf : r.1.progress = .searching f) :
    step.start r =
      match (advance f).start r.1 with
      | (.error e, s) => (.error e, (s, { r.2 with now := r.2.now + r.2.tick }))
      | (.ok o, s) =>
        (conclude (r.2.now + r.2.tick) o).start (s, { r.2 with now := r.2.now + r.2.tick }) := by
  rw [step, Attempt.start_bind_ok (start_of_searching hf), Attempt.start_bind_ok (Attempt.start_get r)]
  simp only [hf]
  rw [Attempt.start_bind_ok (start_readClock r), Attempt.start_bind, start_onSearch]
  rcases (advance f).start r.1 with ⟨a, s⟩
  cases a <;> rfl

theorem terminate_search (r : Running α σ τ ρ) :
    (terminate.start r).2.1 = { r.1 with progress := r.1.progress.finish } := by
  rw [terminate, Attempt.start_bind]
  refine Idle.bind Idle.get (fun s => ?_) _
  obtain ⟨s, w⟩ := s
  dsimp only
  cases s.recorder with
  | none => exact (Idle.lift _).bind fun _ => idle_log _ _
  | some recorder =>
    exact (Idle.onSurroundings _).bind fun _ => (Idle.lift _).bind fun _ => idle_log _ _

end Search

/-- A property of the log and the search that every part of a call keeps: the beginning, the trials
of a step, the ending and the time. -/
structure Enduring [Quantity α] [Strategy α σ] [Acceptance α σ (Solution α τ ρ)]
    (P : List (Event α τ ρ) → Search α σ τ ρ → Prop) : Prop where
  beginning : ∀ {l s}, s.progress = .fresh → P l s → P l (Search.begin.start s).2
  advance : ∀ {l f s}, s.progress = .searching f → P l s →
    P (l ++ Search.turnLog f s) ((Search.advance f).start s).2
  finish : ∀ {l s}, P l s → P l { s with progress := s.progress.finish }
  time : ∀ {l s} (x : α), P l s → P l { s with solveTime := x }

variable [Quantity α] [Strategy α σ]
  [Acceptance α σ (Solution α τ ρ)] [Printed α] [ToString τ] [ToString ρ]

/-- A property of the log and of a search in its surroundings that beginning keeps, and so does a
step of a search under way. -/
structure Attended (P : List (Event α τ ρ) → Running α σ τ ρ → Prop) : Prop where
  start : ∀ {l r}, P l r → P l (Search.start.start r).2
  turn : ∀ {l f r}, r.1.progress = .searching f → P l r →
    P (l ++ Search.stepLog r) (Search.step.start r).2

namespace Attended

variable {P : List (Event α τ ρ) → Running α σ τ ρ → Prop}

theorem step (hP : Attended P) {l : List (Event α τ ρ)} {r : Running α σ τ ρ} (h : P l r) :
    P (l ++ Search.stepLog r) (Search.step.start r).2 := by
  have hstart := hP.start h
  rcases hx : Search.start.start r with ⟨a, t⟩
  rw [hx] at hstart
  cases a with
  | error e =>
    rw [Search.step, Search.stepLog, hx, Attempt.start_bind_error hx, List.append_nil]
    exact hstart
  | ok _ =>
    cases hf : t.1.progress with
    | searching f =>
      have hturn := hP.turn hf hstart
      have ht := Search.start_of_searching hf
      have hstep : Search.step.start r = Search.step.start t := by
        rw [Search.step, Attempt.start_bind_ok hx, Attempt.start_bind_ok ht]
      have hlog : Search.stepLog r = Search.stepLog t := by
        rw [Search.stepLog, Search.stepLog, hx, ht]
      rw [hstep, hlog]
      exact hturn
    | _ =>
      rw [Search.step, Search.stepLog, hx, Attempt.start_bind_ok hx,
        Attempt.start_bind_ok (Attempt.start_get t)]
      simpa [hf] using hstart

theorem drive (hP : Attended P) (n : Nat) {l : List (Event α τ ρ)} {r : Running α σ τ ρ}
    (h : P l r) : P (l ++ Search.driveLog n r) ((Search.drive n).start r).2 := by
  induction n generalizing l r with
  | zero =>
    rw [Search.driveLog, List.append_nil]
    exact h
  | succ n ih =>
    rw [Search.drive, Search.driveLog, Attempt.start_bind_ok (Attempt.start_get r)]
    by_cases hs : r.1.progress.stage = .searching
    · have hstep := hP.step h
      rw [if_pos hs, if_pos hs, ← List.append_assoc]
      rcases hx : Search.step.start r with ⟨a, t⟩
      rw [hx] at hstep
      cases a with
      | error e =>
        rw [Attempt.start_bind_error hx, List.append_nil]
        exact hstep
      | ok o =>
        rw [Attempt.start_bind_ok hx]
        exact ih hstep
    · rw [if_neg hs, if_neg hs, List.append_nil]
      exact h

theorem solve (hP : Attended P) (limit : Nat) {l : List (Event α τ ρ)} {r : Running α σ τ ρ}
    (h : P l r) : P (l ++ (Call.solve limit).log r) ((Search.solve limit).start r).2 := by
  have hstart := hP.start h
  rw [Search.solve, Call.log]
  rcases hx : Search.start.start r with ⟨a, t⟩
  rw [hx] at hstart
  cases a with
  | error e =>
    rw [Attempt.start_bind_error hx, List.append_nil]
    exact hstart
  | ok a =>
    have hdrive := hP.drive limit hstart
    rw [Attempt.start_bind_ok hx, Attempt.start_bind]
    rcases hy : (Search.drive limit).start t with ⟨b, u⟩
    rw [hy] at hdrive
    cases b with
    | error e => exact hdrive
    | ok isOver => cases isOver <;> exact hdrive

theorem call (hP : Attended P) (c : Call) {l : List (Event α τ ρ)} {r : Running α σ τ ρ}
    (h : P l r) : P (l ++ c.log r) (c.run.start r).2 := by
  cases c with
  | start =>
    rw [Call.log, List.append_nil]
    exact hP.start h
  | step =>
    have hstep := hP.step h
    rw [Call.run, Attempt.start_bind]
    rcases hx : Search.step.start r with ⟨a, t⟩
    rw [hx] at hstep
    cases a <;> exact hstep
  | solve limit =>
    have hsolve := hP.solve limit h
    rw [Call.run, Attempt.start_bind]
    rcases hx : (Search.solve limit).start r with ⟨a, t⟩
    rw [hx] at hsolve
    cases a <;> exact hsolve

theorem calls (hP : Attended P) (calls : List Call) {l : List (Event α τ ρ)}
    {r : Running α σ τ ρ} (h : P l r) : P (l ++ Call.logs calls r) (Call.after calls r) := by
  induction calls generalizing l r with
  | nil =>
    rw [Call.logs, List.append_nil]
    exact h
  | cons c rest ih =>
    rw [Call.logs, Call.after, ← List.append_assoc]
    exact ih (hP.call c h)

theorem run (hP : Attended P) (calls : List Call) {r : Running α σ τ ρ} (h : P [] r) :
    P (Call.logs calls r) (Call.after calls r) := by
  simpa using hP.calls calls h

end Attended

namespace Enduring

variable {P : List (Event α τ ρ) → Search α σ τ ρ → Prop}

theorem terminate (hP : Enduring P) {l : List (Event α τ ρ)} {r : Running α σ τ ρ} (h : P l r.1) :
    P l (Search.terminate.start r).2.1 := by
  rw [Search.terminate_search]
  exact hP.finish h

theorem start (hP : Enduring P) {l : List (Event α τ ρ)} {r : Running α σ τ ρ} (h : P l r.1) :
    P l (Search.start.start r).2.1 := by
  rw [Search.start, Attempt.start_bind_ok (Attempt.start_get r)]
  cases hf : r.1.progress with
  | searching f => exact h
  | finished f => exact h
  | fresh =>
    have hbegin := hP.beginning hf h
    dsimp only
    rw [Attempt.start_bind]
    rcases hx : (Search.onSearch Search.begin).start r with ⟨a, t⟩
    have ht : t.1 = (Search.begin.start r.1).2 := by
      rw [Search.onSearch, Attempt.start_zoom] at hx
      cases hx
      rfl
    rw [← ht] at hbegin
    cases a with
    | error e => exact hbegin
    | ok a =>
      refine Idle.get.keep (fun s u hu => ?_) hbegin
      refine (Search.idle_log _ _).keep (fun _ v hv => ?_) hu
      refine (Idle.lift _).keep (fun stops w hw => ?_) hv
      cases stops with
      | false => exact hw
      | true => exact hP.terminate hw

theorem conclude (hP : Enduring P) {l : List (Event α τ ρ)} {r : Running α σ τ ρ} (started : α)
    (o : Outcome α) (h : P l r.1) : P l ((Search.conclude started o).start r).2.1 := by
  refine (Search.idle_settle o).keep (fun _ s hs => ?_) h
  refine (Idle.onSurroundings _).keep (fun ended t ht => ?_) hs
  have htime := hP.time (t.1.solveTime + (ended - started)) ht
  rw [Attempt.start_bind, Search.start_onSearch, Attempt.start_modify]
  dsimp only
  cases o.done with
  | false => exact htime
  | true =>
    have hend := hP.terminate (r := (_, t.2)) htime
    rw [if_pos rfl, Attempt.start_bind]
    rcases hx : Search.terminate.start ({ t.1 with
      solveTime := t.1.solveTime + (ended - started) }, t.2) with ⟨a, u⟩
    rw [hx] at hend
    cases a <;> exact hend

theorem attended (hP : Enduring P) : Attended fun l (r : Running α σ τ ρ) => P l r.1 where
  start := hP.start
  turn := by
    intro l f r hf h
    have hadvance := hP.advance hf h
    rw [Search.step_of_searching hf, Search.stepLog, Search.start_of_searching hf]
    simp only [hf]
    rcases hx : (Search.advance f).start r.1 with ⟨a, s⟩
    rw [hx] at hadvance
    cases a with
    | error e => exact hadvance
    | ok o => exact hP.conclude _ o hadvance

end Enduring

namespace Kept

variable {P : List (Event α τ ρ) → Search α σ τ ρ → Prop}

omit [Printed α] [ToString τ] [ToString ρ] in
theorem enduring (hP : Kept P) : Enduring P where
  beginning hf h := hP.beginning hf h
  advance hf h := hP.advance hf h
  finish h := hP.finish h
  time x h := hP.time x h

theorem start (hP : Kept P) {l : List (Event α τ ρ)} {r : Running α σ τ ρ} (h : P l r.1) :
    P l (Search.start.start r).2.1 := hP.enduring.start h

theorem step (hP : Kept P) {l : List (Event α τ ρ)} {r : Running α σ τ ρ} (h : P l r.1) :
    P (l ++ Search.stepLog r) (Search.step.start r).2.1 := hP.enduring.attended.step h

theorem solve (hP : Kept P) (limit : Nat) {l : List (Event α τ ρ)} {r : Running α σ τ ρ}
    (h : P l r.1) : P (l ++ (Call.solve limit).log r) ((Search.solve limit).start r).2.1 :=
  hP.enduring.attended.solve limit h

/-- What every change of a search keeps holds after any sequence of calls. -/
theorem calls (hP : Kept P) (calls : List Call) {l : List (Event α τ ρ)} {r : Running α σ τ ρ}
    (h : P l r.1) : P (l ++ Call.logs calls r) (Call.after calls r).1 :=
  hP.enduring.attended.calls calls h

theorem run (hP : Kept P) (calls : List Call) {r : Running α σ τ ρ} (h : P [] r.1) :
    P (Call.logs calls r) (Call.after calls r).1 := hP.enduring.attended.run calls h

end Kept

namespace Call

theorem logs_eq_nil_or_found (calls : List Call) {r : Running α σ τ ρ}
    (hfresh : r.1.progress = .fresh) :
    logs calls r = [] ∨ ∃ f, (after calls r).1.progress.found? = some f := by
  have hlasting : Lasting fun (_ : List (Event α τ ρ)) _ _ => True :=
    ⟨fun _ => trivial, fun _ _ _ => trivial⟩
  have hrun := (hlasting.kept_holds fun _ => trivial).run (σ := σ) calls (r := r)
    (Or.inl ⟨hfresh, rfl⟩)
  rcases hrun with ⟨-, hnil⟩ | ⟨f, -, hf, -⟩
  · exact Or.inl hnil
  · exact Or.inr ⟨f, hf⟩

theorem begun_after_append {earlier : List Call} (later : List Call) {r : Running α σ τ ρ}
    {f : Found α τ ρ} {first : Solution α τ ρ} (hf : (after earlier r).1.progress.found? = some f)
    (hkept : (after earlier r).1.kept = some first) :
    (∃ g, (after (earlier ++ later) r).1.progress.found? = some g) ∧
      (after (earlier ++ later) r).1.kept = some first := by
  have hlasting : Lasting fun (_ : List (Event α τ ρ)) _ given => given = first :=
    ⟨id, fun _ h _ => h⟩
  have hlater := hlasting.kept.calls (σ := σ) later (l := []) (r := after earlier r)
    ⟨f, first, hf, hkept, rfl⟩
  rw [← after_append] at hlater
  obtain ⟨g, _, hg, hkept', rfl⟩ := hlater
  exact ⟨⟨g, hg⟩, hkept'⟩

end Call

end AssignmentSearch
