import AssignmentSearch.Proofs.Search.Recording

/-!
# Twins

Two searches that differ in the time they have taken, and have no recorder, answer alike whatever is
asked of them and stay twins, each in its own surroundings. Their summaries are the same but for the
time.
-/

namespace AssignmentSearch

variable {α σ τ ρ β γ : Type}

inductive Matches (R : β → β → Prop) : Except Fault β → Except Fault β → Prop
  | error (e : Fault) : Matches R (.error e) (.error e)
  | ok {a b : β} (related : R a b) : Matches R (.ok a) (.ok b)

theorem Matches.of_eq {x y : Except Fault β} (h : y = x) : Matches (fun a b => b = a) x y := by
  subst h
  cases y with
  | error e => exact .error e
  | ok a => exact .ok rfl

theorem Matches.map {R : β → β → Prop} {S : γ → γ → Prop} {x y : Except Fault β} {f : β → γ}
    (h : Matches R x y) (hf : ∀ a b, R a b → S (f a) (f b)) : Matches S (x.map f) (y.map f) := by
  cases h with
  | error e => exact .error e
  | ok related => exact .ok (hf _ _ related)

/-- The same search, but for the time it has taken. Nothing is recorded. -/
inductive Twin : Search α σ τ ρ → Search α σ τ ρ → Prop
  | of {s : Search α σ τ ρ} (unrecorded : s.recorder = none) (time : α) :
      Twin s (s.disguised none time)

def Datum.untimed : Datum → Datum
  | .dict entries => .dict (entries.filter fun e => match e.1 with
    | .str name => name ≠ "solve_time"
    | _ => true)
  | d => d

namespace Twin

variable {s s' : Search α σ τ ρ}

theorem refl (h : s.recorder = none) : Twin s s := by
  have hsame : s.disguised none s.solveTime = s := by rw [Search.disguised, ← h]
  have htwin := Twin.of h s.solveTime
  rwa [hsame] at htwin

theorem recorder_eq (h : Twin s s') : s.recorder = none := by
  cases h
  assumption

theorem of_shadow {timed : Prop} {r r' : Running α σ τ ρ} (h : Shadow timed r r')
    (hplain : r.1.recorder = none) : Twin r.1 r'.1 := by
  cases h
  exact .of hplain _

theorem progress_eq (h : Twin s s') : s'.progress = s.progress := by
  cases h
  rfl

theorem snapshot [Strategy α σ] [Printed α] (h : Twin s s') :
    Matches (fun a b => (Datum.object b).untimed = (Datum.object a).untimed) s.snapshot
      s'.snapshot := by
  cases h with
  | of hplain time =>
    have hcurrent : (s.disguised none time).currentCost? = s.currentCost? := rfl
    have hbest : (s.disguised none time).bestCost? = s.bestCost? := rfl
    rw [Search.snapshot, Search.snapshot, hcurrent, hbest]
    cases s.currentCost? with
    | error e => exact .error e
    | ok current =>
      cases s.bestCost? with
      | error e => exact .error e
      | ok best =>
        apply Matches.ok
        simp [Datum.untimed, Datum.object, Search.disguised]

section
variable [ToString τ] [ToString ρ]

theorem tell (h : Twin s s') (m : Mapping τ ρ) : s'.tell m = s.tell m := by
  cases h
  rfl

theorem tellCurrent (h : Twin s s') : s'.tellCurrent = s.tellCurrent := by
  cases h
  rfl

theorem tellBest (h : Twin s s') : s'.tellBest = s.tellBest := by
  cases h
  rfl

end

theorem shadow (h : Twin s s') (w w' : Surroundings α) : Shadow False (s, w) (s', w') := by
  cases h with
  | of hplain time =>
    refine .of (fun recorder hrecorder => ?_) False.elim
    rw [hplain] at hrecorder
    cases hrecorder

variable [Strategy α σ] [Printed α] [ToString τ] [ToString ρ]

/-- Twins answer alike and stay twins, as there is nothing to be recorded that could not be told. -/
theorem of_follows {timed : Prop} {x : Attempt (Running α σ τ ρ) β} {r r' : Running α σ τ ρ}
    (h : Follows timed x r r') (hplain : (x.start r).2.1.recorder = none) :
    (x.start r').1 = (x.start r).1 ∧ Twin (x.start r).2.1 (x.start r').2.1 := by
  obtain ⟨hshadow, hanswers⟩ := h
  refine ⟨?_, of_shadow hshadow hplain⟩
  generalize (x.start r).1 = answer, (x.start r').1 = answer' at hanswers
  cases hanswers with
  | same => rfl
  | untold a under huntold => exact absurd hplain huntold.recorded

end Twin

/-- An attempt that makes no difference between twins. -/
def Agrees (x : Attempt (Running α σ τ ρ) β) : Prop :=
  ∀ s s' w w', Twin s s' → (x.start (s', w')).1 = (x.start (s, w)).1 ∧
    Twin (x.start (s, w)).2.1 (x.start (s', w')).2.1

namespace Search
variable [Quantity α] [Strategy α σ]
  [Acceptance α σ (Solution α τ ρ)] [Printed α] [ToString τ] [ToString ρ]

theorem agrees_start : Agrees (start : Attempt (Running α σ τ ρ) Unit) := by
  intro s s' w w' h
  apply Twin.of_follows (h.shadow w w').start
  exact (kept_recorder none).start (l := []) (r := (s, w)) h.recorder_eq

theorem agrees_step : Agrees (step : Attempt (Running α σ τ ρ) (Outcome α)) := by
  intro s s' w w' h
  apply Twin.of_follows (h.shadow w w').step
  exact (kept_recorder none).step (l := []) (r := (s, w)) h.recorder_eq

theorem agrees_solve (limit : Nat) :
    Agrees (solve limit : Attempt (Running α σ τ ρ) (Option (Solution α τ ρ))) := by
  intro s s' w w' h
  apply Twin.of_follows ((h.shadow w w').solve limit)
  exact (kept_recorder none).solve limit (l := []) (r := (s, w)) h.recorder_eq

end Search
end AssignmentSearch
