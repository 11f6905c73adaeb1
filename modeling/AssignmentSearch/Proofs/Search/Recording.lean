import AssignmentSearch.Placement.Landscape
import AssignmentSearch.Proofs.Search.Shadows
import AssignmentSearch.Strategy.Plan
import Mathlib.Algebra.Group.Int.Defs

/-!
# Recording is transparent

A search with a recorder goes where the same search goes without one, whatever accesses to files are
refused. Its calls are answered alike too, but for one: the call that ends a search whose best result
cannot be told.
-/

namespace AssignmentSearch

variable {α σ τ ρ : Type} [Quantity α] [Strategy α σ]
  [Acceptance α σ (Solution α τ ρ)] [Printed α] [ToString τ] [ToString ρ]

theorem Shadow.run {timed : Prop} {r r' : Running α σ τ ρ} (h : Shadow timed r r') (c : Call) :
    Shadow timed (c.run.start r).2 (c.run.start r').2 := by
  cases c with
  | start => exact h.start.1
  | step =>
    have hstep := h.step.1
    rw [Call.run, Attempt.start_bind, Attempt.start_bind]
    rcases hx : Search.step.start r with ⟨a, t⟩
    rcases hx' : Search.step.start r' with ⟨a', t'⟩
    rw [hx, hx'] at hstep
    cases a <;> cases a' <;> exact hstep
  | solve limit =>
    have hsolve := (h.solve limit).1
    rw [Call.run, Attempt.start_bind, Attempt.start_bind]
    rcases hx : (Search.solve limit).start r with ⟨a, t⟩
    rcases hx' : (Search.solve limit).start r' with ⟨a', t'⟩
    rw [hx, hx'] at hsolve
    cases a <;> cases a' <;> exact hsolve

theorem Shadow.after {timed : Prop} {r r' : Running α σ τ ρ} (h : Shadow timed r r')
    (calls : List Call) : Shadow timed (Call.after calls r) (Call.after calls r') := by
  induction calls generalizing r r' with
  | nil => exact h
  | cons c rest ih => exact ih (h.run c)

omit [Printed α] [ToString τ] [ToString ρ] in
theorem kept_recorder (recorder : Option Recorder) :
    Kept fun (_ : List (Event α τ ρ)) (s : Search α σ τ ρ) => s.recorder = recorder where
  fault h _ _ := h
  begin h _ _ := h
  trial := by
    intro l s b h
    obtain ⟨source, trials, ht, -⟩ := Search.start_trial_state b s
    rw [ht]
    exact h
  count h := h
  age h _ := h
  told _ _ h _ := h
  finish h := h
  time _ h := h

/-- What a caller sees of a search that is recorded, `r`, and of the same search without records:
the searches differ in the recorder only, the clocks go together, and so do the answers to the next
call. -/
structure Transparent (recorder : Recorder) (r r' : Running α σ τ ρ) : Prop where
  search : r.1 = { r'.1 with recorder := some recorder }
  clock : SameClock r.2 r'.2
  snapshot : r.1.snapshot = r'.1.snapshot
  start : Answers r.1 (Search.start.start r).2.1 (Search.start.start r).1
    (Search.start.start r').1
  step : Answers r.1 (Search.step.start r).2.1 (Search.step.start r).1 (Search.step.start r').1
  solve : ∀ limit, Answers r.1 ((Search.solve limit).start r).2.1
    ((Search.solve limit).start r).1 ((Search.solve limit).start r').1

theorem Shadow.transparent {recorder : Recorder} {r r' : Running α σ τ ρ} (h : Shadow True r r')
    (hrecorder : r.1.recorder = some recorder) : Transparent recorder r r' where
  search := by
    cases h with
    | @of s w w' time hplain hclock =>
      rw [Search.disguised, (hclock trivial).1, ← hrecorder]
  clock := by
    cases h with
    | of hplain hclock => exact (hclock trivial).2
  snapshot := by
    cases h with
    | @of s w w' time hplain hclock =>
      rw [(hclock trivial).1]
      rfl
  start := h.start.2
  step := h.step.2
  solve limit := (h.solve limit).2

/-- Whatever a search works on and whatever accesses are refused, after any calls it is where it would
be without its recorder, and its answers are those it would give without, unless the call ends the
search and the best result cannot be told. -/
theorem recording_is_transparent {recorder : Recorder} (hplain : recorder.IsPlain) (strategy : σ)
    (landscape : Landscape α τ ρ) (source : Source α) (searches : Datum) {w w' : Surroundings α}
    (hclock : SameClock w w') (calls : List Call) :
    Transparent recorder
      (Call.after calls (Search.fresh strategy landscape source searches (some recorder), w))
      (Call.after calls (Search.fresh strategy landscape source searches none, w')) := by
  have hfirst : Shadow True (Search.fresh strategy landscape source searches (some recorder), w)
      (Search.fresh strategy landscape source searches none, w') := by
    refine Shadow.of (s := Search.fresh strategy landscape source searches (some recorder))
      (fun given hgiven => ?_) fun _ => ⟨rfl, hclock⟩
    cases hgiven
    exact hplain
  apply (hfirst.after calls).transparent
  exact (kept_recorder (some recorder)).calls calls (l := [])
    (r := (Search.fresh strategy landscape source searches (some recorder), w)) rfl

/-- A search for the place of one machine, which has an identifier that cannot be written. -/
def longSearch (recorder : Option Recorder) : Running Float (Plan Float) (Vm Int) (Host Int) :=
  (.fresh (.gravity ⟨⟨0, 1⟩⟩) (Placement.landscape [⟨10 ^ 4300, 1⟩] [⟨0, 1⟩])
    (.repeating [.real 0.5]) (.int 1) recorder, ⟨0, 1, .empty, []⟩)

/-- The last step of a recorded search fails where the one without records is answered. -/
theorem recording_is_transparent_long :
    Transparent ⟨⟨"", ["records"]⟩, "a"⟩
        (Call.after [.start] (longSearch (some ⟨⟨"", ["records"]⟩, "a"⟩)))
        (Call.after [.start] (longSearch none)) ∧
      (Search.step.start (Call.after [.start]
        (longSearch (some ⟨⟨"", ["records"]⟩, "a"⟩)))).1.isOk = false ∧
      (Search.step.start (Call.after [.start] (longSearch none))).1.isOk = true := by
  have hplain : (⟨⟨"", ["records"]⟩, "a"⟩ : Recorder).IsPlain := by
    refine ⟨?_, ?_, ?_⟩ <;> decide +kernel
  exact ⟨recording_is_transparent hplain _ _ _ _ .rfl [.start], by decide +kernel,
    by decide +kernel⟩

end AssignmentSearch
