import AssignmentSearch.Proofs.Search.Clerical
import AssignmentSearch.Proofs.Search.Driving

/-!
# What a search hands out first

A search asks its landscape for the initial solution when it begins, and keeps what it was given.
Trials, steps and endings do not touch that solution, so what it is like is up to the landscape.
-/

namespace AssignmentSearch

variable {α σ τ ρ : Type}

namespace Search

theorem start_initial {s : Search α σ τ ρ} {first : Solution α τ ρ} {source : Source α}
    (h : (s.landscape.initial s.kept).start s.source = (.ok first, source)) :
    initial.start s = (.ok first, { s with source := source, kept := some first }) := by
  simp only [initial, Attempt.start_bind, Attempt.start_get, start_withSource, h,
    Attempt.start_modify, Attempt.start_pure]

theorem exists_of_start_initial {s t : Search α σ τ ρ} {first : Solution α τ ρ}
    (h : initial.start s = (.ok first, t)) :
    ∃ source, (s.landscape.initial s.kept).start s.source = (.ok first, source) ∧
      t = { s with source := source, kept := some first } := by
  rcases hx : (s.landscape.initial s.kept).start s.source with ⟨_ | first', source⟩
  · simp only [initial, Attempt.start_bind, Attempt.start_get, start_withSource, hx] at h
    cases h
  · rw [start_initial hx] at h
    cases h
    exact ⟨source, rfl, rfl⟩

theorem landscape_initial (s : Search α σ τ ρ) : (initial.start s).2.landscape = s.landscape := by
  rcases hx : (s.landscape.initial s.kept).start s.source with ⟨_ | first, source⟩
  · simp only [initial, Attempt.start_bind, Attempt.start_get, start_withSource, hx]
  · rw [start_initial hx]

end Search

/-- A search in the landscape `L` that keeps an initial solution of a sort `Q` and can only begin
under the condition `C`. -/
structure Search.Given (L : Landscape α τ ρ) (Q : Option (Solution α τ ρ) → Prop) (C : Prop)
    (s : Search α σ τ ρ) : Prop where
  landscape : s.landscape = L
  kept : Q s.kept
  fresh : s.progress = .fresh → C

variable [Quantity α] [Strategy α σ] [Acceptance α σ (Solution α τ ρ)]

/-- The sort of what is kept is up to the landscape. -/
theorem kept_given {L : Landscape α τ ρ} {Q : Option (Solution α τ ρ) → Prop} {C : Prop}
    (hQ : C → ∀ kept source first source', Q kept →
      (L.initial kept).start source = (.ok first, source') → Q (some first.evaluated)) :
    Kept fun (_ : List (Event α τ ρ)) (s : Search α σ τ ρ) => s.Given L Q C where
  fault h _ _ := ⟨h.landscape, h.kept, h.fresh⟩
  begin := by
    rintro l s first source ⟨rfl, hkept, hfresh⟩ hs hfirst
    exact ⟨rfl, hQ (hfresh hs) _ _ _ _ hkept hfirst, fun h => nomatch h⟩
  trial := by
    rintro l s b ⟨hL, hkept, hfresh⟩
    obtain ⟨source, trials, ht, -⟩ := Search.start_trial_state b s
    rw [ht]
    refine ⟨hL, hkept, fun h => hfresh ?_⟩
    rw [Search.progressAfter] at h
    cases hm : Search.meeting? s with
    | none => rwa [hm] at h
    | some m =>
      rw [hm] at h
      exact Progress.fresh_of_holding h
  count h := ⟨h.landscape, h.kept, h.fresh⟩
  age h _ := ⟨h.landscape, h.kept, h.fresh⟩
  told _ _ h _ := h
  finish h := ⟨h.landscape, h.kept, fun hs => h.fresh (Progress.fresh_of_finish hs)⟩
  time _ h := ⟨h.landscape, h.kept, h.fresh⟩

variable [Printed α] [ToString τ] [ToString ρ] {Q : Search α σ τ ρ → Prop}

theorem Call.landscape_run (c : Call) (r : Running α σ τ ρ) :
    (c.run.start r).2.1.landscape = r.1.landscape := by
  have hgiven := kept_given (σ := σ) (L := r.1.landscape) (Q := fun _ => True) (C := True)
    fun _ _ _ _ _ _ _ => trivial
  exact (hgiven.enduring.attended.call c (l := []) (r := r)
    ⟨rfl, trivial, fun _ => trivial⟩).landscape

namespace Kept

/-- What is kept holds of a search that has just begun, if it holds of the one that has its first
solution. -/
theorem start_of_begin (hQ : Kept fun (_ : List (Event α τ ρ)) => Q) {r : Running α σ τ ρ}
    (hfresh : r.1.progress = .fresh) (h : Q (Search.begin.start r.1).2) :
    Q (Search.start.start r).2.1 := by
  obtain ⟨s, w⟩ := r
  obtain ⟨u, -, hstart⟩ := Search.start_of_fresh hfresh w
  rw [hstart]
  rcases hx : Search.begin.start s with ⟨_ | first, t⟩
  · rw [hx] at h
    exact h
  · rw [hx] at h
    dsimp only
    rw [Search.endIfDue, Attempt.start_bind, Attempt.start_lift]
    cases Strategy.stops t.strategy with
    | error e => exact h
    | ok isToStop =>
      cases isToStop with
      | false => exact h
      | true => exact hQ.enduring.terminate (l := []) (r := (t, u)) h

theorem call_of_start (hQ : Kept fun (_ : List (Event α τ ρ)) => Q) (c : Call)
    {r : Running α σ τ ρ} (h : Q (Search.start.start r).2.1) : Q (c.run.start r).2.1 := by
  rcases hx : Search.start.start r with ⟨e | _, t⟩ <;> rw [hx] at h
  · have hfault : c.run.start r = (.error e, t) := by
      cases c with
      | start => exact hx
      | step => rw [Call.run, Attempt.start_bind_error (Search.step_of_start_error hx).1]
      | solve limit => rw [Call.run, Attempt.start_bind_error (Search.solve_of_start_error hx limit)]
    rw [hfault]
    exact h
  · obtain ⟨f, hf⟩ := Search.found_of_start_ok hx
    have hsame : c.run.start r = c.run.start t := by
      cases c with
      | start => exact hx.trans (Search.start_of_found hf).symm
      | step =>
        rw [Call.run, Attempt.start_bind, Attempt.start_bind, (Search.step_of_start hx hf).1]
      | solve limit =>
        rw [Call.run, Attempt.start_bind, Attempt.start_bind, Search.solve_of_start hx limit]
    rw [hsame]
    exact hQ.enduring.attended.call c (l := []) h

end Kept
end AssignmentSearch
