import AssignmentSearch.Proofs.Search.Calls

/-!
# Classes of solutions

If the solutions that a landscape hands out stay in a class, and if each candidate is related to the
solution it is near, then so it is for all solutions of a run.
-/

namespace AssignmentSearch

open Event

variable {α σ τ ρ : Type} {I : Solution α τ ρ → Prop} {N : Solution α τ ρ → Solution α τ ρ → Prop}

structure Landscape.Confines (L : Landscape α τ ρ) (I : Solution α τ ρ → Prop)
    (N : Solution α τ ρ → Solution α τ ρ → Prop) : Prop where
  initial : ∀ {kept source first source'}, (∀ x, kept = some x → I x) →
    (L.initial kept).start source = (.ok first, source') → I first.evaluated
  neighbor : ∀ {n near source c source'}, I near →
    (L.neighbor n near).start source = (.ok c, source') → I c.evaluated ∧ N near c.evaluated

structure Meeting.Within (I : Solution α τ ρ → Prop) (N : Solution α τ ρ → Solution α τ ρ → Prop)
    (m : Meeting α τ ρ) : Prop where
  current : I m.found.current.solution
  candidate : I m.candidate.solution
  related : N m.found.current.solution m.candidate.solution

/-- All solutions lie in a class, and so do those to come. -/
structure Confined (I : Solution α τ ρ → Prop) (N : Solution α τ ρ → Solution α τ ρ → Prop)
    (l : List (Event α τ ρ)) (s : Search α σ τ ρ) : Prop where
  landscape : s.landscape.Confines I N
  kept : ∀ x, s.kept = some x → I x
  current : ∀ f, s.progress.found? = some f → I f.current.solution
  log : ∀ m ∈ metIn l, m.Within I N

variable [Quantity α] [Strategy α σ] [Acceptance α σ (Solution α τ ρ)]

theorem kept_confined : Kept (σ := σ) (Confined I N) where
  fault h _ _ := ⟨h.landscape, h.kept, h.current, h.log⟩
  begin := by
    intro l s first source h _ hfirst
    have hI := h.landscape.initial h.kept hfirst
    refine ⟨h.landscape, fun x hx => ?_, fun f hf => ?_, h.log⟩
    · cases hx
      exact hI
    · cases hf
      exact hI
  trial := by
    intro l s b h
    obtain ⟨source, trials, ht, -⟩ := Search.start_trial_state b s
    rw [ht]
    cases hm : Search.meeting? s with
    | none =>
      rw [Option.toList_none, List.map_nil, List.append_nil, Search.progressAfter, hm]
      exact ⟨h.landscape, h.kept, h.current, h.log⟩
    | some m =>
      have hfound := Search.found_of_meeting hm
      have hcurrent := h.current _ hfound
      obtain ⟨c, source', hc, hcandidate, -⟩ := Search.candidate_of_meeting hm
      have hwithin : m.Within I N := by
        obtain ⟨hI, hN⟩ := h.landscape.neighbor hcurrent hc
        refine ⟨hcurrent, ?_, ?_⟩ <;> rw [hcandidate]
        · exact hI
        · exact hN
      refine ⟨h.landscape, h.kept, fun f hf => ?_, fun n hn => ?_⟩
      · rw [Search.progressAfter, hm] at hf
        simp only [Progress.found?_holding hfound] at hf
        cases hf
        rcases m.after_current with hafter | hafter <;> rw [hafter]
        · exact hwithin.candidate
        · exact hcurrent
      · rcases mem_metIn_snoc.mp hn with hn | rfl
        · exact h.log n hn
        · exact hwithin
  count h := ⟨h.landscape, h.kept, h.current, h.log⟩
  age h _ := ⟨h.landscape, h.kept, h.current, h.log⟩
  told := by
    intro l f s t ms o _ _ h _
    refine ⟨h.landscape, h.kept, h.current, fun m hm => h.log m ?_⟩
    rwa [metIn_snoc_told] at hm
  finish h := ⟨h.landscape, h.kept, fun f hf => h.current f (by
    rwa [Progress.found?_finish] at hf), h.log⟩
  time _ h := ⟨h.landscape, h.kept, h.current, h.log⟩

variable [Printed α] [ToString τ] [ToString ρ]

theorem confined_of_landscape (calls : List Call) {r : Running α σ τ ρ}
    (h : r.1.landscape.Confines I N) (hfresh : r.1.progress = .fresh) (hkept : r.1.kept = none) :
    Confined I N (Call.logs calls r) (Call.after calls r).1 :=
  kept_confined.run (σ := σ) calls (r := r)
    ⟨h, by simp [hkept], by simp [hfresh, Progress.found?], by simp⟩

end AssignmentSearch
