import AssignmentSearch.Proofs.Random.Samples
import AssignmentSearch.Proofs.Search.Calls

/-!
# Samples of a run

A landscape that only draws from its source leaves the samples to come in the unit interval. So all
decisions of a run are made with such samples if it begins with them.
-/

namespace AssignmentSearch

open Event

variable {α σ τ ρ : Type} [Quantity α]

namespace Landscape

structure KeepsUnit (L : Landscape α τ ρ) : Prop where
  initial : ∀ kept, AssignmentSearch.KeepsUnit (L.initial kept)
  neighbor : ∀ n near, AssignmentSearch.KeepsUnit (L.neighbor n near)

theorem keepsUnit_keeping (first : Solution α τ ρ) (kept : Option (Solution α τ ρ)) :
    AssignmentSearch.KeepsUnit (keeping first kept) :=
  .pure _

theorem keepsUnit_drawTwo (m : Mapping τ ρ) :
    AssignmentSearch.KeepsUnit (m.drawTwo (Source.index : Int → Attempt (Source α) Int)) := by
  rw [Mapping.drawTwo]
  split
  · exact .pure _
  · exact (Source.keepsUnit_index _).bind fun _ => (Source.keepsUnit_index _).bind fun _ => .lift _

theorem keepsUnit_swapped (s : Solution α τ ρ) : AssignmentSearch.KeepsUnit (swapped s) := by
  refine .map _ (.bind (.bind (keepsUnit_drawTwo s.mapping) fun positions => ?_) fun swap => ?_)
  · split <;> exact .pure _
  · cases swap <;> exact .pure _

theorem keepsUnit_listed (name : String) (costs : List (Except Fault α)) :
    (listed name costs : Landscape α τ ρ).KeepsUnit :=
  ⟨keepsUnit_keeping _, fun _ _ => .pure _⟩

end Landscape

/-- The samples to come and those of all meetings so far lie in the unit interval. -/
structure DrawsUnit (l : List (Event α τ ρ)) (s : Search α σ τ ρ) : Prop where
  landscape : s.landscape.KeepsUnit
  source : s.source.InUnit
  samples : ∀ m ∈ metIn l, m.sample.InUnit

theorem DrawsUnit.of_mayLeave {l : List (Event α τ ρ)} {s : Search α σ τ ρ} (h : DrawsUnit l s)
    {source : Source α} (hsource : s.MayLeave source) : source.InUnit := by
  rcases hsource with rfl | ⟨near, rfl | rfl⟩
  · exact h.source
  · exact h.landscape.neighbor (s.trials + 1) near s.source h.source
  · exact Source.inUnit_next (h.landscape.neighbor (s.trials + 1) near s.source h.source)

variable [LawfulQuantity α] [Strategy α σ] [Acceptance α σ (Solution α τ ρ)]

theorem kept_drawsUnit : Kept (σ := σ) (DrawsUnit (α := α) (τ := τ) (ρ := ρ)) where
  fault := by
    intro l s e source h _ hx
    have hsource := h.landscape.initial s.kept s.source h.source
    rw [hx] at hsource
    exact ⟨h.landscape, hsource, h.samples⟩
  begin := by
    intro l s first source h _ hx
    have hsource := h.landscape.initial s.kept s.source h.source
    rw [hx] at hsource
    exact ⟨h.landscape, hsource, h.samples⟩
  trial := by
    intro l s b h
    obtain ⟨source, trials, ht, hsource⟩ := Search.start_trial_state b s
    rw [ht]
    refine ⟨h.landscape, h.of_mayLeave hsource, fun m hm => ?_⟩
    rw [mem_metIn_append, metIn_map_met, Option.mem_toList] at hm
    rcases hm with hm | hm
    · exact h.samples m hm
    · obtain ⟨c, source', hc, -, hsample⟩ := Search.candidate_of_meeting hm
      have hnext := h.landscape.neighbor (s.trials + 1) m.found.current.solution s.source h.source
      rw [hc] at hnext
      rw [hsample]
      exact Source.inUnit_sample hnext
  count h := ⟨h.landscape, h.source, h.samples⟩
  age h _ := ⟨h.landscape, h.source, h.samples⟩
  told := by
    intro l f s t ms o _ _ h _
    refine ⟨h.landscape, h.source, fun m hm => h.samples m ?_⟩
    rwa [metIn_snoc_told] at hm
  finish h := ⟨h.landscape, h.source, h.samples⟩
  time _ h := ⟨h.landscape, h.source, h.samples⟩

variable [Printed α] [ToString τ] [ToString ρ]

theorem inUnit_of_source (calls : List Call) {r : Running α σ τ ρ} (h : r.1.source.InUnit)
    (hlandscape : r.1.landscape.KeepsUnit) : ∀ m ∈ Call.meetings calls r, m.sample.InUnit :=
  (kept_drawsUnit.run (σ := σ) calls (r := r) ⟨hlandscape, h, by simp⟩).samples

end AssignmentSearch
