import AssignmentSearch.Proofs.Mapping.Transpositions
import AssignmentSearch.Proofs.Solution.Operations
import AssignmentSearch.Search.Landscape

/-!
# Exchanges of resources

Two draws exchange the resources of two entries or leave a solution as it is, cost and all. A
neighbour is a copy that such an exchange is done to.
-/

namespace AssignmentSearch

open Mapping

variable {α τ ρ σ : Type}

namespace Solution

variable {ι : Type} [Draw ι] {index : Int → Attempt σ ι} {d d' : σ} {s t : Solution α τ ρ}

theorem start_swap_of_pair {i j : Nat} (h : (s.mapping.drawTwo index).start d = (.ok [i, j], d')) :
    (s.swap index).start d =
      (.ok (true, ⟨s.model, s.mapping.swapAt i j, s.cache.invalidate⟩), d') := by
  have hdrawn : (s.mapping.swapDrawn index).start d = (.ok (some (s.mapping.swapAt i j)), d') := by
    rw [swapDrawn, Attempt.start_bind_ok h]
    rfl
  rw [swap, Attempt.start_bind_ok hdrawn]
  rfl

theorem start_swap_of_few {selected : List Nat}
    (h : (s.mapping.drawTwo index).start d = (.ok selected, d')) (hfew : selected.length < 2) :
    (s.swap index).start d = (.ok (false, s), d') := by
  have hdrawn : (s.mapping.swapDrawn index).start d = (.ok none, d') := by
    rw [swapDrawn, Attempt.start_bind_ok h]
    match selected, hfew with
    | [], _ => rfl
    | [_], _ => rfl
  rw [swap, Attempt.start_bind_ok hdrawn]
  rfl

theorem near_of_start_swap {changed : Bool} (h : (s.swap index).start d = (.ok (changed, t), d')) :
    s.mapping.Near t.mapping := by
  rcases swap_cases h with ⟨-, rfl⟩ | ⟨-, i, j, rfl⟩
  · exact near_refl _
  · exact near_swapAt _ i j

end Solution

theorem Landscape.near_swapped [Quantity α] {s t : Solution α τ ρ} {source source' : Source α}
    (h : (swapped s).start source = (.ok t, source')) : s.mapping.Near t.mapping := by
  rw [swapped, Attempt.start_map] at h
  rcases hswap : (s.swap Source.index).start source with ⟨_ | ⟨changed, u⟩, d⟩
  · rw [hswap] at h
    cases h
  · rw [hswap] at h
    cases h
    exact Solution.near_of_start_swap hswap

namespace Family

variable {ι : Type} [Draw ι] [Quantity α] [BEq τ] [Key τ]

theorem get?_after_clone_swap (model : CostModel α τ ρ) {f : Family α τ ρ} {name twin : String}
    {s : Solution α τ ρ} (hs : f.get? name = some s) (hne : twin ≠ name)
    (index : Int → Attempt σ ι) (draws : σ) :
    ((after model [.clone name twin, .swap twin index draws] f).get? name = some s) ∧
      ∃ t, (after model [.clone name twin, .swap twin index draws] f).get? twin = some t ∧
        s.mapping.Near t.mapping := by
  have hclone : ((perform model (.clone name twin : Operation α τ ρ σ ι)).start f).2 =
      f.put twin s := by
    change clone (.of model .empty) name twin f = f.put twin s
    rw [clone, hs, Option.getD_some]
  rw [after, List.foldl_cons, List.foldl_cons, List.foldl_nil, hclone]
  refine ⟨?_, ((exchange index draws).start s).2, ?_, ?_⟩
  · have hother : name ∉ (Operation.swap twin index draws : Operation α τ ρ σ ι).targets :=
      fun h => hne (List.mem_singleton.mp h).symm
    rw [get?_perform_of_notMem model _ hother, get?_put_of_ne f hne.symm, hs]
  · rw [perform, Attempt.start_map, start_on_some (get?_put_self f twin s)]
    exact get?_put_self _ twin _
  · rw [exchange, Attempt.start_of]
    rcases hswap : (s.swap index).start draws with ⟨_ | ⟨changed, t⟩, d⟩
    · exact near_refl _
    · exact Solution.near_of_start_swap hswap

end Family

namespace Solution

section Two

variable {s : Solution α τ ρ} {first second : Int}

theorem start_swap_of_inRange (hsize : 2 ≤ s.mapping.size) (hfirst : InRange s.mapping.size first)
    (hother : InRange s.mapping.size (stepOver first second)) :
    ∃ t, (s.swap Script.next).start (.two first second) =
        (.ok (true, t), ⟨[], [s.mapping.size, s.mapping.size - 1]⟩) ∧
      t.model = s.model ∧
        Transposed first.toNat (stepOver first second).toNat s.mapping t.mapping ∧
          t.mapping.resources.Perm s.mapping.resources ∧ t.cache.valid = false := by
  have hdrawn := start_drawTwo_two s.mapping hsize first second
  rcases within_cases s.mapping.size first (stepOver first second) with ⟨-, -, h⟩ | ⟨hnot, -⟩
  · rw [positions, h] at hdrawn
    refine ⟨_, start_swap_of_pair hdrawn, rfl, ?_, s.mapping.perm_resources_swapAt _ _, rfl⟩
    obtain ⟨hfirst₀, hfirst₁⟩ := hfirst
    obtain ⟨hother₀, hother₁⟩ := hother
    -- the selected positions stand in increasing order, the drawn ones may not
    rcases lt_or_gt_of_ne (stepOver_ne first second).symm with hlt | hgt
    · rw [min_eq_left hlt.le, max_eq_right hlt.le]
      exact transposed_swapAt (by omega) (by omega) (by omega)
    · rw [min_eq_right hgt.le, max_eq_left hgt.le]
      exact (transposed_swapAt (by omega) (by omega) (by omega)).symm
  · exact absurd ⟨hfirst, hother⟩ hnot

theorem start_swap_of_not_inRange (h : ¬ (2 ≤ s.mapping.size ∧ InRange s.mapping.size first ∧
      InRange s.mapping.size (stepOver first second))) :
    (s.swap Script.next).start (.two first second) = (.ok (false, s),
      if 2 ≤ s.mapping.size then ⟨[], [s.mapping.size, s.mapping.size - 1]⟩
      else .two first second) := by
  by_cases hsize : 2 ≤ s.mapping.size
  · rw [if_pos hsize]
    rcases within_cases s.mapping.size first (stepOver first second) with ⟨ha, hb, -⟩ | ⟨-, hfew⟩
    · exact absurd ⟨hsize, ha, hb⟩ h
    · exact start_swap_of_few (start_drawTwo_two s.mapping hsize first second) hfew
  · rw [if_neg hsize]
    exact start_swap_of_few (start_drawTwo_of_few s.mapping (by omega)) (by simp)

end Two

/-- Draws of two positions exchange the resources that stand there and make the cost stale; all
other draws, and any draws for fewer than two entries, leave the solution as it is. Two draws are
asked for if there are two entries, and none otherwise. So a neighbour of a solution differs from it
nowhere or at two positions, and the solution stays as it is. -/
theorem swap_transposes_or_refrains [Quantity α] [BEq τ] [Key τ] (s : Solution α τ ρ)
    (first second : Int) :
    let size := s.mapping.size
    let other := if first ≤ second then second + 1 else second
    (∃ changed t, (s.swap Script.next).start (.two first second) = (.ok (changed, t),
          if 2 ≤ size then ⟨[], [size, size - 1]⟩ else .two first second) ∧
        (changed = true ↔ 2 ≤ size ∧ InRange size first ∧ InRange size other) ∧
        (changed = true → first ≠ other ∧ t.model = s.model ∧
          Transposed first.toNat other.toNat s.mapping t.mapping ∧
            t.mapping.resources.Perm s.mapping.resources ∧ t.cache.valid = false) ∧
        (changed = false → t = s)) ∧
      (∀ source t source', (Landscape.swapped s).start source = (.ok t, source') →
        s.mapping.Near t.mapping) ∧
      ∀ model (f : Family α τ ρ) name twin (index : Int → Attempt σ Int) draws,
        f.get? name = some s → twin ≠ name →
          ((Family.after model [.clone name twin, .swap twin index draws] f).get? name = some s) ∧
            ∃ t, (Family.after model [.clone name twin, .swap twin index draws] f).get? twin =
              some t ∧ s.mapping.Near t.mapping := by
  intro size other
  refine ⟨?_, fun source t source' => Landscape.near_swapped, fun model f name twin index draws hs
    htwin => Family.get?_after_clone_swap model hs htwin index draws⟩
  by_cases hpair : 2 ≤ size ∧ InRange size first ∧ InRange size other
  · obtain ⟨hsize, hfirst, hother⟩ := hpair
    obtain ⟨t, hstart, hchanged⟩ := start_swap_of_inRange hsize hfirst hother
    rw [if_pos hsize]
    refine ⟨true, t, hstart, by simp [hsize, hfirst, hother], fun _ => ?_, nofun⟩
    exact ⟨(stepOver_ne first second).symm, hchanged⟩
  · refine ⟨false, s, start_swap_of_not_inRange hpair, ?_, nofun, fun _ => rfl⟩
    simp only [Bool.false_eq_true, false_iff]
    exact hpair

def threeTasks : Solution Float Int String :=
  ⟨.fixed "fixed" (.ok 1), ⟨[(1, "a"), (2, "b"), (3, "c")]⟩, ⟨1, true⟩⟩

/-- The draws two and zero exchange the first and the last resource; two and two do nothing. -/
theorem swap_transposes_or_refrains_threeTasks :
    (∃ t, (threeTasks.swap Script.next).start (.two 2 0) = (.ok (true, t), ⟨[], [3, 2]⟩) ∧
      Transposed 2 0 threeTasks.mapping t.mapping ∧ t.cache.valid = false) ∧
    (threeTasks.swap Script.next).start (.two 2 2) = (.ok (false, threeTasks), ⟨[], [3, 2]⟩) ∧
    (Family.after (.fixed "fixed" (.ok 1)) [.clone "s" "t", .swap "t" Script.next (.two 2 0)]
      [("s", threeTasks)]).get? "s" = some threeTasks := by
  obtain ⟨⟨changed, t, hstart, hiff, hexchanged, -⟩, -, hclone⟩ :=
    swap_transposes_or_refrains threeTasks 2 0
  obtain rfl : changed = true := hiff.mpr ⟨by decide, ⟨by decide, by decide⟩, by decide, by decide⟩
  obtain ⟨-, -, htransposed, -, hstale⟩ := hexchanged rfl
  obtain ⟨⟨changed', t', hstart', hiff', -, hkept⟩, -⟩ :=
    swap_transposes_or_refrains (σ := Script) threeTasks 2 2
  have hrefrains : changed' = false := by
    rw [← Bool.not_eq_true, hiff']
    exact fun h => absurd h.2.2.2 (by decide)
  subst hrefrains
  obtain rfl := hkept rfl
  exact ⟨⟨t, hstart, htransposed, hstale⟩, hstart', (hclone _ _ "s" "t" _ _ rfl (by decide)).1⟩

end Solution
end AssignmentSearch
