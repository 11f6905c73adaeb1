import AssignmentSearch.Proofs.Solution.Transpositions

/-!
# Rearrangements

A mapping with the same tasks and the same resources in another order is reached by exchanges of
drawn entries: the entries are put right one after the other, from the first to the last but one.
-/

namespace AssignmentSearch

variable {α τ ρ : Type}

namespace Mapping

def swapsAt (pairs : List (Nat × Nat)) (m : Mapping τ ρ) : Mapping τ ρ :=
  pairs.foldl (fun m p => m.swapAt p.1 p.2) m

theorem swapAt_cons (e : τ × ρ) (entries : List (τ × ρ)) (i j : Nat) :
    swapAt ⟨e :: entries⟩ (i + 1) (j + 1) = ⟨e :: (swapAt ⟨entries⟩ i j).entries⟩ := by
  simp only [swapAt, List.getElem?_cons_succ]
  split <;> simp [*]

def shift (pairs : List (Nat × Nat)) : List (Nat × Nat) := pairs.map fun p => (p.1 + 1, p.2 + 1)

@[simp] theorem length_shift (pairs : List (Nat × Nat)) : (shift pairs).length = pairs.length :=
  List.length_map _

theorem lt_of_mem_shift {pairs : List (Nat × Nat)} {size : Nat}
    (h : ∀ p ∈ pairs, p.1 < p.2 ∧ p.2 < size) {p : Nat × Nat} (hp : p ∈ shift pairs) :
    p.1 < p.2 ∧ p.2 < size + 1 := by
  obtain ⟨q, hq, rfl⟩ := List.mem_map.mp hp
  obtain ⟨hlt, hsize⟩ := h q hq
  exact ⟨by omega, by omega⟩

theorem swapsAt_shift (e : τ × ρ) (entries : List (τ × ρ)) (pairs : List (Nat × Nat)) :
    swapsAt (shift pairs) ⟨e :: entries⟩ = ⟨e :: (swapsAt pairs ⟨entries⟩).entries⟩ := by
  induction pairs generalizing entries with
  | nil => rfl
  | cons p rest ih =>
    simp only [swapsAt, shift, List.map_cons, List.foldl_cons, swapAt_cons] at ih ⊢
    exact ih _

theorem exists_front {t : τ} {q r : ρ} {entries rest : List (τ × ρ)}
    (hperm : (r :: rest.map (·.2)).Perm (q :: entries.map (·.2))) (hne : q ≠ r) :
    ∃ j entries', j < entries.length ∧
      swapAt ⟨(t, q) :: entries⟩ 0 (j + 1) = ⟨(t, r) :: entries'⟩ ∧
      entries'.map (·.1) = entries.map (·.1) ∧ (rest.map (·.2)).Perm (entries'.map (·.2)) := by
  have hmem : r ∈ entries.map (·.2) := by
    rcases List.mem_cons.mp (hperm.subset List.mem_cons_self) with h | h
    · exact absurd h.symm hne
    · exact h
  obtain ⟨j, hj, hr⟩ := List.mem_iff_getElem.mp hmem
  rw [List.length_map] at hj
  rw [List.getElem_map] at hr
  have hswap : swapAt ⟨(t, q) :: entries⟩ 0 (j + 1) =
      ⟨(t, r) :: entries.set j (entries[j].1, q)⟩ := by
    simp [swapAt, List.getElem?_eq_getElem hj, hr]
  refine ⟨j, _, hj, hswap, ?_, ?_⟩
  · have htasks := tasks_swapAt ⟨(t, q) :: entries⟩ 0 (j + 1)
    rw [hswap] at htasks
    exact (List.cons.inj htasks).2
  · have hswapped := perm_resources_swapAt ⟨(t, q) :: entries⟩ 0 (j + 1)
    rw [hswap] at hswapped
    exact (hperm.trans hswapped.symm).cons_inv

theorem exists_swapsAt {m n : Mapping τ ρ} (htasks : n.tasks = m.tasks)
    (hresources : n.resources.Perm m.resources) :
    ∃ pairs : List (Nat × Nat), pairs.length ≤ m.size - 1 ∧
      (∀ p ∈ pairs, p.1 < p.2 ∧ p.2 < m.size) ∧ m.swapsAt pairs = n := by
  obtain ⟨entries⟩ := m
  obtain ⟨target⟩ := n
  simp only [tasks, resources, size] at htasks hresources ⊢
  -- on the entries to be reached: once the first one is right, the rest are put right among
  -- themselves, by exchanges shifted past it
  induction target generalizing entries with
  | nil =>
    obtain rfl : entries = [] := List.map_eq_nil_iff.mp htasks.symm
    exact ⟨[], by simp, by simp, rfl⟩
  | cons e rest ih =>
    obtain ⟨t, r⟩ := e
    cases entries with
    | nil => simp at htasks
    | cons front entries =>
      obtain ⟨u, q⟩ := front
      obtain ⟨hhead, htail⟩ := List.cons.inj htasks
      obtain rfl : t = u := hhead
      by_cases hfront : q = r
      · subst hfront
        obtain ⟨pairs, hlength, hrange, hpairs⟩ := ih entries htail hresources.cons_inv
        refine ⟨shift pairs, ?_, fun p => lt_of_mem_shift hrange, ?_⟩
        · rw [length_shift, List.length_cons]
          omega
        · rw [swapsAt_shift, hpairs]
      · obtain ⟨j, entries', hj, hswap, hkeep, hperm⟩ := exists_front (t := t) hresources hfront
        obtain ⟨pairs, hlength, hrange, hpairs⟩ := ih entries' (htail.trans hkeep.symm) hperm
        have hsize : entries'.length = entries.length := by
          simpa using congrArg List.length hkeep
        rw [hsize] at hlength hrange
        refine ⟨(0, j + 1) :: shift pairs, ?_, ?_, ?_⟩
        · rw [List.length_cons, List.length_cons, length_shift]
          omega
        · refine List.forall_mem_cons.mpr ⟨⟨Nat.succ_pos j, Nat.succ_lt_succ hj⟩, ?_⟩
          exact fun p => lt_of_mem_shift hrange
        · rw [swapsAt, List.foldl_cons, hswap]
          exact (swapsAt_shift _ _ _).trans (by rw [hpairs])

end Mapping

namespace Solution

open Mapping

/-- Exchanges one after the other, each by two draws of its own. -/
def swapAll : List (Int × Int) → Solution α τ ρ → Except Fault (Solution α τ ρ)
  | [], s => .ok s
  | d :: rest, s => do
    let (_, t) ← ((s.swap Script.next).start (.two d.1 d.2)).1
    swapAll rest t

theorem start_swap_drawsFor (s : Solution α τ ρ) {i j : Nat} (hij : i < j)
    (hj : j < s.mapping.size) :
    (s.swap Script.next).start (.two (drawsFor (↑i, ↑j)).1 (drawsFor (↑i, ↑j)).2) =
      (.ok (true, ⟨s.model, s.mapping.swapAt i j, s.cache.invalidate⟩),
        ⟨[], [s.mapping.size, s.mapping.size - 1]⟩) := by
  apply start_swap_of_pair
  have hsought : soughtBy (drawsFor ((i : Int), (j : Int))) = ((i : Int), (j : Int)) :=
    soughtBy_drawsFor (by simp; omega)
  rw [start_drawTwo_two s.mapping (by omega), positions_of_sought hij hj (.inl hsought)]

theorem swapAll_drawsFor {pairs : List (Nat × Nat)} {s : Solution α τ ρ}
    (h : ∀ p ∈ pairs, p.1 < p.2 ∧ p.2 < s.mapping.size) :
    ∃ t, swapAll (pairs.map fun p => drawsFor (↑p.1, ↑p.2)) s = .ok t ∧
      t.mapping = s.mapping.swapsAt pairs := by
  induction pairs generalizing s with
  | nil => exact ⟨s, rfl, rfl⟩
  | cons p rest ih =>
    obtain ⟨hij, hj⟩ := h p List.mem_cons_self
    obtain ⟨t, hswaps, ht⟩ := ih (s := ⟨s.model, s.mapping.swapAt p.1 p.2, s.cache.invalidate⟩)
      (by simpa using fun a b hmem => h (a, b) (List.mem_cons_of_mem _ hmem))
    refine ⟨t, ?_, ht⟩
    rw [List.map_cons, swapAll, start_swap_drawsFor s hij hj]
    exact hswaps

/-- Every rearrangement of the resources of a solution is reached by exchanges of drawn entries, at
most one for each entry but one. -/
theorem rearrangements_are_reached (s t : Solution α τ ρ)
    (htasks : t.mapping.tasks = s.mapping.tasks)
    (hresources : t.mapping.resources.Perm s.mapping.resources) :
    ∃ draws : List (Int × Int), draws.length ≤ s.mapping.size - 1 ∧
      (∀ d ∈ draws, d ∈ drawPairs s.mapping.size) ∧
        ∃ u, swapAll draws s = .ok u ∧ u.mapping = t.mapping := by
  obtain ⟨pairs, hlength, hrange, hpairs⟩ := exists_swapsAt htasks hresources
  obtain ⟨u, hswaps, hu⟩ := swapAll_drawsFor hrange
  refine ⟨_, by simpa using hlength, ?_, u, hswaps, hu.trans hpairs⟩
  rintro d hd
  obtain ⟨p, hp, rfl⟩ := List.mem_map.mp hd
  obtain ⟨hij, hj⟩ := hrange p hp
  exact drawsFor_mem ⟨⟨by omega, by omega⟩, ⟨by omega, by omega⟩, by simp; omega⟩

def twoAlike : Solution Float String Nat :=
  of (.fixed "fixed" (.ok 1)) ⟨[("a", 1), ("b", 1), ("c", 2)]⟩

/-- At most two exchanges bring the single resource to the front. -/
theorem rearrangements_are_reached_twoAlike :
    ∃ draws : List (Int × Int), draws.length ≤ 2 ∧ (∀ d ∈ draws, d ∈ drawPairs 3) ∧
      ∃ u, swapAll draws twoAlike = .ok u ∧ u.mapping = ⟨[("a", 2), ("b", 1), ("c", 1)]⟩ :=
  rearrangements_are_reached twoAlike ⟨twoAlike.model, ⟨[("a", 2), ("b", 1), ("c", 1)]⟩, ⟨1, true⟩⟩
    (by decide) (by decide)

end Solution
end AssignmentSearch
