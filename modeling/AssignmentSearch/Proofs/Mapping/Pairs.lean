import AssignmentSearch.Proofs.Mapping.Entries
import Mathlib.Data.Int.Interval
import Mathlib.Data.Set.Card

/-!
# Pairs of positions

Two draws without replacement stand for an ordered pair of distinct positions, and every such pair
has its own draws. So an exchange of two drawn entries favours no two of them.
-/

namespace AssignmentSearch

/-- Draws to be handed out, and the bounds that were asked for. -/
structure Script where
  draws : List Int
  bounds : List Int
  deriving DecidableEq

namespace Script

def two (first second : Int) : Script := ⟨[first, second], []⟩

/-- The next draw, whatever its bound; zero when all are handed out. -/
def next (bound : Int) : Attempt Script Int :=
  Attempt.of fun s => (.ok (s.draws.headD 0), ⟨s.draws.tail, s.bounds ++ [bound]⟩)

end Script

namespace Mapping

variable {σ τ ρ : Type}

def InRange (size : Nat) (i : Int) : Prop := 0 ≤ i ∧ i < size

theorem within_cases (size : Nat) (a b : Int) :
    (InRange size a ∧ InRange size b ∧ within size a b = [(min a b).toNat, (max a b).toNat]) ∨
      (¬ (InRange size a ∧ InRange size b) ∧ (within size a b).length < 2) := by
  by_cases ha : InRange size a <;> by_cases hb : InRange size b
  · left
    refine ⟨ha, hb, ?_⟩
    obtain ⟨ha₀, ha₁⟩ := ha
    obtain ⟨hb₀, hb₁⟩ := hb
    by_cases hlt : a < b
    · simp [within, hlt, ha₀, ha₁, hb₀, hb₁, Int.min_eq_left hlt.le, Int.max_eq_right hlt.le]
    · have hle : b ≤ a := by omega
      simp [within, hlt, ha₀, ha₁, hb₀, hb₁, Int.min_eq_right hle, Int.max_eq_left hle]
  all_goals
    right
    refine ⟨by simp [ha, hb], ?_⟩
    simp only [InRange] at ha hb
    by_cases hlt : a < b <;> simp [within, hlt, ha, hb]

section Draws

variable (m : Mapping τ ρ) {index : Int → Attempt σ Int} {d d₁ d₂ : σ} {first second : Int}

theorem start_drawTwo_of_few (hfew : m.size < 2) : (m.drawTwo index).start d = (.ok [], d) := by
  rw [drawTwo, if_pos hfew]
  rfl

theorem start_drawTwo (hsize : 2 ≤ m.size) (hfirst : (index m.size).start d = (.ok first, d₁))
    (hsecond : (index (m.size - 1)).start d₁ = (.ok second, d₂)) :
    (m.drawTwo index).start d = (.ok (positions m.size first second), d₂) := by
  rw [drawTwo, if_neg (by omega), Attempt.start_bind_ok hfirst, Attempt.start_bind_ok hsecond]
  rfl

theorem start_drawTwo_two (hsize : 2 ≤ m.size) (first second : Int) :
    (m.drawTwo Script.next).start (.two first second) =
      (.ok (positions m.size first second), ⟨[], [m.size, m.size - 1]⟩) :=
  start_drawTwo m hsize rfl rfl

end Draws

/-- All pairs of draws, the second among one position fewer. -/
def drawPairs (size : Nat) : Set (Int × Int) := {d | InRange size d.1 ∧ InRange (size - 1) d.2}

def distinctPairs (size : Nat) : Set (Int × Int) :=
  {p | InRange size p.1 ∧ InRange size p.2 ∧ p.1 ≠ p.2}

/-- The positions that two draws look for, in the order of the draws. -/
def soughtBy (d : Int × Int) : Int × Int := (d.1, stepOver d.1 d.2)

def drawsFor (p : Int × Int) : Int × Int := (p.1, if p.1 < p.2 then p.2 - 1 else p.2)

theorem drawsFor_soughtBy (d : Int × Int) : drawsFor (soughtBy d) = d := by
  obtain ⟨a, b⟩ := d
  simp only [drawsFor, soughtBy, stepOver, Prod.mk.injEq, true_and]
  split <;> split <;> omega

theorem soughtBy_drawsFor {p : Int × Int} (h : p.1 ≠ p.2) : soughtBy (drawsFor p) = p := by
  obtain ⟨a, b⟩ := p
  simp only [drawsFor, soughtBy, stepOver, Prod.mk.injEq, true_and] at h ⊢
  split <;> split <;> omega

theorem drawsFor_mem {size : Nat} {p : Int × Int} (h : p ∈ distinctPairs size) :
    drawsFor p ∈ drawPairs size := by
  obtain ⟨⟨ha₀, ha₁⟩, ⟨hb₀, hb₁⟩, hne⟩ := h
  refine ⟨⟨ha₀, ha₁⟩, ?_⟩
  simp only [drawsFor, InRange]
  split <;> omega

theorem soughtBy_mem {size : Nat} {d : Int × Int} (h : d ∈ drawPairs size) :
    soughtBy d ∈ distinctPairs size := by
  obtain ⟨⟨ha₀, ha₁⟩, ⟨hb₀, hb₁⟩⟩ := h
  refine ⟨⟨ha₀, ha₁⟩, ?_, (stepOver_ne d.1 d.2).symm⟩
  simp only [soughtBy, stepOver, InRange]
  split <;> omega

/-- Every ordered pair of distinct positions is sought by one pair of draws. -/
theorem bijOn_soughtBy (size : Nat) :
    Set.BijOn soughtBy (drawPairs size) (distinctPairs size) := by
  have hinverse : Set.InvOn drawsFor soughtBy (drawPairs size) (distinctPairs size) :=
    ⟨fun d _ => drawsFor_soughtBy d, fun p hp => soughtBy_drawsFor hp.2.2⟩
  exact hinverse.bijOn (fun d hd => soughtBy_mem hd) fun p hp => drawsFor_mem hp

theorem ncard_drawPairs (size : Nat) : (drawPairs size).ncard = size * (size - 1) := by
  have hfinset : drawPairs size =
      ↑(Finset.Ico (0 : Int) size ×ˢ Finset.Ico (0 : Int) ((size - 1 : Nat) : Int)) := by
    ext d
    simp [drawPairs, InRange]
  rw [hfinset, Set.ncard_coe_finset, Finset.card_product, Int.card_Ico, Int.card_Ico]
  simp

theorem positions_of_sought {size i j : Nat} {d : Int × Int} (hij : i < j) (hj : j < size)
    (hsought : soughtBy d = (↑i, ↑j) ∨ soughtBy d = (↑j, ↑i)) :
    positions size d.1 d.2 = [i, j] := by
  have hends : d.1 = i ∧ stepOver d.1 d.2 = j ∨ d.1 = j ∧ stepOver d.1 d.2 = i := by
    simpa only [soughtBy, Prod.mk.injEq] using hsought
  have hfirst : InRange size d.1 := ⟨by omega, by omega⟩
  have hsecond : InRange size (stepOver d.1 d.2) := ⟨by omega, by omega⟩
  rcases within_cases size d.1 (stepOver d.1 d.2) with ⟨-, -, h⟩ | ⟨hnot, -⟩
  · rw [positions, h]
    congr 1
    · omega
    · congr 1
      omega
  · exact absurd ⟨hfirst, hsecond⟩ hnot

section Picked

variable (m : Mapping τ ρ)

def picked (d : Int × Int) : Except Fault (List τ) :=
  ((m.pickTasks Script.next).start (.two d.1 d.2)).1

variable {m} {d : Int × Int} {i j : Nat}

theorem picked_of_sought (hij : i < j) (hj : j < m.tasks.length)
    (hsought : soughtBy d = (↑i, ↑j) ∨ soughtBy d = (↑j, ↑i)) :
    m.picked d = .ok [m.tasks[i], m.tasks[j]] := by
  have hj' : j < m.entries.length := by simpa [tasks] using hj
  have hi' : i < m.entries.length := hij.trans hj'
  have hsize : 2 ≤ m.size := Nat.lt_of_le_of_lt (Nat.one_le_of_lt hij) hj'
  have hselected : positions m.size d.1 d.2 = [i, j] := positions_of_sought hij hj' hsought
  have hstart := start_drawTwo_two m hsize d.1 d.2
  rw [hselected] at hstart
  rw [picked, pickTasks, Attempt.start_bind_ok hstart]
  simp [tasks, List.getElem?_eq_getElem hi', List.getElem?_eq_getElem hj']

theorem exists_picked (hd : d ∈ drawPairs m.size) :
    ∃ i j, ∃ (hij : i < j) (hj : j < m.tasks.length),
      (soughtBy d = (↑i, ↑j) ∨ soughtBy d = (↑j, ↑i)) ∧
        m.picked d = .ok [m.tasks[i], m.tasks[j]] := by
  have hlength : m.tasks.length = m.size := List.length_map _
  obtain ⟨⟨ha₀, ha₁⟩, ⟨hb₀, hb₁⟩, hne⟩ := soughtBy_mem hd
  rcases lt_or_gt_of_ne hne with hlt | hgt
  · have hsought : soughtBy d = (↑(soughtBy d).1.toNat, ↑(soughtBy d).2.toNat) := by
      ext <;> simp <;> omega
    have hij : (soughtBy d).1.toNat < (soughtBy d).2.toNat := by omega
    have hj : (soughtBy d).2.toNat < m.tasks.length := by omega
    exact ⟨_, _, hij, hj, .inl hsought, picked_of_sought hij hj (.inl hsought)⟩
  · have hsought : soughtBy d = (↑(soughtBy d).1.toNat, ↑(soughtBy d).2.toNat) := by
      ext <;> simp <;> omega
    have hij : (soughtBy d).2.toNat < (soughtBy d).1.toNat := by omega
    have hj : (soughtBy d).1.toNat < m.tasks.length := by omega
    exact ⟨_, _, hij, hj, .inr hsought, picked_of_sought hij hj (.inr hsought)⟩

theorem draws_of_picked (hnodup : m.tasks.Nodup) (hij : i < j) (hj : j < m.tasks.length) :
    {d ∈ drawPairs m.size | m.picked d = .ok [m.tasks[i], m.tasks[j]]} =
      {drawsFor (↑i, ↑j), drawsFor (↑j, ↑i)} := by
  have hlength : m.tasks.length = m.size := List.length_map _
  have hpair : (↑i, ↑j) ∈ distinctPairs m.size :=
    ⟨⟨by omega, by omega⟩, ⟨by omega, by omega⟩, by omega⟩
  have htwin : (↑j, ↑i) ∈ distinctPairs m.size := ⟨hpair.2.1, hpair.1, hpair.2.2.symm⟩
  ext d
  constructor
  · rintro ⟨hd, hpicked⟩
    obtain ⟨i', j', hij', hj', hsought, h⟩ := exists_picked hd
    -- no task stands at two positions, so the picked ones tell theirs
    rw [h, Except.ok.injEq, List.cons.injEq, List.cons.injEq, hnodup.getElem_inj_iff,
      hnodup.getElem_inj_iff] at hpicked
    obtain ⟨rfl, rfl, -⟩ := hpicked
    rw [← drawsFor_soughtBy d]
    rcases hsought with h | h <;> simp [h]
  · rintro (rfl | rfl)
    · have hsought := soughtBy_drawsFor hpair.2.2
      exact ⟨drawsFor_mem hpair, picked_of_sought hij hj (.inl hsought)⟩
    · have hsought := soughtBy_drawsFor htwin.2.2
      exact ⟨drawsFor_mem htwin, picked_of_sought hij hj (.inr hsought)⟩

end Picked

theorem drawsFor_swap_ne {i j : Int} (h : i ≠ j) : drawsFor (i, j) ≠ drawsFor (j, i) := by
  intro heq
  have hsought := congrArg soughtBy heq
  rw [soughtBy_drawsFor h, soughtBy_drawsFor h.symm, Prod.mk.injEq] at hsought
  exact h hsought.1

/-- Draws stand for the ordered pairs of distinct positions, each for its own. So in a mapping that
binds each task once, for any two positions just two of all pairs of draws pick their tasks, in the
order of the mapping, and whatever is drawn, the tasks of the two positions that the draws look for
are picked. -/
theorem pairs_are_picked_alike (m : Mapping τ ρ) (hnodup : m.tasks.Nodup) :
    Set.BijOn soughtBy (drawPairs m.size) (distinctPairs m.size) ∧
      (drawPairs m.size).ncard = m.size * (m.size - 1) ∧
      (∀ i j (hij : i < j) (hj : j < m.tasks.length),
        {d ∈ drawPairs m.size | m.picked d = .ok [m.tasks[i], m.tasks[j]]}.ncard = 2) ∧
      ∀ d ∈ drawPairs m.size, ∃ i j, ∃ (hij : i < j) (hj : j < m.tasks.length),
        (soughtBy d = (↑i, ↑j) ∨ soughtBy d = (↑j, ↑i)) ∧
          m.picked d = .ok [m.tasks[i], m.tasks[j]] := by
  refine ⟨bijOn_soughtBy m.size, ncard_drawPairs m.size, ?_, fun d hd => exists_picked hd⟩
  intro i j hij hj
  rw [draws_of_picked hnodup hij hj]
  exact Set.ncard_pair (drawsFor_swap_ne (by omega))

/-- Of six pairs of draws two pick the first and the last of three tasks. -/
theorem pairs_are_picked_alike_three :
    (ofPairs [("a", 1), ("b", 2), ("c", 2)]).tasks.Nodup ∧
      (drawPairs (ofPairs [("a", 1), ("b", 2), ("c", 2)]).size).ncard = 6 ∧
        {d ∈ drawPairs (ofPairs [("a", 1), ("b", 2), ("c", 2)]).size |
          (ofPairs [("a", 1), ("b", 2), ("c", 2)]).picked d = .ok ["a", "c"]}.ncard = 2 := by
  have hnodup := nodup_tasks_ofPairs [("a", 1), ("b", 2), ("c", 2)]
  obtain ⟨-, hall, htwo, -⟩ := pairs_are_picked_alike _ hnodup
  exact ⟨hnodup, hall, htwo 0 2 (by decide) (by decide)⟩

end Mapping
end AssignmentSearch
