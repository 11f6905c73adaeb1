import AssignmentSearch.Placement.Landscape
import AssignmentSearch.Proofs.Quantity.Doubles
import AssignmentSearch.Proofs.Random.Samples
import AssignmentSearch.Proofs.Strategy.Cooling

/-!
# Positions that samples select

The product of a sample of the unit interval with a bound is rounded, but no further than to the
bound, so the floor selects one of the positions, and a host is found there. So it is known how many
samples a first placement and an exchange of hosts draw.
-/

namespace AssignmentSearch

open Binary64

namespace Source

theorem scaled_of_product {n : Int} {x : Scalar Float} {p : Float}
    (h : x.times "*" (.whole n) = .ok (.real p)) (hfinite : IsFinite p) (hzero : 0 ≤ p) :
    ∃ m : Int, scaled (.whole n) x = .ok m ∧ 0 ≤ m := by
  rw [le_iff_rank isWhole_zero.finite.ne_nan hfinite.ne_nan, rank_zero] at hzero
  obtain ⟨d, hd⟩ := hfinite
  rw [hd] at hzero
  refine ⟨d.floor, ?_, Dyad.floor_nonneg_iff.mpr hzero⟩
  rw [scaled, h]
  change (Scalar.real p).floor = _
  apply Scalar.floor_real
  change floorFloat p = _
  rw [floorFloat, hd]

theorem position_of_scaled {α : Type} [Quantity α] {n : Nat} (hpos : 0 < n) {x : Scalar α} {m : Int}
    (h : scaled (.whole n) x = .ok m) (hm : 0 ≤ m) :
    ∃ i : Nat, position n x = .ok i ∧ i < n := by
  refine ⟨(min m (n - 1)).toNat, ?_, by omega⟩
  rw [position, h]
  change Except.ok (min m ((n : Int) - 1)) = _
  congr 1
  omega

theorem times_real {n : Int} {x : Float} (hx : ofInt? n = some x) (y : Float) :
    (Scalar.real y).times "*" (.whole n) = .ok (.real (y * x)) := by
  simp only [Scalar.times, Scalar.numeral?, Numeral.times, Numeral.quantity, quantityOfInt,
    Quantity.ofInt?, hx]
  rfl

theorem product_of_unit {n : Nat} {x y : Float} (hx : ofInt? n = some x) (hzero : 0 ≤ y)
    (hone : y < 1) : IsFinite (y * x) ∧ 0 ≤ y * x := by
  obtain ⟨hfinite, -, hsign⟩ := ofInt?_sign hx
  obtain ⟨a, hrank⟩ : ∃ a : Nat, rank (decode x) = a :=
    Int.eq_ofNat_of_zero_le (hsign.mpr (Int.natCast_nonneg n))
  obtain ⟨hyfinite, b, hyrank, hlt⟩ := exists_rank_of_unit hzero hone
  have hproduct := rank_mul hyfinite hfinite hyrank hrank
  have hsmall : IsFinite (y * x) := by
    obtain ⟨-, -, hle⟩ := rank_mul_of_lt_one hfinite hyfinite hrank hyrank hlt
    have habs := abs_rank_lt hfinite
    rw [hrank, Nat.abs_cast, Int.ofNat_lt] at habs
    apply isFinite_of_rank (decode_mul_ne_nan hyfinite hfinite hyrank hrank)
    rw [hproduct, Nat.abs_cast, Int.ofNat_lt, Nat.mul_comm b a]
    exact Nat.lt_of_le_of_lt (Nat.min_le_left _ _) (Nat.lt_of_le_of_lt hle habs)
  refine ⟨hsmall, ?_⟩
  rw [le_iff_rank isWhole_zero.finite.ne_nan hsmall.ne_nan, rank_zero, hproduct]
  exact Int.natCast_nonneg _

theorem scaled_of_zero {n : Int} {x : Scalar Float} (h : x.numeral? = some (.whole 0)) :
    scaled (.whole n) x = .ok 0 := by
  have htimes : x.times "*" (.whole n) = .ok (.whole (0 * n)) := by
    rw [Scalar.times, h]
    rfl
  rw [scaled, htimes, Int.zero_mul]
  rfl

theorem position_of_ofInt? {n : Nat} (hpos : 0 < n) (hn : (ofInt? n).isSome) {x : Scalar Float}
    (h : x.InUnit) : ∃ i : Nat, position n x = .ok i ∧ i < n := by
  cases x with
  | real y =>
    obtain ⟨z, hz⟩ := Option.isSome_iff_exists.mp hn
    obtain ⟨hfinite, hzero⟩ := product_of_unit hz h.1 h.2
    obtain ⟨m, hm, hmzero⟩ := scaled_of_product (times_real hz y) hfinite hzero
    exact position_of_scaled hpos hm hmzero
  | whole k =>
    obtain rfl : k = 0 := h
    exact position_of_scaled hpos (scaled_of_zero rfl) le_rfl
  | truth b =>
    obtain rfl : b = false := h
    exact position_of_scaled hpos (scaled_of_zero rfl) le_rfl
  | alien d => exact h.elim

theorem position_of_inUnit {n : Nat} (hpos : 0 < n) (hn : n < 2 ^ 63) {x : Scalar Float}
    (h : x.InUnit) : ∃ i : Nat, position n x = .ok i ∧ i < n := by
  obtain ⟨z, -, hz, -⟩ := exists_ofInt? hn
  exact position_of_ofInt? hpos (Option.isSome_of_eq_some hz) h

theorem inUnit_of_seeded {seed : Datum} {entropy : Nat} {s : Source Float}
    (h : seeded seed entropy = .ok s) : s.InUnit := by
  obtain ⟨number, -, h⟩ := exists_of_bind_ok h
  cases h
  trivial

end Source

/-- An attempt that draws `n` samples and is answered in accordance with `P`, if all samples lie in
the unit interval. -/
def Draws {β : Type} (n : Nat) (P : β → Prop) (x : Attempt (Source Float) β) : Prop :=
  ∀ s : Source Float, s.InUnit →
    ∃ a t, x.start s = (.ok a, t) ∧ P a ∧ t.InUnit ∧ t.drawn = s.drawn + n

namespace Draws

variable {β γ : Type} {m n : Nat} {P : β → Prop} {Q : γ → Prop}

theorem pure {a : β} (ha : P a) : Draws 0 P (Pure.pure a) := fun s hs => ⟨a, s, rfl, ha, hs, rfl⟩

theorem lift {x : Except Fault β} {a : β} (hx : x = .ok a) (ha : P a) :
    Draws 0 P (Attempt.lift x) := by
  intro s hs
  exact ⟨a, s, by rw [Attempt.start_lift, hx], ha, hs, rfl⟩

theorem bind {x : Attempt (Source Float) β} {f : β → Attempt (Source Float) γ} (hx : Draws m P x)
    (hf : ∀ a, P a → Draws n Q (f a)) : Draws (m + n) Q (x >>= f) := by
  intro s hs
  obtain ⟨a, t, hstart, ha, ht, hdrawn⟩ := hx s hs
  obtain ⟨b, u, hnext, hb, hu, hmore⟩ := hf a ha t ht
  refine ⟨b, u, by rw [Attempt.start_bind_ok hstart, hnext], hb, hu, ?_⟩
  omega

theorem map {x : Attempt (Source Float) β} (f : β → γ) (hx : Draws n P x)
    (hf : ∀ a, P a → Q (f a)) : Draws n Q (f <$> x) := by
  rw [map_eq_pure_bind]
  exact hx.bind fun a ha => .pure (hf a ha)

theorem index {size : Nat} (hpos : 0 < size) (hsize : size < 2 ^ 63) :
    Draws 1 (fun i : Int => ∃ j : Nat, i = j ∧ j < size) (Source.index size) := by
  intro s hs
  obtain ⟨i, hi, hlt⟩ := Source.position_of_inUnit hpos hsize (Source.inUnit_sample hs)
  refine ⟨i, s.sample.2, ?_, ⟨i, rfl, hlt⟩, Source.inUnit_next hs, Source.drawn_sample s⟩
  rw [Source.start_index_of_pos (by omega), hi]

section Exchanges

variable {τ ρ : Type}

theorem drawTwo (m : Mapping τ ρ) (hsize : m.size < 2 ^ 63) :
    Draws (if 2 ≤ m.size then 2 else 0) (fun _ => True)
      (m.drawTwo (Source.index : Int → Attempt (Source Float) Int)) := by
  rw [Mapping.drawTwo]
  by_cases hfew : m.size < 2
  · rw [if_pos hfew, if_neg (by omega)]
    exact .pure trivial
  · obtain ⟨size, hsucc⟩ : ∃ size, m.size = size + 1 := ⟨m.size - 1, by omega⟩
    have hbound : ((m.size : Int) - 1) = (size : Nat) := by omega
    rw [if_neg hfew, if_pos (by omega), hbound]
    exact (index (by omega) hsize).bind fun _ _ =>
      (index (by omega) (by omega)).bind fun _ _ => .lift rfl trivial

theorem swapped (s : Solution Float τ ρ) (hsize : s.mapping.size < 2 ^ 63) :
    Draws (if 2 ≤ s.mapping.size then 2 else 0) (fun _ => True) (Landscape.swapped s) := by
  have hdrawn : Draws (if 2 ≤ s.mapping.size then 2 else 0) (fun _ => True)
      (s.mapping.swapDrawn (Source.index : Int → Attempt (Source Float) Int)) := by
    refine bind (n := 0) (drawTwo s.mapping hsize) fun positions _ => ?_
    split <;> exact .pure trivial
  refine map _ (P := fun _ => True) (bind (n := 0) hdrawn fun swap _ => ?_) fun _ _ => trivial
  cases swap <;> exact .pure trivial

end Exchanges
end Draws

namespace Placement

variable {vms : List (Vm Int)} {hosts : List (Host Int)}

theorem draws_randomHost (hne : hosts ≠ []) (hlength : hosts.length < 2 ^ 63) :
    Draws 1 (· ∈ hosts) (randomHost hosts) := by
  refine (Draws.index (List.length_pos_iff.mpr hne) hlength).bind (n := 0) fun i hi => ?_
  obtain ⟨j, rfl, hj⟩ := hi
  refine Draws.lift (a := hosts[j]) ?_ (List.getElem_mem hj)
  rw [elementAt, if_neg (Int.not_lt.mpr (Int.natCast_nonneg j)),
    if_neg (Int.not_lt.mpr (Int.natCast_nonneg j)), Int.toNat_natCast,
    List.getElem?_eq_getElem hj]

theorem draws_bindAll (hne : hosts ≠ []) (hlength : hosts.length < 2 ^ 63)
    (s : Solution Float (Vm Int) (Host Int)) :
    Draws vms.length (fun _ => True) (bindAll hosts vms s) := by
  induction vms generalizing s with
  | nil => exact .pure trivial
  | cons vm rest ih =>
    rw [List.length_cons, Nat.add_comm]
    refine (draws_randomHost hne hlength).bind fun host _ => ?_
    rw [← Nat.zero_add rest.length]
    exact (Draws.lift (P := fun _ => True) (permit_vm vm) trivial).bind fun _ _ =>
      ih (s.bind vm host)

/-- A first placement draws a host for each machine, unless there are no hosts. -/
theorem draws_initial (hlength : hosts.length < 2 ^ 63) :
    Draws (if vms = [] ∨ hosts = [] then 0 else vms.length) (fun _ => True)
      (initial vms hosts none) := by
  by_cases hempty : vms = [] ∨ hosts = []
  · rw [if_pos hempty, initial_of_kept (Or.inr hempty)]
    exact .pure trivial
  · rw [if_neg hempty]
    rw [not_or] at hempty
    rw [initial_of_ready rfl hempty.1 hempty.2]
    exact draws_bindAll hempty.2 hlength nothing

end Placement
end AssignmentSearch
