import AssignmentSearch.Proofs.Attempts
import AssignmentSearch.Proofs.Quantity.Lawful
import AssignmentSearch.Random.Source

/-!
# Samples from the unit interval

Samples are at least zero and below one. A generator gives nothing else; of a tape it is a
condition. Drawing positions keeps it.
-/

namespace AssignmentSearch

variable {α : Type} [Quantity α]

def Scalar.InUnit : Scalar α → Prop
  | .real x => Quantity.zero ≤ x ∧ x < Quantity.one
  | .whole n => n = 0
  | .truth b => b = false
  | .alien _ => False

def Source.InUnit (s : Source α) : Prop :=
  match s.supply with
  | .generator _ => True
  | .tape f => ∀ n, (f n).InUnit

def KeepsUnit {β : Type} (x : Attempt (Source α) β) : Prop :=
  ∀ s : Source α, s.InUnit → (x.start s).2.InUnit

namespace KeepsUnit

variable {β γ : Type}

theorem pure (a : β) : KeepsUnit (Pure.pure a : Attempt (Source α) β) := fun _ h => h

theorem lift (x : Except Fault β) : KeepsUnit (Attempt.lift x : Attempt (Source α) β) :=
  fun _ h => h

theorem bind {x : Attempt (Source α) β} {f : β → Attempt (Source α) γ} (hx : KeepsUnit x)
    (hf : ∀ a, KeepsUnit (f a)) : KeepsUnit (x >>= f) := by
  intro s hs
  have ht := hx s hs
  rw [Attempt.start_bind]
  rcases hr : x.start s with ⟨r, t⟩
  rw [hr] at ht
  cases r with
  | error e => exact ht
  | ok a => exact hf a t ht

theorem map {x : Attempt (Source α) β} (f : β → γ) (hx : KeepsUnit x) : KeepsUnit (f <$> x) := by
  intro s hs
  rw [Attempt.start_map]
  exact hx s hs

end KeepsUnit

namespace Source

theorem inUnit_next {s : Source α} (h : s.InUnit) : s.sample.2.InUnit := by
  rw [sample]
  cases hs : s.supply with
  | generator t => trivial
  | tape f =>
    rw [InUnit, hs] at h
    exact h

theorem inUnit_repeating {samples : List (Scalar α)} (hne : samples ≠ [])
    (h : ∀ x ∈ samples, x.InUnit) : (repeating samples).InUnit := by
  intro n
  have hlt : n % samples.toArray.size < samples.toArray.size := by
    apply Nat.mod_lt
    rw [List.size_toArray]
    exact List.length_pos_iff.mpr hne
  have hget : samples.toArray.getD (n % samples.toArray.size) (.real Quantity.zero) =
      samples.toArray[n % samples.toArray.size] := by
    rw [Array.getD, dif_pos hlt]
    rfl
  change (samples.toArray.getD (n % samples.toArray.size) (.real Quantity.zero)).InUnit
  rw [hget]
  apply h
  exact List.mem_toArray.mp (Array.getElem_mem hlt)

theorem keepsUnit_index (bound : Int) : KeepsUnit (index bound : Attempt (Source α) Int) := by
  intro s h
  by_cases hb : bound ≤ 0
  · rw [start_index_of_nonpos hb]
    exact h
  · rw [start_index_of_pos (by omega)]
    exact inUnit_next h

end Source

variable [LawfulQuantity α]

open LawfulQuantity

theorem Source.inUnit_sample {s : Source α} (h : s.InUnit) : s.sample.1.InUnit := by
  rw [sample]
  cases hs : s.supply with
  | generator t =>
    have hlt : t.next53.1 < 2 ^ 53 := t.next53_lt
    exact ⟨zero_le_fraction hlt, fraction_lt_one hlt⟩
  | tape f =>
    rw [InUnit, hs] at h
    exact h s.drawn

theorem Scalar.InUnit.le_one {x : Scalar α} (h : x.InUnit) :
    x.le (.real Quantity.one) = .ok true := by
  cases x with
  | real x =>
    rw [Scalar.le_real, decide_eq_true (le_of_lt h.2)]
  | whole n =>
    have hn : n = 0 := h
    simp only [Scalar.le, Scalar.numeral?, Numeral.le, hn, intLe_zero_one]
  | truth b =>
    have hb : b = false := h
    have h0 : Datum.ofBool false = 0 := rfl
    simp only [Scalar.le, Scalar.numeral?, Numeral.le, hb, h0, intLe_zero_one]
  | alien d => exact h.elim

theorem Scalar.InUnit.exists_quantity {x : Scalar α} (h : x.InUnit) : ∃ r, x.quantity = .ok r := by
  obtain ⟨z, hz⟩ := Option.isSome_iff_exists.mp (isSome_ofInt?_zero (α := α))
  cases x with
  | real x => exact ⟨x, rfl⟩
  | whole n =>
    have hn : n = 0 := h
    refine ⟨z, ?_⟩
    simp only [Scalar.quantity, Scalar.numeral?, Numeral.quantity, quantityOfInt, hn, hz]
  | truth b =>
    have hb : b = false := h
    have h0 : Datum.ofBool false = 0 := rfl
    refine ⟨z, ?_⟩
    simp only [Scalar.quantity, Scalar.numeral?, Numeral.quantity, quantityOfInt, hb, h0, hz]
  | alien d => exact h.elim

end AssignmentSearch
