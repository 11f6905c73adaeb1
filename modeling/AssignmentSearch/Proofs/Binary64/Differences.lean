import AssignmentSearch.Proofs.Binary64.Whole

/-!
# Differences of any two doubles

A difference is no number if one of the two is none, or if both are the same infinity. Otherwise
the two differences have opposite ranks, and a negative one shows the smaller minuend.
-/

namespace AssignmentSearch
open Float.Model Float.Model.UnpackedFloat

namespace Binary64

/-- Whether two doubles have a difference: both are numbers, and they are not the same infinity. -/
def HasDifference (x y : Float) : Prop :=
  decode x ≠ .nan ∧ decode y ≠ .nan ∧
    ∀ negative, decode x = .infinite negative → decode y ≠ .infinite negative

instance instDecidableHasDifference (x y : Float) : Decidable (HasDifference x y) :=
  inferInstanceAs (Decidable (_ ∧ _ ∧ _))

theorem HasDifference.symm {x y : Float} (h : HasDifference x y) : HasDifference y x :=
  ⟨h.2.1, h.1, fun negative hy hx => h.2.2 negative hx hy⟩

theorem IsFinite.hasDifference_self {x : Float} (h : IsFinite x) : HasDifference x x := by
  obtain ⟨d, hd⟩ := h
  refine ⟨by simp [hd], by simp [hd], fun negative hx => ?_⟩
  simp [hd] at hx

theorem isFinite_of_hasDifference_self {x : Float} (h : HasDifference x x) : IsFinite x := by
  cases hx : decode x with
  | nan => exact absurd hx h.1
  | infinite negative => exact absurd hx (h.2.2 negative hx)
  | finite d => exact ⟨d, hx⟩

theorem unpack_of_nan {x : Float} (h : decode x = .nan) : x.toModel.unpack = .notANumber := by
  rw [← ofUnpacked_toModel] at h
  cases hu : x.toModel.unpack with
  | notANumber => rfl
  | _ => simp [hu, ofUnpacked] at h

theorem unpack_of_infinite {x : Float} {negative : Bool} (h : decode x = .infinite negative) :
    ∃ s, x.toModel.unpack = .infinity s ∧ isNegative s = negative := by
  rw [← ofUnpacked_toModel] at h
  cases hu : x.toModel.unpack with
  | infinity s =>
    rw [hu, ofUnpacked, infinite.injEq] at h
    exact ⟨s, rfl, h⟩
  | _ => simp [hu, ofUnpacked] at h

theorem isNegative_inj {s t : Sign} (h : isNegative s = isNegative t) : s = t := by
  cases s <;> cases t <;> simp [isNegative] at h <;> rfl

theorem decode_sub (x y : Float) :
    decode (x - y) = decode (.ofModel (Float.Model.pack
      (x.toModel.unpack.sub Format.binary64 y.toModel.unpack))) := rfl

theorem decode_pack_notANumber :
    decode (.ofModel (Float.Model.pack .notANumber)) = .nan := by
  decide +kernel

theorem sub_notANumber (u : UnpackedFloat) : u.sub Format.binary64 .notANumber = .notANumber := by
  cases u <;> rw [UnpackedFloat.sub] <;> simp

theorem notANumber_sub (u : UnpackedFloat) :
    UnpackedFloat.sub Format.binary64 .notANumber u = .notANumber := by
  rw [UnpackedFloat.sub]

theorem infinity_sub_self (s : Sign) :
    UnpackedFloat.sub Format.binary64 (.infinity s) (.infinity s) = .notANumber := by
  cases s <;> rfl

theorem decode_sub_eq_nan {x y : Float} (h : ¬ HasDifference x y) : decode (x - y) = .nan := by
  rw [decode_sub]
  by_cases hx : decode x = .nan
  · rw [unpack_of_nan hx, notANumber_sub, decode_pack_notANumber]
  by_cases hy : decode y = .nan
  · rw [unpack_of_nan hy, sub_notANumber, decode_pack_notANumber]
  · have hsame : ∃ negative, decode x = .infinite negative ∧ decode y = .infinite negative := by
      by_contra hnone
      exact h ⟨hx, hy, fun negative hx hy => hnone ⟨negative, hx, hy⟩⟩
    obtain ⟨negative, hx, hy⟩ := hsame
    obtain ⟨s, hs, hsign⟩ := unpack_of_infinite hx
    obtain ⟨t, ht, rfl⟩ := unpack_of_infinite hy
    rw [hs, ht, isNegative_inj hsign, infinity_sub_self, decode_pack_notANumber]

theorem isNegative_neg (s : Sign) : isNegative (-s) = !isNegative s := by
  cases s <;> rfl

theorem decode_sub_infinite {x y : Float} {negative : Bool} (hx : decode x = .infinite negative)
    (h : HasDifference x y) :
    decode (x - y) = .infinite negative ∧ decode (y - x) = .infinite !negative := by
  obtain ⟨-, hnan, hother⟩ := h
  have hother := hother negative hx
  obtain ⟨s, hs, rfl⟩ := unpack_of_infinite hx
  rw [← ofUnpacked_toModel] at hnan hother
  rw [← isNegative_neg, decode_sub, decode_sub, hs]
  cases hu : y.toModel.unpack with
  | notANumber => exact absurd (congrArg ofUnpacked hu) hnan
  | infinity t =>
    have hne : t ≠ s := fun heq => hother (by rw [hu, heq, ofUnpacked])
    cases s <;> cases t <;> first | exact absurd rfl hne | exact ⟨rfl, rfl⟩
  | zero t => exact ⟨decode_pack_infinity s, decode_pack_infinity (-s)⟩
  | finite t m e hm => exact ⟨decode_pack_infinity s, decode_pack_infinity (-s)⟩

theorem HasDifference.cases {x y : Float} (h : HasDifference x y) :
    (IsFinite x ∧ IsFinite y) ∨ (∃ negative, decode x = .infinite negative) ∨
      ∃ negative, decode y = .infinite negative := by
  cases hx : decode x with
  | nan => exact absurd hx h.1
  | infinite negative => exact Or.inr (Or.inl ⟨negative, rfl⟩)
  | finite d =>
    cases hy : decode y with
    | nan => exact absurd hy h.2.1
    | infinite negative => exact Or.inr (Or.inr ⟨negative, rfl⟩)
    | finite d' => exact Or.inl ⟨⟨d, hx⟩, d', hy⟩

theorem HasDifference.sub_ne_nan {x y : Float} (h : HasDifference x y) : decode (x - y) ≠ .nan := by
  obtain ⟨hx, hy⟩ | ⟨negative, hx⟩ | ⟨negative, hy⟩ := h.cases
  · exact decode_sub_ne_nan hx hy
  · simp [(decode_sub_infinite hx h).1]
  · simp [(decode_sub_infinite hy h.symm).2]

theorem nearestInt_neg (n : Int) : nearestInt (-n) = -nearestInt n := by
  obtain ⟨m, rfl | rfl⟩ := Int.eq_nat_or_neg n
  · rw [nearestInt_neg_natCast, nearestInt_natCast]
  · rw [neg_neg, nearestInt_neg_natCast, nearestInt_natCast, neg_neg]

theorem roundRank_neg (n : Int) : roundRank (-n) = -roundRank n := by
  have hc := ceiling_pos
  simp only [roundRank, nearestInt_neg]
  omega

theorem rank_infinite_not (negative : Bool) :
    rank (.infinite !negative) = -rank (.infinite negative) := by
  cases negative
  · rfl
  · exact (Int.neg_neg _).symm

theorem HasDifference.rank_sub_swap {x y : Float} (h : HasDifference x y) :
    rank (decode (y - x)) = -rank (decode (x - y)) := by
  obtain ⟨hx, hy⟩ | ⟨negative, hx⟩ | ⟨negative, hy⟩ := h.cases
  · rw [rank_sub hx hy, rank_sub hy hx, ← roundRank_neg, neg_sub]
  · obtain ⟨hxy, hyx⟩ := decode_sub_infinite hx h
    rw [hxy, hyx, rank_infinite_not]
  · obtain ⟨hyx, hxy⟩ := decode_sub_infinite hy h.symm
    rw [hxy, hyx, rank_infinite_not, Int.neg_neg]

theorem rank_lt_of_infinite {x y : Float} {negative : Bool} (hx : decode x = .infinite negative)
    (h : HasDifference x y) :
    if negative then rank (decode x) < rank (decode y) else rank (decode y) < rank (decode x) := by
  have hc := ceiling_pos
  have hlow : rank (.infinite true) = -(ceiling : Int) := rfl
  have hhigh : rank (.infinite false) = (ceiling : Int) := rfl
  rw [hx]
  cases hy : decode y with
  | nan => exact absurd hy h.2.1
  | infinite other =>
    have hother : other ≠ negative := fun heq => h.2.2 negative hx (heq ▸ hy)
    cases negative <;> cases other <;> first | exact absurd rfl hother | skip
    · simp only [Bool.false_eq_true, if_false]
      omega
    · simp only [if_true]
      omega
  | finite d =>
    have habs := abs_lt.mp (abs_rank_lt ⟨d, hy⟩)
    rw [hy] at habs
    cases negative
    · simpa only [Bool.false_eq_true, if_false, hhigh] using habs.2
    · simpa only [if_true, hlow] using habs.1

theorem HasDifference.rank_lt {x y : Float} (h : HasDifference x y)
    (hneg : rank (decode (x - y)) < 0) : rank (decode x) < rank (decode y) := by
  have hc := ceiling_pos
  have hhigh : rank (.infinite false) = (ceiling : Int) := rfl
  obtain ⟨hx, hy⟩ | ⟨negative, hx⟩ | ⟨negative, hy⟩ := h.cases
  · by_contra hle
    have hround := roundRank_mono (show 0 ≤ rank (decode x) - rank (decode y) by omega)
    rw [roundRank_zero, ← rank_sub hx hy] at hround
    omega
  · rw [(decode_sub_infinite hx h).1] at hneg
    cases negative
    · omega
    · exact rank_lt_of_infinite hx h
  · rw [(decode_sub_infinite hy h.symm).2] at hneg
    cases negative
    · exact rank_lt_of_infinite hy h.symm
    · rw [Bool.not_true] at hneg
      omega

end Binary64
end AssignmentSearch
