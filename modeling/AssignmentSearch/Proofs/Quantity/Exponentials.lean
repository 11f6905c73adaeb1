import AssignmentSearch.Proofs.Binary64.Quotient
import AssignmentSearch.Proofs.Quantity.Doubles
import AssignmentSearch.Proofs.Quantity.Reals

/-!
# Order of quotients and exponentials

However they are rounded, differences and quotients of doubles keep the order of their operands, out
to the infinities, and integers made doubles keep their signs. The exponential is no part of this:
that it is the one of the real numbers, rounded by a monotone function, is a condition. Real numbers
meet it, and so do doubles with that exponential in the place of their own.
-/

namespace AssignmentSearch

open LawfulQuantity

/-- Differences and quotients keep the order of their operands, and integers their signs. -/
class OrderedArithmetic (α : Type) [Quantity α] [LawfulQuantity α] : Prop where
  value_mono : ∀ {x y : α}, x ≤ y → value x ≤ value y
  isFinite_of_unit : ∀ {x : α}, Quantity.zero ≤ x → x < Quantity.one → IsFinite x
  sub_mono : ∀ {x y z : α}, IsFinite x → IsFinite y → IsFinite z → value x ≤ value y → x - z ≤ y - z
  value_le_of_sub : ∀ {x y : α}, IsFinite x → IsFinite y → x - y ≤ Quantity.zero → value x ≤ value y
  quotient_mono : ∀ {d d' h h' : α}, Quantity.zero < d → d ≤ d' → IsFinite h → IsFinite h' →
    0 < value h → value h ≤ value h' → -d' / h ≤ -d / h'
  quotient_nonpos : ∀ {d h : α}, Quantity.zero < d → IsFinite h → 0 < value h →
    -d / h ≤ Quantity.zero
  ofInt?_sign : ∀ {n : Int} {x : α}, Quantity.ofInt? n = some x →
    IsFinite x ∧ (x ≤ Quantity.zero ↔ n ≤ 0) ∧ (Quantity.zero ≤ x ↔ 0 ≤ n)
  intLe_zero_iff : ∀ {x : α}, IsFinite x → (Quantity.intLe 0 x = true ↔ Quantity.zero ≤ x)

/-- Below zero the exponential is that of the real numbers, rounded by a monotone function that keeps
zero and one. -/
class RealExponential (α : Type) [Quantity α] [LawfulQuantity α] : Prop where
  exists_rounding : ∃ f : ℝ → ℝ, Monotone f ∧ f 0 = 0 ∧ f 1 = 1 ∧
    ∀ x : α, x ≤ Quantity.zero →
      IsFinite (Quantity.exp x) ∧ value (Quantity.exp x) = f (Real.exp (value x))

namespace RealExponential

variable {α : Type} [Quantity α] [LawfulQuantity α] [OrderedArithmetic α] [RealExponential α]

theorem exp_unit {x : α} (h : x ≤ Quantity.zero) :
    IsFinite (Quantity.exp x) ∧ 0 ≤ value (Quantity.exp x) ∧ value (Quantity.exp x) ≤ 1 := by
  obtain ⟨f, hf, hzero, hone, hexp⟩ := exists_rounding (α := α)
  obtain ⟨hfinite, hvalue⟩ := hexp x h
  have hx : value x ≤ 0 := (OrderedArithmetic.value_mono h).trans_eq value_zero
  rw [hvalue]
  refine ⟨hfinite, ?_, ?_⟩
  · rw [← hzero]
    exact hf (Real.exp_pos _).le
  · rw [← hone]
    exact hf (Real.exp_le_one_iff.mpr hx)

theorem exp_mono {x y : α} (hxy : x ≤ y) (hx : x ≤ Quantity.zero) (hy : y ≤ Quantity.zero) :
    value (Quantity.exp x) ≤ value (Quantity.exp y) := by
  obtain ⟨f, hf, -, -, hexp⟩ := exists_rounding (α := α)
  rw [(hexp x hx).2, (hexp y hy).2]
  exact hf (Real.exp_le_exp.mpr (OrderedArithmetic.value_mono hxy))

end RealExponential

instance instOrderedArithmeticReal : OrderedArithmetic ℝ where
  value_mono h := h
  isFinite_of_unit _ _ := trivial
  sub_mono _ _ _ h := sub_le_sub_right h _
  value_le_of_sub _ _ h := sub_nonpos.mp h
  quotient_mono := by
    intro d d' h h' hd hdd _ _ hh hhh
    have hd : (0 : ℝ) < d := hd
    have hh : (0 : ℝ) < h := hh
    have hhh : h ≤ h' := hhh
    have hdd : d ≤ d' := hdd
    have hquotient : d / h' ≤ d' / h := div_le_div₀ (hd.le.trans hdd) hdd hh hhh
    change -d' / h ≤ -d / h'
    rw [neg_div, neg_div]
    exact neg_le_neg hquotient
  quotient_nonpos := by
    intro d h hd _ hh
    have hd : (0 : ℝ) < d := hd
    have hh : (0 : ℝ) < h := hh
    change -d / h ≤ 0
    exact div_nonpos_of_nonpos_of_nonneg (neg_nonpos.mpr hd.le) hh.le
  ofInt?_sign := by
    rintro n x hx
    cases hx
    exact ⟨trivial, Int.cast_nonpos, Int.cast_nonneg_iff⟩
  intLe_zero_iff := by
    intro x _
    change decide ((0 : ℤ) ≤ ⌊x⌋) = true ↔ 0 ≤ x
    rw [decide_eq_true_iff, Int.floor_nonneg]

instance instRealExponentialReal : RealExponential ℝ where
  exists_rounding := ⟨id, monotone_id, rfl, rfl, fun _ _ => ⟨trivial, rfl⟩⟩

namespace Binary64

theorem roundRank_pos {n : Int} (h : 0 < n) : 0 < roundRank n := by
  have hone : roundRank 1 = 1 := by
    have hnearest : nearestInt 1 = 1 := by
      change nearestInt (1 : Nat) = 1
      rw [nearestInt_natCast]
      exact congrArg Nat.cast (nearestNat_eq_self (m := 1) (by decide) 0)
    have hceiling := ceiling_pos
    rw [roundRank, hnearest]
    omega
  have hmono : roundRank 1 ≤ roundRank n := roundRank_mono h
  omega

theorem exists_rank_of_pos {d : Float} (h : 0 < d) :
    decode d ≠ .nan ∧ ∃ a : Nat, 0 < a ∧ rank (decode d) = a := by
  have hnan := (ne_nan_of_le (le_of_float_lt h)).2
  rw [lt_iff_rank isWhole_zero.finite.ne_nan hnan, isWhole_zero.rank_eq, Int.zero_mul] at h
  exact ⟨hnan, (rank (decode d)).toNat, by omega, by omega⟩

theorem exists_rank_of_value_pos {h : Float} (hpos : 0 < valueOf h) :
    ∃ b : Nat, 0 < b ∧ rank (decode h) = b := by
  rw [valueOf, div_pos_iff_of_pos_right unit_real_pos, Int.cast_pos] at hpos
  exact ⟨(rank (decode h)).toNat, by omega, by omega⟩

theorem sub_mono {x y z : Float} (hx : IsFinite x) (hy : IsFinite y) (hz : IsFinite z)
    (h : valueOf x ≤ valueOf y) : x - z ≤ y - z := by
  rw [le_iff_rank (decode_sub_ne_nan hx hz) (decode_sub_ne_nan hy hz), rank_sub hx hz,
    rank_sub hy hz]
  exact roundRank_mono (Int.sub_le_sub_right (valueOf_le_iff.mp h) _)

/-- Unequal doubles have a difference, however close they are. -/
theorem value_le_of_sub {x y : Float} (hx : IsFinite x) (hy : IsFinite y) (h : x - y ≤ 0) :
    valueOf x ≤ valueOf y := by
  rw [le_iff_rank (decode_sub_ne_nan hx hy) isWhole_zero.finite.ne_nan, rank_sub hx hy,
    isWhole_zero.rank_eq, Int.zero_mul] at h
  rw [valueOf_le_iff]
  by_contra hlt
  exact absurd (roundRank_pos (n := rank (decode x) - rank (decode y)) (by omega)) (by omega)

theorem quotient_mono {d d' h h' : Float} (hd : 0 < d) (hdd : d ≤ d') (hh : IsFinite h)
    (hh' : IsFinite h') (hpos : 0 < valueOf h) (hle : valueOf h ≤ valueOf h') :
    -d' / h ≤ -d / h' := by
  obtain ⟨hnan, a, ha, hranka⟩ := exists_rank_of_pos hd
  obtain ⟨b, hb, hrankb⟩ := exists_rank_of_value_pos hpos
  obtain ⟨b', hb', hrankb'⟩ := exists_rank_of_value_pos (hpos.trans_le hle)
  have hnan' := (ne_nan_of_le hdd).2
  -- The greater dividend may be infinite; its rank is a natural all the same.
  have haa := (le_iff_rank hnan hnan').mp hdd
  have hbb := valueOf_le_iff.mp hle
  obtain ⟨a', hranka'⟩ : ∃ a' : Nat, rank (decode d') = a' := ⟨(rank (decode d')).toNat, by omega⟩
  obtain ⟨hleft, hrankleft⟩ := rank_neg_div (a := a') (by omega) hb hnan' hranka' hh hrankb
  obtain ⟨hright, hrankright⟩ := rank_neg_div ha hb' hnan hranka hh' hrankb'
  rw [le_iff_rank hleft hright, hrankleft, hrankright]
  have hmono : quotientRank a b' ≤ quotientRank a' b := quotientRank_mono hb (by omega) (by omega)
  omega

theorem quotient_nonpos {d h : Float} (hd : 0 < d) (hh : IsFinite h) (hpos : 0 < valueOf h) :
    -d / h ≤ 0 := by
  obtain ⟨hnan, a, ha, hranka⟩ := exists_rank_of_pos hd
  obtain ⟨b, hb, hrankb⟩ := exists_rank_of_value_pos hpos
  obtain ⟨hleft, hrank⟩ := rank_neg_div ha hb hnan hranka hh hrankb
  rw [le_iff_rank hleft isWhole_zero.finite.ne_nan, hrank, isWhole_zero.rank_eq]
  omega

theorem zero_le_iff_rank {x : Float} (hx : IsFinite x) : 0 ≤ x ↔ 0 ≤ rank (decode x) := by
  rw [le_iff_rank isWhole_zero.finite.ne_nan hx.ne_nan, isWhole_zero.rank_eq, Int.zero_mul]

theorem le_zero_iff_rank {x : Float} (hx : IsFinite x) : x ≤ 0 ↔ rank (decode x) ≤ 0 := by
  rw [le_iff_rank hx.ne_nan isWhole_zero.finite.ne_nan, isWhole_zero.rank_eq, Int.zero_mul]

theorem intLe_zero_iff {x : Float} (hx : IsFinite x) : intLeFloat 0 x = true ↔ 0 ≤ x := by
  rw [zero_le_iff_rank hx]
  obtain ⟨d, hd⟩ := hx
  rw [intLeFloat, hd]
  exact decide_eq_true_iff.trans Dyad.floor_nonneg_iff

end Binary64

open Binary64

instance instOrderedArithmeticFloat : OrderedArithmetic Float where
  value_mono h := valueOf_le_iff.mpr ((le_iff_rank (ne_nan_of_le h).1 (ne_nan_of_le h).2).mp h)
  isFinite_of_unit hzero hone := (exists_rank_of_unit hzero hone).1
  sub_mono := Binary64.sub_mono
  value_le_of_sub := Binary64.value_le_of_sub
  quotient_mono := Binary64.quotient_mono
  quotient_nonpos := Binary64.quotient_nonpos
  ofInt?_sign := by
    rintro n x hx
    obtain ⟨hfinite, hnonpos, hnonneg⟩ := Binary64.ofInt?_sign hx
    exact ⟨hfinite, (le_zero_iff_rank hfinite).trans hnonpos,
      (zero_le_iff_rank hfinite).trans hnonneg⟩
  intLe_zero_iff := Binary64.intLe_zero_iff

section Replaced

variable {α : Type} [q : Quantity α]

@[reducible] def Quantity.withExp (exp : α → α) : Quantity α := { q with exp }

/-- The laws of quantities say nothing of the exponential. -/
@[reducible] def LawfulQuantity.withExp [l : LawfulQuantity α] (exp : α → α) :
    @LawfulQuantity α (Quantity.withExp exp) :=
  let _ := Quantity.withExp exp
  { l with }

theorem OrderedArithmetic.withExp [LawfulQuantity α] [o : OrderedArithmetic α] (exp : α → α) :
    @OrderedArithmetic α (Quantity.withExp exp) (LawfulQuantity.withExp exp) :=
  @OrderedArithmetic.mk α (Quantity.withExp exp) (LawfulQuantity.withExp exp) o.value_mono
    o.isFinite_of_unit o.sub_mono o.value_le_of_sub o.quotient_mono o.quotient_nonpos
    o.ofInt?_sign o.intLe_zero_iff

end Replaced

def ExpDouble : Type := Float

namespace ExpDouble

/-- The real exponential in units of the least positive double, rounded to 53 bits. What is no
number has none. -/
noncomputable def exp (x : Float) : Float :=
  if decode x = .nan then x
  else .ofModel (Float.Model.pack (Float.Model.UnpackedFloat.normalize .binary64
    ⌊Real.exp (valueOf x) * unit⌋ (-1074) .positive))

noncomputable instance instQuantity : Quantity ExpDouble := Quantity.withExp (α := Float) exp

noncomputable instance instLawfulQuantity : LawfulQuantity ExpDouble :=
  LawfulQuantity.withExp (α := Float) exp

instance instOrderedArithmetic : OrderedArithmetic ExpDouble :=
  OrderedArithmetic.withExp (α := Float) exp

instance instPrinted : Printed ExpDouble := inferInstanceAs (Printed Float)

theorem valueOf_exp {x : Float} (h : decode x ≠ .nan) :
    decode (exp x) ≠ .nan ∧ valueOf (exp x) = roundValue (Real.exp (valueOf x)) := by
  obtain ⟨hnan, hrank⟩ :=
    packsTo_normalize ⌊Real.exp (valueOf x) * unit⌋ (e := -1074) le_rfl .positive
  have hunits : ((2 ^ (-1074 + 1074 : Int).toNat : Nat) : Int) = 1 := rfl
  rw [hunits, Int.mul_one] at hrank
  rw [exp, if_neg h]
  refine ⟨hnan, ?_⟩
  rw [valueOf, hrank, roundValue]

theorem isFinite_of_valueOf {x : Float} (hnan : decode x ≠ .nan) (hlow : 0 ≤ valueOf x)
    (hhigh : valueOf x ≤ 1) : Binary64.IsFinite x := by
  rw [valueOf, le_div_iff₀ unit_real_pos, zero_mul, Int.cast_nonneg_iff] at hlow
  rw [valueOf, div_le_one unit_real_pos, ← Int.cast_natCast, Int.cast_le] at hhigh
  have hunit := abs_mul_unit_lt (n := 1) (by decide)
  rw [Int.one_mul, Nat.abs_cast] at hunit
  refine isFinite_of_rank hnan ?_
  rw [abs_of_nonneg hlow]
  exact hhigh.trans_lt hunit

instance instRealExponential : RealExponential ExpDouble where
  exists_rounding := by
    refine ⟨roundValue, roundValue_mono, round_zero (α := Float), round_one (α := Float), ?_⟩
    intro x hx
    obtain ⟨hnan, hvalue⟩ := valueOf_exp (ne_nan_of_le hx).1
    have hle : valueOf x ≤ 0 := (OrderedArithmetic.value_mono (α := Float) hx).trans_eq value_zero
    have hlow : roundValue 0 ≤ roundValue (Real.exp (valueOf x)) :=
      roundValue_mono (Real.exp_pos _).le
    have hhigh : roundValue (Real.exp (valueOf x)) ≤ roundValue 1 :=
      roundValue_mono (Real.exp_le_one_iff.mpr hle)
    have hzero : roundValue 0 = 0 := round_zero (α := Float)
    have hone : roundValue 1 = 1 := round_one (α := Float)
    rw [hzero, ← hvalue] at hlow
    rw [hone, ← hvalue] at hhigh
    exact ⟨isFinite_of_valueOf hnan hlow hhigh, hvalue⟩

end ExpDouble

end AssignmentSearch
