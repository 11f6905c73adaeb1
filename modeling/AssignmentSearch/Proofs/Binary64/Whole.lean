import AssignmentSearch.Proofs.Binary64.Arithmetic

/-!
# Whole numbers and fractions as doubles

Integers of at most 53 bits are doubles, and sums and differences of them are exact. So are the
fractions that samples are made of.
-/

namespace AssignmentSearch
open Float.Model Float.Model.UnpackedFloat

theorem binaryOrder_two_pow {n : Nat} (hn : 0 < n) (b : Nat) :
    binaryOrder n (2 ^ b) = (n.log2 : Int) - b := by
  have hself := Nat.log2_self_le (n := n) (by omega)
  rw [binaryOrder, settle, Nat.log2_two_pow, scale]
  by_cases h : 0 ≤ -((n.log2 : Int) - b)
  · rw [if_pos h]
    obtain ⟨k, hk⟩ : ∃ k : Nat, b = n.log2 + k := ⟨b - n.log2, by omega⟩
    have hexp : (-((n.log2 : Int) - b)).toNat = k := by omega
    have hle : 2 ^ b ≤ n * Nat.pow 2 (-((n.log2 : Int) - b)).toNat := by
      rw [hexp, hk, Nat.pow_add]
      exact Nat.mul_le_mul_right _ hself
    exact if_pos hle
  · rw [if_neg h]
    obtain ⟨k, hk⟩ : ∃ k : Nat, n.log2 = b + k := ⟨n.log2 - b, by omega⟩
    have hexp : (- -((n.log2 : Int) - b)).toNat = k := by omega
    have hle : 2 ^ b * Nat.pow 2 (- -((n.log2 : Int) - b)).toNat ≤ n := by
      rw [hexp, Nat.pow_eq, ← Nat.pow_add, ← hk]
      exact hself
    exact if_pos hle

namespace Binary64

theorem ofBits_nearestBits {n b : Nat} (hn : 0 < n) (h : n < 2 ^ 53) (hb : b ≤ 1000) :
    ofBits (nearestBits n (2 ^ b)) =
      .finite ⟨false, n * 2 ^ (52 - n.log2), (n.log2 : Int) - b - 52⟩ := by
  have hlog : n.log2 < 53 := (Nat.log2_lt (by omega)).mpr h
  have hself := Nat.log2_self_le (n := n) (by omega)
  have hfull : 2 ^ 52 ≤ n * 2 ^ (52 - n.log2) := by
    calc 2 ^ 52 = 2 ^ n.log2 * 2 ^ (52 - n.log2) := by
          rw [← Nat.pow_add]
          congr 1
          omega
      _ ≤ _ := Nat.mul_le_mul_right _ hself
  have hlt : n * 2 ^ (52 - n.log2) < 2 ^ 53 := by
    calc n * 2 ^ (52 - n.log2) < 2 ^ (n.log2 + 1) * 2 ^ (52 - n.log2) :=
          Nat.mul_lt_mul_of_pos_right Nat.lt_log2_self (Nat.two_pow_pos _)
      _ = 2 ^ 53 := by
          rw [← Nat.pow_add]
          congr 1
          omega
  generalize hm : n * 2 ^ (52 - n.log2) = m at *
  have hq : max (binaryOrder n (2 ^ b) - 52) (-1074) = (n.log2 : Int) - b - 52 := by
    rw [binaryOrder_two_pow hn]
    omega
  have hround : roundDiv (scale 2 n (2 ^ b) (-((n.log2 : Int) - b - 52))).1
      (scale 2 n (2 ^ b) (-((n.log2 : Int) - b - 52))).2 = m := by
    have hsplit : n * Nat.pow 2 (-((n.log2 : Int) - b - 52)).toNat = m * 2 ^ b := by
      rw [← hm, Nat.mul_assoc, ← Nat.pow_add, Nat.pow_eq]
      congr 2
      omega
    rw [scale, if_pos (by omega), hsplit]
    exact roundDiv_exact m (Nat.two_pow_pos b)
  obtain ⟨field, hfield⟩ : ∃ field : Nat, ((n.log2 : Int) - b - 52 + 1074).toNat = field := ⟨_, rfl⟩
  have hsucc : ((n.log2 : Int) - b + 1023).toNat = field + 1 := by omega
  have hbits : nearestBits n (2 ^ b) =
      (if false then 2048 * hiddenBit else 0) + (field + 1) * hiddenBit + (m - hiddenBit) := by
    have hlow : hiddenBit ≤ m := hfull
    have hhigh : m < 2 * hiddenBit := hlt
    have hle : field * hiddenBit ≤ 2045 * hiddenBit := Nat.mul_le_mul_right _ (by omega)
    have hinf : infinityBits = 2047 * hiddenBit := rfl
    rw [nearestBits, if_neg (by omega), Nat.add_mul field 1]
    simp only [hq, hround, hfield, hinf, Bool.false_eq_true, if_false]
    generalize hiddenBit = hidden at *
    omega
  have hmantissa : hiddenBit + (m - hiddenBit) = m := by
    rw [hiddenBit, Nat.pow_eq]
    omega
  have hexponent : ((field + 1 : Nat) : Int) - 1075 = (n.log2 : Int) - b - 52 := by omega
  rw [hbits, ofBits_fields false (by omega) (by rw [hiddenBit, Nat.pow_eq]; omega),
    if_neg (by omega), if_neg (by omega), hmantissa, hexponent]

theorem decode_zero : decode 0 = .finite ⟨false, 0, -1074⟩ := by decide +kernel

theorem nearestBits_zero (den : Nat) : nearestBits 0 den = 0 := rfl

theorem nearestBits_lt (num den : Nat) : nearestBits num den < 2 ^ 64 := by
  have hinf : infinityBits < 2 ^ 64 := by decide
  rw [nearestBits]
  split
  · decide
  · exact Nat.lt_of_le_of_lt (Nat.min_le_right _ _) hinf

theorem decode_ofBits_nearestBits (num den : Nat) :
    decode (Float.ofBits (nearestBits num den).toUInt64) = ofBits (nearestBits num den) := by
  rw [decode_ofBits]
  congr 1
  exact Nat.mod_eq_of_lt (nearestBits_lt num den)

theorem nearest_two_pow {n b : Nat} (h : n < 2 ^ 53) (hb : b ≤ 1000) :
    IsFinite (nearest n (2 ^ b)) ∧ rank (decode (nearest n (2 ^ b))) = magnitude n (-b) := by
  rcases Nat.eq_zero_or_pos n with rfl | hn
  · have hdecode : decode (nearest 0 (2 ^ b)) = .finite ⟨false, 0, -1074⟩ := by
      rw [nearest, decode_ofBits_nearestBits, nearestBits_zero]
      decide
    refine ⟨⟨_, hdecode⟩, ?_⟩
    rw [hdecode]
    simp [rank, magnitude]
  · have hlog : n.log2 < 53 := (Nat.log2_lt (by omega)).mpr h
    have hdecode := ofBits_nearestBits hn h hb
    rw [← decode_ofBits_nearestBits] at hdecode
    refine ⟨⟨_, hdecode⟩, ?_⟩
    rw [nearest, hdecode]
    simp only [rank, magnitude, Bool.false_eq_true, if_false]
    rw [Nat.mul_assoc, ← Nat.pow_add]
    congr 3
    omega

theorem decode_neg {x : Float} {d : Dyad} (h : decode x = .finite d) :
    decode (-x) = .finite { d with negative := !d.negative } := by
  have hproper := proper_toModel x
  change decode (.ofModel (Float.Model.pack x.toModel.unpack.neg)) = _
  rw [← ofUnpacked_toModel] at h
  cases hu : x.toModel.unpack with
  | notANumber => simp [hu, ofUnpacked] at h
  | infinity s => simp [hu, ofUnpacked] at h
  | zero s =>
    rw [hu, ofUnpacked, Binary64.finite.injEq] at h
    rw [UnpackedFloat.neg, decode_pack_zero, ← h]
    cases s <;> rfl
  | finite s m e hm =>
    rw [hu] at hproper
    rw [hu, ofUnpacked, Binary64.finite.injEq] at h
    rw [UnpackedFloat.neg, decode_pack_finite hproper.1 hproper.2, ← h]
    cases s <;> rfl

theorem IsFinite.neg {x : Float} (h : IsFinite x) : IsFinite (-x) := by
  obtain ⟨d, hd⟩ := h
  exact ⟨_, decode_neg hd⟩

theorem rank_neg {x : Float} (h : IsFinite x) : rank (decode (-x)) = -rank (decode x) := by
  obtain ⟨d, hd⟩ := h
  rw [decode_neg hd, hd]
  cases hn : d.negative <;> simp [rank, hn]

theorem isFinite_of_rank {x : Float} (hn : decode x ≠ .nan) (h : |rank (decode x)| < ceiling) :
    IsFinite x := by
  cases hx : decode x with
  | nan => exact absurd hx hn
  | infinite negative =>
    rw [hx, abs_lt] at h
    cases negative <;> simp only [rank, if_true, if_false, Bool.false_eq_true] at h <;> omega
  | finite d => exact ⟨d, hx⟩

theorem unpack_of_rank_ne_zero {x : Float} (h : IsFinite x) (h0 : rank (decode x) ≠ 0) :
    ∃ s m e, ∃ hm : 0 < m, x.toModel.unpack = .finite s m e hm ∧ Canonical m e := by
  have hb := bounded_unpack h
  rw [← ofUnpacked_toModel] at h0
  cases hu : x.toModel.unpack with
  | notANumber => exact (hu ▸ hb : Bounded .notANumber).elim
  | infinity s => exact (hu ▸ hb : Bounded (.infinity s)).elim
  | zero s =>
    rw [hu, rank_ofUnpacked_zero] at h0
    exact absurd rfl h0
  | finite s m e hm =>
    rw [hu] at hb
    exact ⟨s, m, e, hm, rfl, hb⟩

theorem canonical_inj {m n : Nat} {e f : Int} (hm : Canonical m e) (hn : Canonical n f)
    (h : magnitude m e = magnitude n f) : m = n ∧ e = f := by
  have hcompare := compare_magnitude hm hn
  rw [compare_eq_iff_eq.mpr h, Ordering.then_eq_eq, compare_eq_iff_eq, compare_eq_iff_eq] at hcompare
  exact ⟨hcompare.2, hcompare.1⟩

theorem rank_inj {x y : Float} (hx : IsFinite x) (hy : IsFinite y)
    (h : rank (decode x) = rank (decode y)) (h0 : rank (decode x) ≠ 0) : x = y := by
  obtain ⟨s, m, e, hm, hu, hcm⟩ := unpack_of_rank_ne_zero hx h0
  obtain ⟨t, n, f, hn, hv, hcn⟩ := unpack_of_rank_ne_zero hy (h ▸ h0)
  refine decode_inj ?_ hx.ne_nan
  rw [← ofUnpacked_toModel x, ← ofUnpacked_toModel y, hu, hv] at h ⊢
  rw [rank_ofUnpacked_finite, rank_ofUnpacked_finite] at h
  have hpm := @magnitude_pos m e hm
  have hpn := @magnitude_pos n f hn
  cases s <;> cases t <;> simp only [Sign.apply] at h
  · obtain ⟨rfl, rfl⟩ := canonical_inj hcm hcn (by omega)
    rfl
  · omega
  · omega
  · obtain ⟨rfl, rfl⟩ := canonical_inj hcm hcn (by omega)
    rfl

def unit : Nat := magnitude 1 0

theorem unit_pos : 0 < unit := magnitude_pos (by decide)

theorem mul_unit (n : Nat) : n * unit = magnitude n 0 := by
  rw [unit, magnitude, magnitude, Nat.one_mul]

/-- A double that is a given integer; zero is the positive one. -/
structure IsWhole (x : Float) (n : Int) : Prop where
  finite : IsFinite x
  rank_eq : rank (decode x) = n * unit
  zero : n = 0 → x = 0

theorem isWhole_zero : IsWhole 0 0 where
  finite := ⟨_, decode_zero⟩
  rank_eq := by
    rw [decode_zero, Int.zero_mul]
    simp [rank, magnitude]
  zero := fun _ => rfl

theorem IsWhole.unique {x y : Float} {n : Int} (hx : IsWhole x n) (hy : IsWhole y n) : x = y := by
  by_cases h : n = 0
  · rw [hx.zero h, hy.zero h]
  · refine rank_inj hx.finite hy.finite (hx.rank_eq.trans hy.rank_eq.symm) ?_
    rw [hx.rank_eq]
    exact Int.mul_ne_zero h (Int.natCast_ne_zero.mpr unit_pos.ne')

theorem abs_mul_unit_lt {n : Int} (h : n.natAbs < 2 ^ 53) : |n * unit| < ceiling := by
  have hlt : n.natAbs * unit < ceiling := by
    rw [mul_unit]
    exact magnitude_lt_ceiling h (by decide)
  rw [abs_mul, Int.abs_eq_natAbs, Nat.abs_cast]
  exact_mod_cast hlt

theorem roundRank_mul_unit {n : Int} (h : n.natAbs < 2 ^ 53) : roundRank (n * unit) = n * unit := by
  have habs := abs_lt.mp (abs_mul_unit_lt h)
  have hkeep : nearestInt (n * unit) = n * unit := by
    rcases Int.eq_nat_or_neg n with ⟨m, rfl | rfl⟩
    · rw [← Int.natCast_mul, nearestInt_natCast, mul_unit, nearestNat_magnitude (by simpa using h)]
    · rw [Int.neg_mul, ← Int.natCast_mul, nearestInt_neg_natCast, mul_unit,
        nearestNat_magnitude (by simpa using h)]
  simp only [roundRank, hkeep]
  omega

theorem add_eq_zero {x y : Float} (hx : IsFinite x) (hy : IsFinite y)
    (h : rank (decode x) + rank (decode y) = 0) (h0 : rank (decode x) ≠ 0) : x + y = 0 := by
  obtain ⟨s, m, e, hm, hu, hcm⟩ := unpack_of_rank_ne_zero hx h0
  obtain ⟨t, n, f, hn, hv, hcn⟩ := unpack_of_rank_ne_zero hy (by omega)
  have he := hcm.least
  have hf := hcn.least
  rw [← ofUnpacked_toModel x, ← ofUnpacked_toModel y, hu, hv, rank_ofUnpacked_finite,
    rank_ofUnpacked_finite, ← apply_scaled s m (f := min e f) (by omega) (by omega),
    ← apply_scaled t n (f := min e f) (by omega) (by omega), ← Int.add_mul] at h
  have hz := (Int.mul_eq_zero.mp h).resolve_right
    (Int.natCast_ne_zero.mpr (Nat.two_pow_pos _).ne')
  change Float.ofModel (Float.Model.pack
    (UnpackedFloat.add Format.binary64 x.toModel.unpack y.toModel.unpack)) = 0
  rw [hu, hv, UnpackedFloat.add]
  simp only [decreaseExponent, hz]
  rfl

theorem sub_eq_zero {x y : Float} (hx : IsFinite x) (hy : IsFinite y)
    (h : rank (decode x) = rank (decode y)) (h0 : rank (decode x) ≠ 0) : x - y = 0 := by
  obtain ⟨s, m, e, hm, hu, hcm⟩ := unpack_of_rank_ne_zero hx h0
  obtain ⟨t, n, f, hn, hv, hcn⟩ := unpack_of_rank_ne_zero hy (by omega)
  have he := hcm.least
  have hf := hcn.least
  rw [← Int.sub_eq_zero, ← ofUnpacked_toModel x, ← ofUnpacked_toModel y, hu, hv,
    rank_ofUnpacked_finite, rank_ofUnpacked_finite,
    ← apply_scaled s m (f := min e f) (by omega) (by omega),
    ← apply_scaled t n (f := min e f) (by omega) (by omega), ← Int.sub_mul] at h
  have hz := (Int.mul_eq_zero.mp h).resolve_right
    (Int.natCast_ne_zero.mpr (Nat.two_pow_pos _).ne')
  change Float.ofModel (Float.Model.pack
    (UnpackedFloat.sub Format.binary64 x.toModel.unpack y.toModel.unpack)) = 0
  rw [hu, hv, UnpackedFloat.sub]
  simp only [decreaseExponent, hz]
  rfl

theorem IsWhole.rank_ne_zero {x : Float} {n : Int} (hx : IsWhole x n) (h : n ≠ 0) :
    rank (decode x) ≠ 0 := by
  rw [hx.rank_eq]
  exact Int.mul_ne_zero h (Int.natCast_ne_zero.mpr unit_pos.ne')

/-- Sums of integers are exact as long as they have few bits. -/
theorem IsWhole.add {x y : Float} {a b : Int} (hx : IsWhole x a) (hy : IsWhole y b)
    (h : (a + b).natAbs < 2 ^ 53) : IsWhole (x + y) (a + b) := by
  have hrank : rank (decode (x + y)) = (a + b) * unit := by
    rw [rank_add hx.finite hy.finite, hx.rank_eq, hy.rank_eq, ← Int.add_mul, roundRank_mul_unit h]
  refine ⟨isFinite_of_rank (decode_add_ne_nan hx.finite hy.finite) ?_, hrank, fun hsum => ?_⟩
  · rw [hrank]
    exact abs_mul_unit_lt h
  · by_cases ha : a = 0
    · rw [hx.zero ha, hy.zero (by omega)]
      decide +kernel
    · refine add_eq_zero hx.finite hy.finite ?_ (hx.rank_ne_zero ha)
      rw [hx.rank_eq, hy.rank_eq, ← Int.add_mul, hsum, Int.zero_mul]

theorem IsWhole.sub {x y : Float} {a b : Int} (hx : IsWhole x a) (hy : IsWhole y b)
    (h : (a - b).natAbs < 2 ^ 53) : IsWhole (x - y) (a - b) := by
  have hrank : rank (decode (x - y)) = (a - b) * unit := by
    rw [rank_sub hx.finite hy.finite, hx.rank_eq, hy.rank_eq, ← Int.sub_mul, roundRank_mul_unit h]
  refine ⟨isFinite_of_rank (decode_sub_ne_nan hx.finite hy.finite) ?_, hrank, fun hdiff => ?_⟩
  · rw [hrank]
    exact abs_mul_unit_lt h
  · have hab : a = b := by omega
    by_cases ha : a = 0
    · rw [hx.zero ha, hy.zero (by omega)]
      decide +kernel
    · refine sub_eq_zero hx.finite hy.finite ?_ (hx.rank_ne_zero ha)
      rw [hx.rank_eq, hy.rank_eq, hab]

theorem nearestBits_lt_infinityBits {n : Nat} (h : n < 2 ^ 63) :
    nearestBits n 1 < infinityBits := by
  rcases Nat.eq_zero_or_pos n with rfl | hn
  · decide
  have hlog : n.log2 < 63 := (Nat.log2_lt (by omega)).mpr h
  have horder : binaryOrder n 1 = n.log2 := by
    rw [← Nat.pow_zero 2, binaryOrder_two_pow hn, Int.natCast_zero, Int.sub_zero]
  have hself : n < 2 ^ (n.log2 + 1) := Nat.lt_log2_self
  have hquotient : ∀ e : Int, e = 52 - n.log2 →
      (scale 2 n 1 e).1 / (scale 2 n 1 e).2 < 2 ^ 53 := by
    rintro e he
    rw [scale]
    split
    · rw [Nat.div_one, Nat.pow_eq]
      calc n * 2 ^ e.toNat < 2 ^ (n.log2 + 1) * 2 ^ e.toNat :=
            Nat.mul_lt_mul_of_pos_right hself (Nat.two_pow_pos _)
        _ = 2 ^ 53 := by
            rw [← Nat.pow_add]
            congr 1
            omega
    · rw [Nat.one_mul, Nat.pow_eq, Nat.div_lt_iff_lt_mul (Nat.two_pow_pos _), ← Nat.pow_add]
      exact Nat.lt_of_lt_of_le hself (Nat.pow_le_pow_right (by decide) (by omega))
  have hround := (roundDiv_bounds (scale 2 n 1 (52 - n.log2)).1 (scale 2 n 1 (52 - n.log2)).2).2
  have hq : max (binaryOrder n 1 - 52) (-1074) = (n.log2 : Int) - 52 := by
    rw [horder]
    omega
  have hlt := hquotient _ rfl
  have hfield : ((n.log2 : Int) - 52 + 1074).toNat * hiddenBit ≤ 1084 * hiddenBit :=
    Nat.mul_le_mul_right _ (by omega)
  have hhidden : (2 : Nat) ^ 53 = 2 * hiddenBit := rfl
  have hinf : infinityBits = 2047 * hiddenBit := rfl
  rw [nearestBits, if_neg (by omega)]
  simp only [hq, Int.neg_sub]
  rw [hhidden] at hlt
  have hpos : 0 < hiddenBit := by decide
  generalize hiddenBit = hidden at *
  omega

/-- A quotient that is not rounded to infinity is near a double, which is zero only if all its bits
are. -/
theorem exists_rank_nearest {num den : Nat} (h : nearestBits num den < infinityBits) :
    IsFinite (nearest num den) ∧ ∃ a : Nat, rank (decode (nearest num den)) = a ∧
      (a = 0 ↔ nearestBits num den = 0) := by
  have hinf : infinityBits = 2047 * hiddenBit := rfl
  have hpos : 0 < hiddenBit := by decide
  have hfield : nearestBits num den / hiddenBit < 2047 := by
    rw [Nat.div_lt_iff_lt_mul hpos, ← hinf]
    exact h
  have hdecode := decode_ofBits_nearestBits num den
  have hmod : nearestBits num den / hiddenBit % 2048 = nearestBits num den / hiddenBit :=
    Nat.mod_eq_of_lt (Nat.lt_succ_of_lt hfield)
  have hsplit := Nat.div_add_mod (nearestBits num den) hiddenBit
  rw [ofBits] at hdecode
  simp only [show ¬ 2048 * hiddenBit ≤ nearestBits num den by omega, decide_false, hmod,
    if_neg hfield.ne] at hdecode
  rw [nearest]
  split at hdecode
  · rename_i hzero
    refine ⟨⟨_, hdecode⟩, magnitude (nearestBits num den % hiddenBit) (-1074), ?_, ?_⟩
    · rw [hdecode]
      rfl
    · have hunit : magnitude (nearestBits num den % hiddenBit) (-1074) =
          nearestBits num den % hiddenBit := Nat.mul_one _
      rw [hunit]
      rw [hzero, Nat.mul_zero, Nat.zero_add] at hsplit
      rw [hsplit]
  · rename_i hnormal
    refine ⟨⟨_, hdecode⟩, magnitude (hiddenBit + nearestBits num den % hiddenBit)
      ((nearestBits num den / hiddenBit : Nat) - 1075), ?_, ?_⟩
    · rw [hdecode]
      rfl
    · have hmagnitude := magnitude_pos (e := (nearestBits num den / hiddenBit : Nat) - 1075)
        (Nat.add_pos_left hpos (nearestBits num den % hiddenBit))
      refine iff_of_false hmagnitude.ne' fun hzero => hnormal ?_
      rw [hzero, Nat.zero_div]

theorem exists_ofInt? {n : Nat} (h : n < 2 ^ 63) :
    ∃ (x : Float) (a : Nat), ofInt? n = some x ∧ IsFinite x ∧ rank (decode x) = a := by
  have hlt := nearestBits_lt_infinityBits h
  obtain ⟨hfinite, a, hrank, -⟩ := exists_rank_nearest hlt
  exact ⟨nearest n 1, a, by simp [ofInt?, nearest, hlt.ne], hfinite, hrank⟩

theorem nearestBits_pos {n : Nat} (hn : 0 < n) : 0 < nearestBits n 1 := by
  have horder : binaryOrder n 1 = n.log2 := by
    rw [← Nat.pow_zero 2, binaryOrder_two_pow hn, Int.natCast_zero, Int.sub_zero]
  have hpos : 0 < hiddenBit := by decide
  have hinf : 0 < infinityBits := by decide
  have hfield : 0 < (max (binaryOrder n 1 - 52) (-1074) + 1074).toNat := by
    rw [horder]
    omega
  rw [nearestBits, if_neg hn.ne']
  exact Nat.lt_min.mpr ⟨Nat.add_pos_left (Nat.mul_pos hfield hpos) _, hinf⟩

theorem ofInt?_sign {n : Int} {x : Float} (h : ofInt? n = some x) :
    IsFinite x ∧ (rank (decode x) ≤ 0 ↔ n ≤ 0) ∧ (0 ≤ rank (decode x) ↔ 0 ≤ n) := by
  have hle : nearestBits n.natAbs 1 ≤ infinityBits := by
    rw [nearestBits]
    split
    · exact Nat.zero_le _
    · exact Nat.min_le_right _ _
  have hne : nearestBits n.natAbs 1 ≠ infinityBits := by
    intro hinf
    simp [ofInt?, hinf] at h
  obtain ⟨hfinite, a, hrank, hzero⟩ := exists_rank_nearest (Nat.lt_of_le_of_ne hle hne)
  have hx : x = if n < 0 then -nearest n.natAbs 1 else nearest n.natAbs 1 := by
    simp only [ofInt?, hne, if_false, Option.some.injEq] at h
    exact h.symm
  have ha : a = 0 ↔ n = 0 := by
    rw [hzero]
    constructor
    · intro hbits
      by_contra hn
      exact absurd hbits (nearestBits_pos (Int.natAbs_pos.mpr hn)).ne'
    · rintro rfl
      rfl
  rw [hx]
  split
  · rw [rank_neg hfinite, hrank]
    exact ⟨hfinite.neg, by omega, by omega⟩
  · rw [hrank]
    exact ⟨hfinite, by omega, by omega⟩

theorem ofInt?_isWhole {n : Int} (h : n.natAbs < 2 ^ 53) :
    ∃ x, ofInt? n = some x ∧ IsWhole x n := by
  obtain ⟨hfinite, hrank⟩ := nearest_two_pow (b := 0) h (by decide)
  rw [Nat.pow_zero] at hfinite hrank
  rw [Int.natCast_zero, Int.neg_zero, ← mul_unit, Int.natCast_mul] at hrank
  refine ⟨if n < 0 then -nearest n.natAbs 1 else nearest n.natAbs 1, ?_, ?_, ?_, ?_⟩
  · simp only [ofInt?, (nearestBits_lt_infinityBits (h.trans (by decide))).ne, if_false, nearest]
  · split
    · exact hfinite.neg
    · exact hfinite
  · split
    · rename_i hneg
      rw [rank_neg hfinite, hrank, ← Int.neg_mul]
      congr 1
      omega
    · rename_i hpos
      rw [hrank]
      congr 1
      omega
  · rintro rfl
    decide +kernel

end Binary64
end AssignmentSearch
