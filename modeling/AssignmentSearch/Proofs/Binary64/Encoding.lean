import AssignmentSearch.Number.Binary64
import Mathlib

/-!
# Doubles by rank

The logical doubles are packed words. Here the reading of a word is tied to the unpacked form that
arithmetic works on, packing is undone, and the order of doubles is the order of integers: each
double has a rank, counted in units of the least positive double.
-/

namespace AssignmentSearch
open Float.Model Float.Model.UnpackedFloat

namespace Binary64

def isNegative : Sign → Bool
  | .negative => true
  | .positive => false

def ofUnpacked : UnpackedFloat → Binary64
  | .notANumber => .nan
  | .infinity s => .infinite (isNegative s)
  | .zero s => .finite ⟨isNegative s, 0, -1074⟩
  | .finite s m e _ => .finite ⟨isNegative s, m, e⟩

private theorem toNat_leading {w : Nat} (v : BitVec w) : (1#1 ++ v).toNat = 2 ^ w + v.toNat := by
  rw [BitVec.toNat_append, ← Nat.shiftLeft_add_eq_or_of_lt v.isLt]
  simp [Nat.shiftLeft_eq]

private theorem mantissa_field (b : BitVec 64) :
    (@unpackMantissa Format.binary64 b).toNat = b.toNat % hiddenBit := by
  simp [unpackMantissa, hiddenBit]

private theorem exponent_field (b : BitVec 64) :
    (@unpackExponent Format.binary64 b).toNat = b.toNat / hiddenBit % 2048 := by
  simp [unpackExponent, hiddenBit, Nat.shiftRight_eq_div_pow]

private theorem sign_field (b : BitVec 64) :
    isNegative (Sign.ofBitVec (@unpackSign Format.binary64 b)) =
      decide (2048 * hiddenBit ≤ b.toNat) := by
  have hb := b.isLt
  have hs : (@unpackSign Format.binary64 b).toNat = b.toNat / 2 ^ 63 % 2 := by
    simp [unpackSign, Nat.shiftRight_eq_div_pow]
  have hbit : 2048 * hiddenBit = 2 ^ 63 := rfl
  rw [hbit]
  by_cases h : @unpackSign Format.binary64 b = 0#1
  · have hlow : ¬ 2 ^ 63 ≤ b.toNat := by
      rw [h] at hs
      change 0 = _ at hs
      omega
    rw [h, decide_eq_false hlow]
    rfl
  · have hhigh : 2 ^ 63 ≤ b.toNat := by
      have h1 : (@unpackSign Format.binary64 b).toNat ≠ 0 :=
        fun h' => h (BitVec.eq_of_toNat_eq h')
      omega
    rw [decide_eq_true hhigh, Sign.ofBitVec, if_neg h]
    rfl

theorem ofUnpacked_unpack (b : BitVec 64) :
    ofUnpacked (UnpackedFloat.unpack Format.binary64 b) = ofBits b.toNat := by
  have hm := mantissa_field b
  have he := exponent_field b
  have hs := sign_field b
  have htop : @unpackExponent Format.binary64 b = -1#11 ↔
      b.toNat / hiddenBit % 2048 = 2047 := by
    rw [← he, BitVec.toNat_eq]
    rfl
  have hlow : @unpackExponent Format.binary64 b = 0#11 ↔
      b.toNat / hiddenBit % 2048 = 0 := by
    rw [← he, BitVec.toNat_eq]
    rfl
  have hzero : @unpackMantissa Format.binary64 b = 0#52 ↔ b.toNat % hiddenBit = 0 := by
    rw [← hm, BitVec.toNat_eq]
    rfl
  rw [UnpackedFloat.unpack, ofBits]
  by_cases h1 : b.toNat / hiddenBit % 2048 = 2047
  · rw [if_pos (htop.mpr h1), if_pos h1]
    by_cases h2 : b.toNat % hiddenBit = 0
    · rw [if_pos (hzero.mpr h2), if_pos h2, ofUnpacked, hs]
    · rw [if_neg (fun h => h2 (hzero.mp h)), if_neg h2, ofUnpacked]
  · rw [if_neg (fun h => h1 (htop.mp h)), if_neg h1]
    by_cases h3 : b.toNat / hiddenBit % 2048 = 0
    · rw [if_pos (hlow.mpr h3), if_pos h3]
      by_cases h2 : b.toNat % hiddenBit = 0
      · rw [dif_pos (hzero.mpr h2), ofUnpacked, hs, h2]
      · rw [dif_neg (fun h => h2 (hzero.mp h)), ofUnpacked, hs, hm, he, h3]
        rfl
    · rw [if_neg (fun h => h3 (hlow.mp h)), if_neg h3, ofUnpacked, hs, toNat_leading, hm, he]
      rfl

theorem ofUnpacked_toModel (x : Float) : ofUnpacked x.toModel.unpack = decode x :=
  ofUnpacked_unpack _

/-- A mantissa and an exponent as a double holds them: 53 bits, or fewer at the least exponent. -/
structure Canonical (m : Nat) (e : Int) : Prop where
  pos : 0 < m
  lt : m < 2 ^ 53
  least : -1074 ≤ e
  full : 2 ^ 52 ≤ m ∨ e = -1074

theorem ofBits_fields (negative : Bool) {field fraction : Nat} (hf : field < 2048)
    (hm : fraction < hiddenBit) :
    ofBits ((if negative then 2048 * hiddenBit else 0) + field * hiddenBit + fraction) =
      if field = 2047 then (if fraction = 0 then .infinite negative else .nan)
      else if field = 0 then .finite ⟨negative, fraction, -1074⟩
      else .finite ⟨negative, hiddenBit + fraction, (field : Int) - 1075⟩ := by
  have hpos : 0 < hiddenBit := Nat.lt_of_le_of_lt (Nat.zero_le _) hm
  generalize hword : (if negative then 2048 * hiddenBit else 0) + field * hiddenBit + fraction = word
  have hw : word = ((if negative then 2048 else 0) + field) * hiddenBit + fraction := by
    rw [← hword, Nat.add_mul]
    split <;> simp
  have hdiv : word / hiddenBit = (if negative then 2048 else 0) + field := by
    rw [hw, Nat.mul_comm, Nat.mul_add_div hpos, Nat.div_eq_of_lt hm, Nat.add_zero]
  have hmod : word % hiddenBit = fraction := by
    rw [hw, Nat.mul_add_mod_of_lt hm]
  have hsign : decide (2048 * hiddenBit ≤ word) = negative := by
    cases negative with
    | false =>
      apply decide_eq_false
      rw [← Nat.le_div_iff_mul_le hpos, hdiv]
      simpa using hf
    | true =>
      apply decide_eq_true
      rw [← Nat.le_div_iff_mul_le hpos, hdiv]
      simp
  have hfield : word / hiddenBit % 2048 = field := by
    rw [hdiv]
    split <;> omega
  rw [ofBits]
  simp only [hsign, hfield, hmod]

private theorem toNat_packComponents (s : Sign) (ev : BitVec 11) (mv : BitVec 52) :
    (packComponents Format.binary64 s ev mv).toNat =
      (if isNegative s then 2048 * hiddenBit else 0) + ev.toNat * hiddenBit + mv.toNat := by
  have hm : mv.toNat < 2 ^ 52 := mv.isLt
  have he : ev.toNat < 2 ^ 11 := ev.isLt
  have hinner : (s.toBitVec ++ ev).toNat = s.toBitVec.toNat * 2 ^ 11 + ev.toNat := by
    rw [BitVec.toNat_append, ← Nat.shiftLeft_add_eq_or_of_lt he, Nat.shiftLeft_eq]
  have houter : (s.toBitVec ++ ev ++ mv).toNat = (s.toBitVec ++ ev).toNat * 2 ^ 52 + mv.toNat := by
    rw [BitVec.toNat_append, ← Nat.shiftLeft_add_eq_or_of_lt hm, Nat.shiftLeft_eq]
  rw [packComponents, houter, hinner, hiddenBit]
  cases s with
  | negative => simp [Sign.toBitVec, isNegative]; omega
  | positive => simp [Sign.toBitVec, isNegative]

private theorem ofUnpacked_packComponents (s : Sign) (ev : BitVec 11) (mv : BitVec 52) :
    ofUnpacked (UnpackedFloat.unpack Format.binary64 (packComponents Format.binary64 s ev mv)) =
      if ev.toNat = 2047 then if mv.toNat = 0 then .infinite (isNegative s) else .nan
      else if ev.toNat = 0 then .finite ⟨isNegative s, mv.toNat, -1074⟩
      else .finite ⟨isNegative s, hiddenBit + mv.toNat, (ev.toNat : Int) - 1075⟩ := by
  rw [ofUnpacked_unpack, toNat_packComponents]
  exact ofBits_fields _ ev.isLt mv.isLt

theorem decode_ofModel_pack (u : UnpackedFloat) :
    decode (.ofModel (Float.Model.pack u)) =
      ofUnpacked (UnpackedFloat.unpack Format.binary64 (UnpackedFloat.pack Format.binary64 u)) :=
  (ofUnpacked_unpack _).symm

theorem log2_eq_iff_full {m : Nat} {e : Int} (h : Canonical m e) : m.log2 = 52 ↔ 2 ^ 52 ≤ m := by
  rw [Nat.log2_eq_iff (Nat.ne_of_gt h.pos)]
  exact ⟨fun h' => h'.1, fun h' => ⟨h', h.lt⟩⟩

theorem decode_pack_finite {s : Sign} {m : Nat} {e : Int} {hm : 0 < m} (h : Canonical m e)
    (hr : e ≤ 971) :
    decode (.ofModel (Float.Model.pack (.finite s m e hm))) = .finite ⟨isNegative s, m, e⟩ := by
  have hl := h.least
  have hlt := h.lt
  have hbiased : (e + (Format.binary64.exponentBias : Int) +
      (Format.binary64.mantissaBitsWithoutImplicit : Int)).toNat = (e + 1075).toNat := by
    change (e + 1023 + 52).toNat = _
    congr 1
    omega
  rw [decode_ofModel_pack, UnpackedFloat.pack]
  simp only [hbiased]
  rw [if_neg (by omega)]
  by_cases hfull : 2 ^ 52 ≤ m
  · have hlog := (log2_eq_iff_full h).mpr hfull
    rw [hlog, if_pos (show 52 + 1 = Format.binary64.mantissaBits from rfl),
      ofUnpacked_packComponents]
    have he : (BitVec.ofNat 11 (e + 1075).toNat).toNat = (e + 1075).toNat := by
      rw [BitVec.toNat_ofNat, Nat.mod_eq_of_lt (by omega)]
    have hmv : hiddenBit + (BitVec.ofNat 52 m).toNat = m := by
      rw [BitVec.toNat_ofNat, hiddenBit]
      change 2 ^ 52 + m % 2 ^ 52 = m
      omega
    have hexp : ((e + 1075).toNat : Int) - 1075 = e := by omega
    rw [he, hmv, hexp, if_neg (by omega), if_neg (by omega)]
  · have he := h.full.resolve_left hfull
    have hlog : ¬ m.log2 + 1 = Format.binary64.mantissaBits := by
      intro h'
      have h53 : m.log2 + 1 = 53 := h'
      exact hfull ((log2_eq_iff_full h).mp (by omega))
    have hmv : (BitVec.ofNat 52 m).toNat = m := by
      rw [BitVec.toNat_ofNat, Nat.mod_eq_of_lt (by omega)]
    rw [if_neg hlog, ofUnpacked_packComponents, hmv, he]
    rfl

theorem decode_pack_overflow {s : Sign} {m : Nat} {e : Int} {hm : 0 < m} (hr : 971 < e) :
    decode (.ofModel (Float.Model.pack (.finite s m e hm))) = .infinite (isNegative s) := by
  rw [decode_ofModel_pack, UnpackedFloat.pack]
  have hbiased : (e + (Format.binary64.exponentBias : Int) +
      (Format.binary64.mantissaBitsWithoutImplicit : Int)).toNat = (e + 1075).toNat := by
    change (e + 1023 + 52).toNat = _
    congr 1
    omega
  simp only [hbiased]
  rw [if_pos (by omega), packedInfinity, ofUnpacked_packComponents]
  rfl

theorem decode_pack_infinity (s : Sign) :
    decode (.ofModel (Float.Model.pack (.infinity s))) = .infinite (isNegative s) := by
  cases s <;> rfl

theorem decode_pack_zero (s : Sign) :
    decode (.ofModel (Float.Model.pack (.zero s))) = .finite ⟨isNegative s, 0, -1074⟩ := by
  cases s <;> rfl

/-- The mantissa and the exponent of a double other than zero are canonical and in range. -/
theorem canonical_of_ofBits {bits : Nat} {d : Dyad} (h : ofBits bits = .finite d)
    (hm : d.mantissa ≠ 0) : Canonical d.mantissa d.exponent ∧ d.exponent ≤ 971 := by
  have hlt : d.mantissa < 2 ^ 53 := mantissa_lt _ h
  rw [ofBits] at h
  have hfrac : bits % hiddenBit < 2 ^ 52 := Nat.mod_lt _ (by decide)
  have hfield : bits / hiddenBit % 2048 < 2048 := Nat.mod_lt _ (by decide)
  have hhidden : hiddenBit = 2 ^ 52 := rfl
  split at h
  · split at h <;> cases h
  · split at h
    · cases h
      exact ⟨⟨Nat.pos_of_ne_zero hm, hlt, by simp, Or.inr rfl⟩, by simp⟩
    · cases h
      refine ⟨⟨Nat.pos_of_ne_zero hm, hlt, ?_, Or.inl ?_⟩, ?_⟩ <;> simp only <;> omega

theorem ofBits_inj {a b : Nat} (ha : a < 2 ^ 64) (hb : b < 2 ^ 64) (h : ofBits a = ofBits b)
    (hn : ofBits a ≠ .nan) : a = b := by
  have hhidden : hiddenBit = 2 ^ 52 := rfl
  simp only [ofBits, hhidden] at h hn
  split_ifs at h hn <;> simp_all <;> omega

theorem decode_inj {x y : Float} (h : decode x = decode y) (hn : decode x ≠ .nan) : x = y := by
  have hbits : x.toBits.toNat = y.toBits.toNat :=
    ofBits_inj x.toBits.toNat_lt y.toBits.toNat_lt h hn
  exact Float.toBits_inj.mp (UInt64.toNat_inj.mp hbits)

/-- The magnitude of a mantissa at an exponent, in units of the least positive double. -/
def magnitude (m : Nat) (e : Int) : Nat := m * 2 ^ (e + 1074).toNat

def ceiling : Nat := magnitude (2 ^ 53) 971

/-- Where a double stands among the others, in units of the least positive one. The infinities stand
beyond all finite doubles; what is no number stands nowhere. -/
def rank : Binary64 → Int
  | .nan => 0
  | .infinite negative => if negative then -ceiling else ceiling
  | .finite d =>
    if d.negative then -magnitude d.mantissa d.exponent else magnitude d.mantissa d.exponent

theorem magnitude_lt {m n : Nat} {e f : Int} (hm : Canonical m e) (hn : Canonical n f)
    (h : e < f) : magnitude m e < magnitude n f := by
  have he := hm.least
  have hfull : 2 ^ 52 ≤ n := hn.full.resolve_right (by omega)
  calc m * 2 ^ (e + 1074).toNat < 2 ^ 53 * 2 ^ (e + 1074).toNat :=
        Nat.mul_lt_mul_of_pos_right hm.lt (Nat.two_pow_pos _)
    _ ≤ 2 ^ 52 * 2 ^ (f + 1074).toNat := by
        rw [← Nat.pow_add, ← Nat.pow_add]
        exact Nat.pow_le_pow_right (by decide) (by omega)
    _ ≤ n * 2 ^ (f + 1074).toNat := Nat.mul_le_mul_right _ hfull

/-- Canonical pairs are ordered by their exponents first. -/
theorem compare_magnitude {m n : Nat} {e f : Int} (hm : Canonical m e) (hn : Canonical n f) :
    (compare e f).then (compare m n) = compare (magnitude m e) (magnitude n f) := by
  rcases lt_trichotomy e f with h | h | h
  · rw [compare_lt_iff_lt.mpr h, compare_lt_iff_lt.mpr (magnitude_lt hm hn h)]
    rfl
  · subst h
    have hscale : ∀ {a b : Nat}, a < b → magnitude a e < magnitude b e :=
      fun h' => Nat.mul_lt_mul_of_pos_right h' (Nat.two_pow_pos _)
    rw [compare_eq_iff_eq.mpr rfl]
    rcases lt_trichotomy m n with h' | h' | h'
    · rw [compare_lt_iff_lt.mpr h', compare_lt_iff_lt.mpr (hscale h')]
      rfl
    · rw [compare_eq_iff_eq.mpr h', compare_eq_iff_eq.mpr (congrArg (magnitude · e) h')]
      rfl
    · rw [compare_gt_iff_gt.mpr h', compare_gt_iff_gt.mpr (hscale h')]
      rfl
  · rw [compare_gt_iff_gt.mpr h, compare_gt_iff_gt.mpr (magnitude_lt hn hm h)]
    rfl

theorem magnitude_lt_ceiling {m : Nat} {e : Int} (hm : m < 2 ^ 53) (he : e ≤ 971) :
    magnitude m e < ceiling := by
  have hexp : (e + 1074).toNat ≤ (971 + 1074 : Int).toNat := by omega
  calc m * 2 ^ (e + 1074).toNat < 2 ^ 53 * 2 ^ (e + 1074).toNat :=
        Nat.mul_lt_mul_of_pos_right hm (Nat.two_pow_pos _)
    _ ≤ ceiling := Nat.mul_le_mul_left _ (Nat.pow_le_pow_right (by decide) hexp)

theorem magnitude_pos {m : Nat} {e : Int} (hm : 0 < m) : 0 < magnitude m e :=
  Nat.mul_pos hm (Nat.two_pow_pos _)

theorem ceiling_pos : 0 < ceiling := magnitude_pos (by decide)

def Proper : UnpackedFloat → Prop
  | .finite _ m e _ => Canonical m e ∧ e ≤ 971
  | _ => True

theorem proper_unpack (b : BitVec 64) : Proper (UnpackedFloat.unpack Format.binary64 b) := by
  have h := ofUnpacked_unpack b
  cases hu : UnpackedFloat.unpack Format.binary64 b with
  | finite s m e hm =>
    rw [hu] at h
    exact canonical_of_ofBits h.symm (Nat.ne_of_gt hm)
  | _ => trivial

theorem proper_toModel (x : Float) : Proper x.toModel.unpack := proper_unpack _

theorem decode_ofBits (w : UInt64) : decode (Float.ofBits w) = ofBits w.toNat := by
  have hproper := proper_unpack w.toBitVec
  have hread := ofUnpacked_unpack w.toBitVec
  change decode (.ofModel (Float.Model.pack (UnpackedFloat.unpack Format.binary64 w.toBitVec))) = _
  cases hu : UnpackedFloat.unpack Format.binary64 w.toBitVec with
  | notANumber =>
    rw [hu] at hread
    exact hread
  | infinity s =>
    rw [hu] at hread
    exact (decode_pack_infinity s).trans hread
  | zero s =>
    rw [hu] at hread
    exact (decode_pack_zero s).trans hread
  | finite s m e hm =>
    rw [hu] at hread hproper
    exact (decode_pack_finite hproper.1 hproper.2).trans hread

private theorem compare_natCast (a b : Nat) : compare (a : Int) (b : Int) = compare a b := by
  rcases lt_trichotomy a b with h | h | h
  · rw [compare_lt_iff_lt.mpr h, compare_lt_iff_lt.mpr (Int.ofNat_lt.mpr h)]
  · rw [compare_eq_iff_eq.mpr h, compare_eq_iff_eq.mpr (congrArg _ h)]
  · rw [compare_gt_iff_gt.mpr h, compare_gt_iff_gt.mpr (Int.ofNat_lt.mpr h)]

private theorem compare_neg_neg (a b : Int) : compare (-a) (-b) = (compare a b).swap := by
  rcases lt_trichotomy a b with h | h | h
  · rw [compare_lt_iff_lt.mpr h, compare_gt_iff_gt.mpr (Int.neg_lt_neg h)]
    rfl
  · rw [compare_eq_iff_eq.mpr h, compare_eq_iff_eq.mpr (congrArg _ h)]
    rfl
  · rw [compare_gt_iff_gt.mpr h, compare_lt_iff_lt.mpr (Int.neg_lt_neg h)]
    rfl

private theorem some_lt {a b : Int} (h : a < b) : some Ordering.lt = some (compare a b) := by
  rw [compare_lt_iff_lt.mpr h]

private theorem some_gt {a b : Int} (h : b < a) : some Ordering.gt = some (compare a b) := by
  rw [compare_gt_iff_gt.mpr h]

theorem rank_ofUnpacked_infinity (s : Sign) : rank (ofUnpacked (.infinity s)) = s.apply ceiling := by
  cases s <;> rfl

theorem rank_ofUnpacked_zero (s : Sign) : rank (ofUnpacked (.zero s)) = 0 := by
  cases s <;> simp only [ofUnpacked, rank, magnitude, Nat.zero_mul, isNegative, if_true, if_false,
    Bool.false_eq_true, Int.natCast_zero, Int.neg_zero]

theorem rank_ofUnpacked_finite (s : Sign) (m : Nat) (e : Int) (hm : 0 < m) :
    rank (ofUnpacked (.finite s m e hm)) = s.apply (magnitude m e) := by
  cases s <;> rfl

private theorem compare_finite {s t : Sign} {m n : Nat} {e f : Int} {hm : 0 < m} {hn : 0 < n}
    (h : Canonical m e) (k : Canonical n f) :
    (UnpackedFloat.finite s m e hm).compare (.finite t n f hn) =
      some (compare (rank (ofUnpacked (.finite s m e hm))) (rank (ofUnpacked (.finite t n f hn)))) := by
  have hpos := @magnitude_pos m e hm
  have kpos := @magnitude_pos n f hn
  rw [rank_ofUnpacked_finite, rank_ofUnpacked_finite]
  cases s <;> cases t <;> simp only [UnpackedFloat.compare, Sign.apply]
  · rw [compare_neg_neg, compare_natCast, compare_magnitude h k]
  · exact some_lt (by omega)
  · exact some_gt (by omega)
  · rw [compare_natCast, compare_magnitude h k]

theorem compare_unpacked {u v : UnpackedFloat} (hu : Proper u) (hv : Proper v)
    (hun : u ≠ .notANumber) (hvn : v ≠ .notANumber) :
    u.compare v = some (compare (rank (ofUnpacked u)) (rank (ofUnpacked v))) := by
  have htop := ceiling_pos
  cases u with
  | notANumber => exact absurd rfl hun
  | infinity s =>
    rw [rank_ofUnpacked_infinity]
    cases v with
    | notANumber => exact absurd rfl hvn
    | infinity t =>
      rw [rank_ofUnpacked_infinity]
      cases s <;> cases t <;> simp only [UnpackedFloat.compare, Sign.apply]
      · exact (congrArg some (compare_eq_iff_eq.mpr rfl)).symm
      · exact some_lt (by omega)
      · exact some_gt (by omega)
      · exact (congrArg some (compare_eq_iff_eq.mpr rfl)).symm
    | zero t =>
      rw [rank_ofUnpacked_zero]
      cases s with
      | negative => exact some_lt (by rw [Sign.apply]; omega)
      | positive => exact some_gt (by rw [Sign.apply]; omega)
    | finite t n f hn =>
      have hlt := magnitude_lt_ceiling hv.1.lt hv.2
      rw [rank_ofUnpacked_finite]
      cases s <;> cases t <;> simp only [UnpackedFloat.compare, Sign.apply]
      · exact some_lt (by omega)
      · exact some_lt (by omega)
      · exact some_gt (by omega)
      · exact some_gt (by omega)
  | zero s =>
    rw [rank_ofUnpacked_zero]
    cases v with
    | notANumber => exact absurd rfl hvn
    | infinity t =>
      rw [rank_ofUnpacked_infinity]
      cases t with
      | negative => exact some_gt (by rw [Sign.apply]; omega)
      | positive => exact some_lt (by rw [Sign.apply]; omega)
    | zero t =>
      rw [rank_ofUnpacked_zero, compare_eq_iff_eq.mpr rfl]
      rfl
    | finite t n f hn =>
      have hpos := @magnitude_pos n f hn
      rw [rank_ofUnpacked_finite]
      cases t with
      | negative => exact some_gt (by rw [Sign.apply]; omega)
      | positive => exact some_lt (by rw [Sign.apply]; omega)
  | finite s m e hm =>
    have hpos := @magnitude_pos m e hm
    have hlt := magnitude_lt_ceiling hu.1.lt hu.2
    cases v with
    | notANumber => exact absurd rfl hvn
    | infinity t =>
      rw [rank_ofUnpacked_finite, rank_ofUnpacked_infinity]
      cases s <;> cases t <;> simp only [UnpackedFloat.compare, Sign.apply]
      · exact some_gt (by omega)
      · exact some_lt (by omega)
      · exact some_gt (by omega)
      · exact some_lt (by omega)
    | zero t =>
      rw [rank_ofUnpacked_finite, rank_ofUnpacked_zero]
      cases s with
      | negative => exact some_lt (by rw [Sign.apply]; omega)
      | positive => exact some_gt (by rw [Sign.apply]; omega)
    | finite t n f hn => exact compare_finite hu.1 hv.1

theorem le_iff_rank {x y : Float} (hx : decode x ≠ .nan) (hy : decode y ≠ .nan) :
    x ≤ y ↔ rank (decode x) ≤ rank (decode y) := by
  rw [← ofUnpacked_toModel] at hx hy ⊢
  rw [← ofUnpacked_toModel]
  have h := compare_unpacked (proper_toModel x) (proper_toModel y)
    (fun h => hx (by rw [h]; rfl)) (fun h => hy (by rw [h]; rfl))
  change (decide ((x.toModel.unpack.compare y.toModel.unpack).any (·.isLE) = true)) = true ↔ _
  rw [h, decide_eq_true_iff, Option.any_some, Ordering.isLE_iff_ne_gt, compare_gt_iff_gt, not_lt]

theorem lt_iff_rank {x y : Float} (hx : decode x ≠ .nan) (hy : decode y ≠ .nan) :
    x < y ↔ rank (decode x) < rank (decode y) := by
  rw [← ofUnpacked_toModel] at hx hy ⊢
  rw [← ofUnpacked_toModel]
  have h := compare_unpacked (proper_toModel x) (proper_toModel y)
    (fun h => hx (by rw [h]; rfl)) (fun h => hy (by rw [h]; rfl))
  change (decide ((x.toModel.unpack.compare y.toModel.unpack == some .lt) = true)) = true ↔ _
  rw [h, decide_eq_true_iff, beq_iff_eq, Option.some.injEq, compare_lt_iff_lt]

end Binary64
end AssignmentSearch
