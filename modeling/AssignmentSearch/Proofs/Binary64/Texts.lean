import AssignmentSearch.Number.Reading
import AssignmentSearch.Number.Layout
import AssignmentSearch.Proofs.Binary64.Quotient
import AssignmentSearch.Proofs.Binary64.Shortest

/-!
# Texts of doubles

The text of a double is read back as the double. Texts have a point with digits on both sides, or are
a digit with an exponent; the shape tells how they are read.
-/

namespace AssignmentSearch

namespace Reading

/-! ## Runs of digits -/

theorem digit_bounds {c : Char} (h : c.isDigit = true) : '0' ≤ c ∧ c ≤ '9' := by
  simpa [Char.isDigit, Char.le_def] using h

theorem digitValue?_digit {c : Char} (h : c.isDigit = true) :
    digitValue? c = some (c.toNat - '0'.toNat) :=
  digitValue?_ascii c (digit_bounds h)

theorem digit_rec {P : Char → Prop} (h : ∀ n < 10, P (Char.ofNat (48 + n))) {c : Char}
    (hc : c.isDigit = true) : P c := by
  obtain ⟨hlow, hhigh⟩ := digit_bounds hc
  have hlow' : 48 ≤ c.toNat := hlow
  have hhigh' : c.toNat ≤ 57 := hhigh
  have hc' := h (c.toNat - 48) (by omega)
  rwa [Nat.add_sub_cancel' hlow', Char.ofNat_toNat] at hc'

/-- Nothing, or something that goes on with neither a digit nor an underscore. -/
def EndsDigits (cs : List Char) : Prop := ∀ c ∈ cs.head?, digitValue? c = none ∧ c ≠ '_'

theorem endsDigits_nil : EndsDigits [] := nofun

theorem endsDigits_cons {c : Char} {cs : List Char} :
    EndsDigits (c :: cs) ↔ digitValue? c = none ∧ c ≠ '_' := by
  simp [EndsDigits]

theorem digitRun_of_endsDigits {rest : List Char} (h : EndsDigits rest) (seen : Bool)
    (value count : Nat) : digitRun seen value count rest = (value, count, rest) := by
  cases rest with
  | nil => rw [digitRun]
  | cons c rest =>
    obtain ⟨hvalue, hmark⟩ := endsDigits_cons.mp h
    unfold digitRun
    simp only [hvalue]
    split
    · contradiction
    · rfl

theorem digitRun_append {digits rest : List Char} (hdigits : ∀ c ∈ digits, c.isDigit = true)
    (hrest : EndsDigits rest) (seen : Bool) (value count : Nat) :
    digitRun seen value count (digits ++ rest) =
      (Nat.ofDigitChars 10 digits value, count + digits.length, rest) := by
  induction digits generalizing seen value count with
  | nil => exact digitRun_of_endsDigits hrest seen value count
  | cons c digits ih =>
    simp only [List.forall_mem_cons] at hdigits
    unfold digitRun
    simp only [List.cons_append, digitValue?_digit hdigits.1]
    rw [ih hdigits.2, Nat.ofDigitChars_cons, List.length_cons, Nat.add_right_comm, Nat.add_assoc]

/-! ## Shapes of numbers -/

/-- Nothing, or an exponent as it is written. -/
inductive IsTail : List Char → Int → Prop where
  | none : IsTail [] 0
  | exponent (e : Int) : IsTail (Layout.exponentText e).toList e

/-- The characters of a number without a sign, and the decimal that they write: digits around a point
and a tail, or a digit and an exponent. -/
inductive Writes : List Char → Decimal → Prop where
  | pointed {left right tail : List Char} {e : Int} (hne : left ≠ [])
    (hleft : ∀ c ∈ left, c.isDigit = true) (hright : ∀ c ∈ right, c.isDigit = true)
    (htail : IsTail tail e) :
    Writes (left ++ '.' :: (right ++ tail)) ⟨Nat.ofDigitChars 10 (left ++ right) 0, e - right.length⟩
  | pointless {c : Char} (hc : c.isDigit = true) (e : Int) :
    Writes (c :: (Layout.exponentText e).toList) ⟨Nat.ofDigitChars 10 [c] 0, e⟩

def exponentDigits (e : Int) : List Char :=
  let digits := Nat.toDigits 10 e.natAbs
  if digits.length < 2 then '0' :: digits else digits

theorem toList_exponentText (e : Int) :
    (Layout.exponentText e).toList = 'e' :: (if e < 0 then '-' else '+') :: exponentDigits e := by
  simp only [Layout.exponentText, exponentDigits, toString]
  split <;> split <;> simp_all [String.length]

theorem isDigit_exponentDigits (e : Int) : ∀ c ∈ exponentDigits e, c.isDigit = true := by
  have hdigits : ∀ c ∈ Nat.toDigits 10 e.natAbs, c.isDigit = true :=
    fun c hc => Nat.isDigit_of_mem_toDigits (by decide) (by decide) hc
  simp only [exponentDigits]
  split
  · exact List.forall_mem_cons.mpr ⟨rfl, hdigits⟩
  · exact hdigits

theorem ofDigitChars_exponentDigits (e : Int) : Nat.ofDigitChars 10 (exponentDigits e) 0 = e.natAbs := by
  simp only [exponentDigits]
  split
  · rw [Nat.ofDigitChars_cons]
    exact Nat.ofDigitChars_ten_toDigits
  · exact Nat.ofDigitChars_ten_toDigits

theorem exponentDigits_ne_nil (e : Int) : exponentDigits e ≠ [] := by
  simp only [exponentDigits]
  split
  · simp
  · exact Nat.toDigits_ne_nil

theorem exponent_of_isTail {tail : List Char} {e : Int} (h : IsTail tail e) : exponent tail = some e := by
  cases h with
  | none => rfl
  | exponent =>
    have hlength : (exponentDigits e).length ≠ 0 := by
      simpa using exponentDigits_ne_nil e
    have hrun := digitRun_append (isDigit_exponentDigits e) endsDigits_nil false 0 0
    rw [List.append_nil, ofDigitChars_exponentDigits, Nat.zero_add] at hrun
    rw [toList_exponentText]
    by_cases he : e < 0
    · simp only [exponent, he, if_true, sign, hrun, hlength, if_false, true_or]
      congr 1
      omega
    · simp only [exponent, he, if_false, sign, hrun, hlength, true_or, if_true, Bool.false_eq_true]
      congr 1
      omega

theorem IsTail.endsDigits {tail : List Char} {e : Int} (h : IsTail tail e) : EndsDigits tail := by
  cases h with
  | none => exact endsDigits_nil
  | exponent =>
    rw [toList_exponentText]
    exact endsDigits_cons.mpr ⟨by decide, by decide⟩

theorem special_of_digit {c : Char} (h : c.isDigit = true) (cs : List Char) : special (c :: cs) = none := by
  have hne (name : String) (hname : name.toList.head?.any Char.isDigit = false) :
      String.ofList ((c :: cs).map Char.toLower) ≠ name := by
    rintro rfl
    have hlower : c.toLower = c := digit_rec (P := fun c => c.toLower = c) (by decide) h
    simp [hlower, h] at hname
  simp only [special]
  rw [if_neg (not_or.mpr ⟨hne "inf" (by decide), hne "infinity" (by decide)⟩),
    if_neg (hne "nan" (by decide))]

theorem magnitude_of_writes {cs : List Char} {x : Decimal} (h : Writes cs x) :
    magnitude cs = some (Binary64.ofDecimal x.digits x.exponent) := by
  cases h with
  | @pointed left right tail e hne hleft hright htail =>
    obtain ⟨c, left, rfl⟩ := List.exists_cons_of_ne_nil hne
    have hpoint : EndsDigits ('.' :: (right ++ tail)) := endsDigits_cons.mpr ⟨by decide, by decide⟩
    have hspecial := special_of_digit (hleft c List.mem_cons_self) (left ++ '.' :: (right ++ tail))
    rw [magnitude, List.cons_append, hspecial, ← List.cons_append, digitRun_append hleft hpoint]
    simp only [fraction, digitRun_append hright htail.endsDigits, Nat.ofDigitChars_append,
      exponent_of_isTail htail, List.length_cons]
    simp
  | pointless hc e =>
    have hrun := digitRun_append (List.forall_mem_singleton.mpr hc)
      (IsTail.exponent e).endsDigits false 0 0
    have hpoint (value : Nat) : fraction value (Layout.exponentText e).toList =
        (value, 0, (Layout.exponentText e).toList) := by
      rw [toList_exponentText]
      rfl
    rw [magnitude, special_of_digit hc, ← List.singleton_append, hrun]
    simp [hpoint, exponent_of_isTail (.exponent e)]

/-! ## Texts that are written -/

def WritesAmount (cs : List Char) (v : ℚ) : Prop := ∃ y, Writes cs y ∧ y.amount = v

theorem WritesAmount.pointed {left right tail : List Char} {e : Int} {v : ℚ} (hne : left ≠ [])
    (hleft : ∀ c ∈ left, c.isDigit = true) (hright : ∀ c ∈ right, c.isDigit = true)
    (htail : IsTail tail e)
    (hv : (Nat.ofDigitChars 10 (left ++ right) 0 : ℚ) * 10 ^ (e - right.length) = v) :
    WritesAmount (left ++ '.' :: (right ++ tail)) v :=
  ⟨_, Writes.pointed hne hleft hright htail, hv⟩

theorem isDigit_zeros (n : Nat) : ∀ c ∈ List.replicate n '0', c.isDigit = true := by
  intro c hc
  rw [List.eq_of_mem_replicate hc]
  rfl

section

variable {digits : List Char} (hdigits : ∀ c ∈ digits, c.isDigit = true)

include hdigits

theorem writesAmount_zeros_before (k : Nat) :
    WritesAmount (['0'] ++ '.' :: ((List.replicate k '0' ++ digits) ++ []))
      (Nat.ofDigitChars 10 digits 0 * 10 ^ (-(k + digits.length : Int))) := by
  refine .pointed (by simp) (by simp) (List.forall_mem_append.mpr ⟨isDigit_zeros k, hdigits⟩) .none ?_
  rw [List.singleton_append, Nat.ofDigitChars_cons, Nat.ofDigitChars_append,
    Nat.ofDigitChars_replicate_zero]
  simp

theorem writesAmount_zeros_after (hne : digits ≠ []) (k : Nat) :
    WritesAmount ((digits ++ List.replicate k '0') ++ '.' :: (['0'] ++ []))
      (Nat.ofDigitChars 10 digits 0 * 10 ^ (k : Int)) := by
  refine .pointed (by simp [hne]) (List.forall_mem_append.mpr ⟨hdigits, isDigit_zeros k⟩) (by simp)
    .none ?_
  rw [Nat.ofDigitChars_append, Nat.ofDigitChars_append, Nat.ofDigitChars_replicate_zero]
  simp [Nat.ofDigitChars]
  ring

theorem writesAmount_point_inside {point : Nat} (hpoint : 0 < point) (hlt : point < digits.length) :
    WritesAmount (digits.take point ++ '.' :: (digits.drop point ++ []))
      (Nat.ofDigitChars 10 digits 0 * 10 ^ ((point : Int) - digits.length)) := by
  refine .pointed ?_ (fun c hc => hdigits c (List.mem_of_mem_take hc))
    (fun c hc => hdigits c (List.mem_of_mem_drop hc)) .none ?_
  · simp only [ne_eq, List.take_eq_nil_iff, not_or]
    exact ⟨hpoint.ne', List.ne_nil_of_length_pos (by omega)⟩
  · rw [List.take_append_drop, List.length_drop]
    congr 2
    omega

theorem writesAmount_exponent (hne : digits ≠ []) (e : Int) :
    WritesAmount ((Layout.pointAfter digits 1 "").toList ++ (Layout.exponentText e).toList)
      (Nat.ofDigitChars 10 digits 0 * 10 ^ (e + 1 - digits.length)) := by
  obtain ⟨c, rest, rfl⟩ := List.exists_cons_of_ne_nil hne
  rw [List.forall_mem_cons] at hdigits
  by_cases hrest : rest = []
  · subst hrest
    have htext : (Layout.pointAfter [c] 1 "").toList = [c] := by simp [Layout.pointAfter]
    rw [htext]
    refine ⟨_, Writes.pointless hdigits.1 e, ?_⟩
    simp [Decimal.amount]
  · have htext : (Layout.pointAfter (c :: rest) 1 "").toList ++ (Layout.exponentText e).toList =
        [c] ++ '.' :: (rest ++ (Layout.exponentText e).toList) := by
      simp [Layout.pointAfter, hrest]
    rw [htext]
    refine .pointed (by simp) (by simpa using hdigits.1) hdigits.2 (.exponent e) ?_
    rw [List.singleton_append, List.length_cons]
    congr 2
    omega

end

/-- The digits of a decimal, with a point or an exponent put in, write its amount. -/
theorem writesAmount_digitsText (x : Decimal) :
    WritesAmount (Layout.dataFile.digitsText x).toList x.amount := by
  have hdigits : ∀ c ∈ Nat.toDigits 10 x.digits, c.isDigit = true :=
    fun c hc => Nat.isDigit_of_mem_toDigits (by decide) (by decide) hc
  have hvalue : Nat.ofDigitChars 10 (Nat.toDigits 10 x.digits) 0 = x.digits :=
    Nat.ofDigitChars_ten_toDigits
  have hpos : 0 < (Nat.toDigits 10 x.digits).length := Nat.length_toDigits_pos
  have hwhole : Layout.dataFile.whole = ".0" := rfl
  rw [Layout.digitsText, hwhole]
  by_cases hx : x.digits = 0
  · rw [if_pos hx, Decimal.amount, hx]
    have h := writesAmount_zeros_after (show ∀ c ∈ ['0'], c.isDigit = true by simp) (by simp) 0
    simpa [Nat.ofDigitChars] using h
  rw [if_neg hx, Decimal.amount]
  generalize Nat.toDigits 10 x.digits = digits at hdigits hvalue hpos ⊢
  rw [← hvalue]
  have hne : digits ≠ [] := List.ne_nil_of_length_pos hpos
  simp only
  split
  · split
    · have h := writesAmount_zeros_before hdigits (-((digits.length : Int) - 1 + x.exponent) - 1).toNat
      rw [show -(((-((digits.length : Int) - 1 + x.exponent) - 1).toNat : Int) + digits.length) =
        x.exponent by omega] at h
      simpa using h
    · rcases lt_or_ge x.exponent 0 with hneg | hnonneg
      · have hpoint : 0 < ((digits.length : Int) - 1 + x.exponent).toNat + 1 := by omega
        have h := writesAmount_point_inside hdigits hpoint (by omega)
        rw [show ((((digits.length : Int) - 1 + x.exponent).toNat + 1 : Nat) : Int) - digits.length =
          x.exponent by omega] at h
        have hinside : ¬ digits.length ≤ ((digits.length : Int) - 1 + x.exponent).toNat + 1 := by omega
        have hnone : x.exponent.toNat = 0 := by omega
        simpa [Layout.pointAfter, hnone, hinside] using h
      · have h := writesAmount_zeros_after hdigits hne x.exponent.toNat
        rw [Int.toNat_of_nonneg hnonneg] at h
        have hend : ((digits.length : Int) - 1 + x.exponent).toNat + 1 =
            (digits ++ List.replicate x.exponent.toNat '0').length := by
          simp
          omega
        simp only [Layout.pointAfter, hend, List.take_length, List.drop_length]
        simpa using h
  · have h := writesAmount_exponent hdigits hne ((digits.length : Int) - 1 + x.exponent)
    rw [show (digits.length : Int) - 1 + x.exponent + 1 - digits.length = x.exponent by omega] at h
    simpa using h

/-! ## Texts that are read back -/

theorem exponent_of_zero {bits : Nat} {d : Dyad} (h : Binary64.ofBits bits = .finite d)
    (hm : d.mantissa = 0) : d.exponent = -1074 := by
  rw [Binary64.ofBits] at h
  have hpos : 0 < Binary64.hiddenBit := by decide
  split at h
  · split at h <;> cases h
  · split at h
    · cases h
      rfl
    · cases h
      simp only at hm
      omega

theorem dataText_of_finite {x : Float} {d : Dyad} (h : Binary64.decode x = .finite d) :
    ∃ (cs : List Char) (y : Decimal), Writes cs y ∧
      (dataText x).toList = (if d.negative then ['-'] else []) ++ cs ∧
      Binary64.decode (Binary64.ofDecimal y.digits y.exponent) =
        .finite ⟨false, d.mantissa, d.exponent⟩ := by
  obtain ⟨y, hwrites, hamount⟩ := writesAmount_digitsText (Decimal.shortest d).trim
  rw [Decimal.amount_trim] at hamount
  refine ⟨_, y, hwrites, ?_, ?_⟩
  · rw [dataText, Layout.write, h]
    cases hnegative : d.negative <;> simp [hnegative]
  · rcases Nat.eq_zero_or_pos d.mantissa with hzero | hpos
    · have hdigits : y.digits = 0 := by
        simpa [Decimal.shortest, hzero, Decimal.amount, zpow_ne_zero] using hamount
      rw [hdigits, hzero, exponent_of_zero h hzero, Binary64.ofDecimal]
      exact Binary64.decode_zero
    · obtain ⟨hcanonical, hq⟩ := Binary64.canonical_of_ofBits h hpos.ne'
      apply Binary64.decode_ofDecimal hcanonical hq
      exact (Decimal.has_shortest hpos hcanonical.lt).congr hamount.symm

theorem sign_digit {c : Char} (hc : c.isDigit = true) (rest : List Char) :
    sign (c :: rest) = (false, c :: rest) := by
  obtain ⟨hminus, hplus⟩ := digit_rec (P := fun c => c ≠ '-' ∧ c ≠ '+') (by decide) hc
  rw [sign]
  · rintro _ ⟨⟩
    exact hminus rfl
  · rintro _ ⟨⟩
    exact hplus rfl

theorem Writes.begins {cs : List Char} {y : Decimal} (h : Writes cs y) :
    ∃ c rest, cs = c :: rest ∧ c.isDigit = true := by
  cases h with
  | pointed hne hleft hright htail =>
    obtain ⟨c, left, rfl⟩ := List.exists_cons_of_ne_nil hne
    exact ⟨c, _, rfl, hleft c List.mem_cons_self⟩
  | pointless hc e => exact ⟨_, _, rfl, hc⟩

theorem sign_of_writes {cs : List Char} {y : Decimal} (h : Writes cs y) : sign cs = (false, cs) := by
  obtain ⟨c, rest, rfl, hc⟩ := h.begins
  exact sign_digit hc rest

theorem sign_signed {cs : List Char} (hcs : sign cs = (false, cs)) (negative : Bool) :
    sign ((if negative then ['-'] else []) ++ cs) = (negative, cs) := by
  cases negative with
  | false => simpa using hcs
  | true => rfl

theorem floatChars_signed {cs : List Char} (hcs : sign cs = (false, cs)) (negative : Bool) :
    floatChars ((if negative then ['-'] else []) ++ cs) =
      (magnitude cs).map fun x => if negative then -x else x := by
  rw [floatChars, sign_signed hcs]

theorem dataText_of_infinite {x : Float} {negative : Bool} (h : Binary64.decode x = .infinite negative) :
    dataText x = if negative then "-Infinity" else "Infinity" := by
  rw [dataText, Layout.write, h]
  cases negative <;> rfl

theorem dataText_of_nan {x : Float} (h : Binary64.decode x = .nan) : dataText x = "NaN" := by
  rw [dataText, Layout.write, h]
  rfl

/-- The text of a double is read back as the double, unless that is no number. -/
theorem floatChars_dataText {x : Float} (h : Binary64.decode x ≠ .nan) :
    floatChars (dataText x).toList = some x := by
  cases hx : Binary64.decode x with
  | nan => contradiction
  | infinite negative =>
    have hspecial : magnitude "Infinity".toList =
        some (Float.ofBits Binary64.infinityBits.toUInt64) := by decide +kernel
    have hdecode : Binary64.decode (Float.ofBits Binary64.infinityBits.toUInt64) = .infinite false := by
      decide +kernel
    have htext : (dataText x).toList = (if negative then ['-'] else []) ++ "Infinity".toList := by
      rw [dataText_of_infinite hx]
      cases negative <;> rfl
    rw [htext, floatChars_signed rfl, hspecial, Option.map_some, Option.some.injEq]
    apply Eq.symm
    apply Binary64.decode_inj _ h
    rw [hx]
    cases negative with
    | false => exact hdecode.symm
    | true => exact (Binary64.decode_neg_infinite hdecode).symm
  | finite d =>
    obtain ⟨cs, y, hwrites, htext, hdecode⟩ := dataText_of_finite hx
    rw [htext, floatChars_signed (sign_of_writes hwrites), magnitude_of_writes hwrites,
      Option.map_some, Option.some.injEq]
    apply Eq.symm
    apply Binary64.decode_inj _ h
    obtain ⟨negative, m, q⟩ := d
    cases negative with
    | false => exact hx.trans hdecode.symm
    | true => exact hx.trans (Binary64.decode_neg hdecode).symm

theorem floatChars_nan : ∃ y, floatChars "NaN".toList = some y ∧ Binary64.decode y = .nan :=
  ⟨_, rfl, by decide +kernel⟩

end Reading
end AssignmentSearch
