import AssignmentSearch.Markup.Value
import AssignmentSearch.Proofs.Binary64.Texts

/-!
# Plain words

The plain scalars that data are written with: the words for null and the truth values, integers and
doubles. A double written without a point is taken for a text.
-/

namespace AssignmentSearch

open Reading

/-! ## The characters of numbers -/

/-- The characters that numbers are written with. -/
def numeralChars : List Char :=
  ['0', '1', '2', '3', '4', '5', '6', '7', '8', '9', '.', 'e', '+', '-']

theorem numeral_rec {P : Char → Prop} [DecidablePred P] (h : numeralChars.all (decide <| P ·) = true)
    {c : Char} (hc : c ∈ numeralChars) : P c :=
  of_decide_eq_true (List.all_eq_true.mp h c hc)

theorem mem_numeralChars_of_digit {c : Char} (h : c.isDigit = true) : c ∈ numeralChars :=
  digit_rec (P := (· ∈ numeralChars)) (by decide) h

theorem ne_of_mem_numeralChars {c d : Char} (h : c ∈ numeralChars) (hd : d ∉ numeralChars) : c ≠ d := by
  rintro rfl
  exact hd h

theorem mem_numeralChars_of_isTail {tail : List Char} {e : Int} (h : IsTail tail e) :
    ∀ c ∈ tail, c ∈ numeralChars := by
  cases h with
  | none => simp
  | exponent =>
    rw [toList_exponentText]
    refine List.forall_mem_cons.mpr ⟨by decide, List.forall_mem_cons.mpr ⟨?_, ?_⟩⟩
    · split <;> decide
    · exact fun c hc => mem_numeralChars_of_digit (isDigit_exponentDigits e c hc)

theorem mem_numeralChars_of_writes {cs : List Char} {y : Decimal} (h : Writes cs y) :
    ∀ c ∈ cs, c ∈ numeralChars := by
  cases h with
  | pointed hne hleft hright htail =>
    intro c hc
    simp only [List.mem_append, List.mem_cons] at hc
    rcases hc with hc | rfl | hc | hc
    · exact mem_numeralChars_of_digit (hleft c hc)
    · decide
    · exact mem_numeralChars_of_digit (hright c hc)
    · exact mem_numeralChars_of_isTail htail c hc
  | pointless hc e =>
    exact List.forall_mem_cons.mpr
      ⟨mem_numeralChars_of_digit hc, mem_numeralChars_of_isTail (.exponent e)⟩

theorem lowerCase_of_numeral {cs : List Char} (h : ∀ c ∈ cs, c ∈ numeralChars) : lowerCase cs = cs := by
  have hchars (before : List Char) : LowerCase.chars before cs = cs := by
    induction cs generalizing before with
    | nil => rfl
    | cons c cs ih =>
      rw [List.forall_mem_cons] at h
      obtain ⟨hsigma, hdotted, hfix⟩ :=
        numeral_rec (P := fun c => c ≠ '\u03a3' ∧ c ≠ '\u0130' ∧ LowerCase.char c = c)
          (by decide +kernel) h.1
      rw [LowerCase.chars, LowerCase.between, if_neg hsigma, if_neg hdotted, hfix, ih h.2,
        List.singleton_append]
  exact hchars []

theorem trimBoth_eq_self {p : Char → Bool} {cs : List Char} (h : ∀ c ∈ cs, p c = false) :
    trimBoth p cs = cs := by
  have hdrop {ds : List Char} (hds : ∀ c ∈ ds, p c = false) : ds.dropWhile p = ds := by
    cases ds with
    | nil => rfl
    | cons c ds => simp [hds c List.mem_cons_self]
  rw [trimBoth, hdrop h, hdrop (by simpa using h), List.reverse_reverse]

theorem core_of_numeral {cs : List Char} (h : ∀ c ∈ cs, c ∈ numeralChars) :
    core (String.ofList cs) = cs := by
  have hplain : cs.map plainChar = cs.map id :=
    List.map_congr_left fun c hc => numeral_rec (P := fun c => plainChar c = c) (by decide) (h c hc)
  rw [core, String.toList_ofList, hplain, List.map_id]
  exact trimBoth_eq_self fun c hc =>
    numeral_rec (P := fun c => isAsciiBlank c = false) (by decide) (h c hc)

namespace Markup

/-! ## Tags of numbers -/

/-- What numbers begin with: a digit or a minus sign. -/
def beginsNumber (text : String) : Bool := text.toList.head?.any fun c => c.isDigit || c = '-'

theorem not_mem_of_beginsNumber {text : String} (h : beginsNumber text = true) (words : List String)
    (hwords : words.all (!beginsNumber ·) = true) : text ∉ words := by
  intro hmem
  have := List.all_eq_true.mp hwords text hmem
  simp [h] at this

theorem ofPlain_of_number {text : String} (h : beginsNumber text = true) :
    Tag.ofPlain text =
      if Literal.isFloat text.toList then .float
      else if Literal.isInt text.toList then .int
      else if Stamp.isPlain text then .stamp
      else .str := by
  have hbool : (Literal.bool? text).isSome = false := by
    have htrue := not_mem_of_beginsNumber h Literal.trueWords (by decide)
    have hfalse := not_mem_of_beginsNumber h Literal.falseWords (by decide)
    simp [Literal.bool?, htrue, hfalse]
  have hnull : Literal.isNull text = false := by
    have := not_mem_of_beginsNumber h ["", "~", "null", "Null", "NULL"] (by decide)
    rw [Literal.isNull]
    simpa using this
  have hmarks : text ∉ ["<<", "=", "!", "&", "*"] := not_mem_of_beginsNumber h _ (by decide)
  simp only [List.mem_cons, List.not_mem_nil, not_or] at hmarks
  obtain ⟨hmerge, hvalue, hmark, hanchor, halias, -⟩ := hmarks
  simp [Tag.ofPlain, hbool, hnull, hmerge, hvalue, hmark, hanchor, halias]

/-! ## Doubles -/

theorem mem_numeralChars_signed {cs : List Char} (h : ∀ c ∈ cs, c ∈ numeralChars) (negative : Bool) :
    ∀ c ∈ (if negative then ['-'] else []) ++ cs, c ∈ numeralChars := by
  cases negative with
  | false => exact h
  | true => exact List.forall_mem_cons.mpr ⟨by decide, h⟩

theorem solid_of_numeral {text : String} (h : ∀ c ∈ text.toList, c ∈ numeralChars)
    (hne : text.toList ≠ []) : Literal.solid text = .ok text.toList := by
  have hfilter : text.toList.filter (· ≠ '_') = text.toList :=
    List.filter_eq_self.mpr fun c hc =>
      decide_eq_true (ne_of_mem_numeralChars (h c hc) (by decide))
  rw [Literal.solid, hfilter]
  simp [hne]

theorem colon_not_mem_of_numeral {cs : List Char} (h : ∀ c ∈ cs, c ∈ numeralChars) : ':' ∉ cs :=
  fun hc => ne_of_mem_numeralChars (h ':' hc) (by decide) rfl

theorem beginsNumber_signed {text : String} {negative : Bool} {cs : List Char}
    (htext : text.toList = (if negative then ['-'] else []) ++ cs)
    (hcs : ∃ c rest, cs = c :: rest ∧ c.isDigit = true) : beginsNumber text = true := by
  obtain ⟨c, rest, rfl, hc⟩ := hcs
  rw [beginsNumber, htext]
  cases negative <;> simp [hc]

theorem isDigitOf_ten {c : Char} (h : c.isDigit = true) : Literal.isDigitOf 10 c = true :=
  digit_rec (P := fun c => Literal.isDigitOf 10 c = true) (by decide) h

theorem isExponent_of_isTail {tail : List Char} {e : Int} (h : IsTail tail e) :
    Literal.isExponent tail = true := by
  cases h with
  | none => rfl
  | exponent =>
    have hdigits := isDigit_exponentDigits e
    have hne := exponentDigits_ne_nil e
    rw [toList_exponentText]
    split <;> simp_all [Literal.isExponent]

theorem isFraction_of_digits {right tail : List Char} {e : Int}
    (hright : ∀ c ∈ right, c.isDigit = true) (htail : IsTail tail e) :
    Literal.isFraction (right ++ tail) = true := by
  have hdrop : (right ++ tail).dropWhile (Literal.isDigitOf 10) = tail := by
    rw [List.dropWhile_append_of_pos fun c hc => isDigitOf_ten (hright c hc)]
    cases htail with
    | none => rfl
    | exponent =>
      rw [toList_exponentText]
      rfl
  rw [Literal.isFraction, hdrop]
  exact isExponent_of_isTail htail

theorem isDigits_of_digits {digits : List Char} (hne : digits ≠ [])
    (hdigits : ∀ c ∈ digits, c.isDigit = true) : Literal.isDigits digits = true := by
  obtain ⟨c, rest, rfl⟩ := List.exists_cons_of_ne_nil hne
  rw [Literal.isDigits, Bool.and_eq_true, List.all_eq_true]
  exact ⟨by simpa using hdigits c List.mem_cons_self, fun d hd => isDigitOf_ten (hdigits d hd)⟩

theorem isPointed_of_digits {left right tail : List Char} {e : Int} (hne : left ≠ [])
    (hleft : ∀ c ∈ left, c.isDigit = true) (hright : ∀ c ∈ right, c.isDigit = true)
    (htail : IsTail tail e) : Literal.isPointed (left ++ '.' :: (right ++ tail)) = true := by
  have hnone : ∀ c ∈ left, decide (c ≠ '.') = true := fun c hc =>
    digit_rec (P := fun c => decide (c ≠ '.') = true) (by decide) (hleft c hc)
  have htake : (left ++ '.' :: (right ++ tail)).takeWhile (· ≠ '.') = left := by
    rw [List.takeWhile_append_of_pos hnone]
    simp
  have hdrop : (left ++ '.' :: (right ++ tail)).dropWhile (· ≠ '.') = '.' :: (right ++ tail) := by
    rw [List.dropWhile_append_of_pos hnone]
    simp
  rw [Literal.isPointed]
  simp only [htake, hdrop, isDigits_of_digits hne hleft, isFraction_of_digits hright htail,
    Bool.and_self, Bool.true_or]

theorem isFloat_of_isPointed {text : String} {negative : Bool} {cs : List Char}
    (htext : text.toList = (if negative then ['-'] else []) ++ cs) (hsign : sign cs = (false, cs))
    (h : Literal.isPointed cs = true) : Literal.isFloat text.toList = true := by
  unfold Literal.isFloat
  simp only [htext, sign_signed hsign, h, Bool.true_or]

theorem isFloat_of_no_point {cs : List Char} (h : '.' ∉ cs) : Literal.isFloat cs = false := by
  have hsign : '.' ∉ (sign cs).2 := by
    rw [sign.eq_def]
    split <;> simp_all
  have hdrop : (sign cs).2.dropWhile (· ≠ '.') = [] := by
    rw [List.dropWhile_eq_nil_iff]
    intro c hc
    simp only [ne_eq, decide_not, Bool.not_eq_eq_eq_not, Bool.not_true, decide_eq_false_iff_not]
    rintro rfl
    exact hsign hc
  have hname {ds : List Char} (hds : '.' ∉ ds) (names : List String)
      (hnames : names.all (·.toList.contains '.') = true) : names.contains (String.ofList ds) = false := by
    rw [List.contains_eq_mem, decide_eq_false_iff_not]
    intro hmem
    have := List.all_eq_true.mp hnames _ hmem
    simp [hds] at this
  have hpointed : Literal.isPointed (sign cs).2 = false := by
    rw [Literal.isPointed]
    simp only [hdrop]
  unfold Literal.isFloat
  simp only [hpointed, hname hsign [".inf", ".Inf", ".INF"] (by decide),
    hname h [".nan", ".NaN", ".NAN"] (by decide), Bool.false_or]
  split
  · simp at h
  · rfl

theorem real_of_numeral {cs : List Char} (h : ∀ c ∈ cs, c ∈ numeralChars) {x : Float}
    (hx : floatChars cs = some x) : Literal.real cs = .ok x := by
  rw [Literal.real, Reading.float, core_of_numeral h, hx]

theorem float_of_writes {text : String} {negative : Bool} {cs : List Char} {y : Decimal}
    (htext : text.toList = (if negative then ['-'] else []) ++ cs) (h : Writes cs y) {x : Float}
    (hx : floatChars text.toList = some x) : Literal.float text = .ok (.float x) := by
  have hsign := sign_of_writes h
  have hchars := mem_numeralChars_of_writes h
  have hsigned := mem_numeralChars_signed hchars negative
  obtain ⟨c, rest, hcs, hc⟩ := h.begins
  have hword {ds : List Char} : cs ≠ '.' :: ds := by
    rw [hcs]
    rintro ⟨⟩
    cases hc
  have hsolid : Literal.solid text = .ok ((if negative then ['-'] else []) ++ cs) := by
    rw [← htext] at hsigned ⊢
    exact solid_of_numeral hsigned (by simp [htext, hcs])
  rw [htext, floatChars_signed hsign] at hx
  obtain ⟨z, hz, rfl⟩ := Option.map_eq_some_iff.mp hx
  have hfloat : floatChars cs = some z := by
    have := floatChars_signed hsign false
    simpa [hz] using this
  rw [Literal.float, hsolid]
  simp [bind, Except.bind, lowerCase_of_numeral hsigned, sign_signed hsign, hword,
    colon_not_mem_of_numeral hchars, real_of_numeral hchars hfloat]
  rfl

/-! ## Doubles without a point -/

theorem cutAt_of_not_mem {mark : Char} {cs : List Char} (h : mark ∉ cs) :
    Literal.cutAt mark cs = [cs] := by
  induction cs with
  | nil => rfl
  | cons c cs ih =>
    rw [List.mem_cons, not_or] at h
    rw [Literal.cutAt, if_neg (Ne.symm h.1), ih h.2]

theorem isInt_pointless {text : String} {negative : Bool} {c : Char} {rest : List Char}
    (htext : text.toList = (if negative then ['-'] else []) ++ c :: 'e' :: rest)
    (hc : c.isDigit = true) (hcolon : ':' ∉ rest) : Literal.isInt text.toList = false := by
  have hcut : Literal.cutAt ':' (c :: 'e' :: rest) = [c :: 'e' :: rest] := by
    apply cutAt_of_not_mem
    have : c ≠ ':' := digit_rec (P := (· ≠ ':')) (by decide) hc
    simp [hcolon, this.symm]
  have hdigits : Literal.isDigits (c :: 'e' :: rest) = false := by
    have hletter : Literal.isDigitOf 10 'e' = false := by decide
    simp [Literal.isDigits, hletter]
  rw [Literal.isInt, htext, sign_signed (sign_digit hc _)]
  simp only
  unfold Literal.isWhole
  split
  · rename_i h
    cases h
  · rename_i h
    cases h
  · rename_i h
    cases h
  · rename_i h
    cases h
    have hletter : Literal.isDigitOf 8 'e' = false := by decide
    simp [hletter]
  · simp [hdigits, Literal.isSexagesimal, hcut]

theorem isPlain_of_few_digits {text : String} (h : (text.toList.takeWhile Char.isDigit).length < 4) :
    Stamp.isPlain text = false := by
  have hrun : ((text.toList.take 4).takeWhile Char.isDigit).length < 4 := by
    obtain ⟨rest, hrest⟩ := List.take_prefix 4 text.toList
    rw [← hrest, List.takeWhile_append] at h
    split at h
    · rw [List.length_append] at h
      omega
    · exact h
  have hnone : Stamp.ofChars? text.toList = none := by
    rw [Stamp.ofChars?, Stamp.digits?]
    simp [not_le.mpr hrun]
  rw [Stamp.isPlain, hnone]

section

variable {text : String} {negative : Bool} {c : Char} {e : Int}
  (htext : text.toList = (if negative then ['-'] else []) ++ c :: (Layout.exponentText e).toList)
  (hc : c.isDigit = true)

include htext hc

theorem point_not_mem_pointless : '.' ∉ text.toList := by
  have hcpoint : c ≠ '.' := digit_rec (P := (· ≠ '.')) (by decide) hc
  have hrest : '.' ∉ exponentDigits e := fun h => absurd (isDigit_exponentDigits e _ h) (by decide)
  rw [htext, toList_exponentText]
  cases negative <;> by_cases he : e < 0 <;> simp [hcpoint.symm, he, hrest]

/-- A double that is written without a point is taken for a text. -/
theorem ofPlain_pointless : Tag.ofPlain text = .str := by
  have hbegins := beginsNumber_signed htext ⟨c, _, rfl, hc⟩
  have hpoint := point_not_mem_pointless htext hc
  rw [toList_exponentText] at htext
  have hdigits : (text.toList.takeWhile Char.isDigit).length < 4 := by
    rw [htext]
    cases negative <;> simp [hc]
  have hcolon : ':' ∉ (if e < 0 then '-' else '+') :: exponentDigits e := by
    have hrest : ':' ∉ exponentDigits e := fun h => absurd (isDigit_exponentDigits e _ h) (by decide)
    by_cases he : e < 0 <;> simp [he, hrest]
  rw [ofPlain_of_number hbegins, isFloat_of_no_point hpoint, isInt_pointless htext hc hcolon,
    isPlain_of_few_digits hdigits]
  rfl

end

/-! ## Integers -/

theorem toList_toString_int (n : Int) :
    (toString n).toList = (if n < 0 then ['-'] else []) ++ Nat.toDigits 10 n.natAbs := by
  rw [Int.toString_eq_repr, Int.repr_eq_if]
  rcases lt_or_ge n 0 with hneg | hnonneg
  · rw [if_neg (not_le.mpr hneg), if_pos hneg, String.toList_append, Nat.toList_repr,
      show (-n).toNat = n.natAbs by omega]
    rfl
  · rw [if_pos hnonneg, if_neg (not_lt.mpr hnonneg), Nat.toList_repr, show n.toNat = n.natAbs by omega]
    rfl

theorem isDigit_toDigits (n : Nat) : ∀ c ∈ Nat.toDigits 10 n, c.isDigit = true :=
  fun _ hc => Nat.isDigit_of_mem_toDigits (by decide) (by decide) hc

theorem toDigits_begins {n : Nat} (h : 0 < n) : ∃ c rest, Nat.toDigits 10 n = c :: rest ∧ c ≠ '0' := by
  induction n using Nat.strongRecOn with
  | ind n ih =>
    rcases Nat.lt_or_ge n 10 with hlt | hge
    · refine ⟨_, [], Nat.toDigits_of_lt_base hlt, ?_⟩
      interval_cases n <;> decide
    · obtain ⟨c, rest, hdigits, hc⟩ := ih (n / 10) (by omega) (by omega)
      exact ⟨c, _, by rw [Nat.toDigits_of_base_le (by decide) hge, hdigits, List.cons_append], hc⟩

theorem isWhole_toDigits (n : Nat) : Literal.isWhole (Nat.toDigits 10 n) = true := by
  rcases Nat.eq_zero_or_pos n with rfl | hpos
  · rw [Nat.toDigits_zero]
    rfl
  · have hdigits := isDigits_of_digits Nat.toDigits_ne_nil (isDigit_toDigits n)
    obtain ⟨c, rest, heq, hc⟩ := toDigits_begins hpos
    rw [heq] at hdigits ⊢
    unfold Literal.isWhole
    split
    · rfl
    · rename_i h
      cases h
      contradiction
    · rename_i h
      cases h
      contradiction
    · rename_i h
      cases h
      contradiction
    · rw [hdigits, Bool.true_or]

theorem sign_toDigits (n : Nat) : sign (Nat.toDigits 10 n) = (false, Nat.toDigits 10 n) := by
  obtain ⟨c, rest, heq⟩ := List.exists_cons_of_ne_nil (Nat.toDigits_ne_nil (n := n) (b := 10))
  have hc : c.isDigit = true := isDigit_toDigits n c (heq ▸ List.mem_cons_self)
  rw [heq]
  exact sign_digit hc rest

theorem ofPlain_toString_int (n : Int) : Tag.ofPlain (toString n) = .int := by
  have htext := toList_toString_int n
  have hdigits := isDigit_toDigits n.natAbs
  have hpoint : '.' ∉ (toString n).toList := by
    have hrest : '.' ∉ Nat.toDigits 10 n.natAbs := fun h => absurd (hdigits _ h) (by decide)
    rw [htext]
    by_cases hn : n < 0 <;> simp [hn, hrest]
  have hint : Literal.isInt (toString n).toList = true := by
    have hsign := sign_signed (sign_toDigits n.natAbs) (decide (n < 0))
    simp only [decide_eq_true_eq] at hsign
    rw [Literal.isInt, htext, hsign]
    exact isWhole_toDigits n.natAbs
  have hbegins : beginsNumber (toString n) = true := by
    obtain ⟨c, rest, heq⟩ :=
      List.exists_cons_of_ne_nil (Nat.toDigits_ne_nil (n := n.natAbs) (b := 10))
    have hsigned : (toString n).toList =
        (if decide (n < 0) then ['-'] else []) ++ Nat.toDigits 10 n.natAbs := by simpa using htext
    exact beginsNumber_signed hsigned ⟨c, rest, heq, hdigits c (heq ▸ List.mem_cons_self)⟩
  rw [ofPlain_of_number hbegins, isFloat_of_no_point hpoint, hint]
  rfl

theorem isJoined_of_not_mem {cs : List Char} (h : '_' ∉ cs) : isJoined cs = true := by
  fun_induction isJoined cs <;> simp_all

theorem numberOf_of_digits {cs : List Char} (h : ∀ c ∈ cs, c.isDigit = true) :
    numberOf cs = Nat.ofDigitChars 10 cs 0 := by
  have hrun (init : Nat) : (cs.filterMap digitValue?).foldl (fun n d => 10 * n + d) init =
      Nat.ofDigitChars 10 cs init := by
    induction cs generalizing init with
    | nil => rfl
    | cons c cs ih =>
      rw [List.forall_mem_cons] at h
      rw [List.filterMap_cons_some (digitValue?_digit h.1), List.foldl_cons, ih h.2,
        Nat.ofDigitChars_cons]
  exact hrun 0

theorem length_toDigits_of_not_long {n : Int} (h : (Datum.int n).isLong = false) :
    (Nat.toDigits 10 n.natAbs).length ≤ maxIntDigits := by
  have hpos : 0 < maxIntDigits := by decide
  rw [Datum.isLong_int_eq_false] at h
  unfold Datum.leastLong at h
  -- the limit itself is never computed
  generalize maxIntDigits = k at h hpos ⊢
  exact (Nat.length_toDigits_le_iff (by decide) hpos).mpr h

theorem readInt_toDigits {n : Nat} (h : (Nat.toDigits 10 n).length ≤ maxIntDigits) :
    Reading.int (String.ofList (Nat.toDigits 10 n)) = .ok n := by
  have hdigits := isDigit_toDigits n
  have hchars : ∀ c ∈ Nat.toDigits 10 n, c ∈ numeralChars :=
    fun c hc => mem_numeralChars_of_digit (hdigits c hc)
  have hunder : '_' ∉ Nat.toDigits 10 n := Nat.underscore_not_in_toDigits
  have hrun : (Nat.toDigits 10 n).takeWhile (fun c => c = '_' || (digitValue? c).isSome) =
      Nat.toDigits 10 n := by
    rw [List.takeWhile_eq_self_iff]
    intro c hc
    simp [digitValue?_digit (hdigits c hc)]
  have hfilter : (Nat.toDigits 10 n).filter (· ≠ '_') = Nat.toDigits 10 n :=
    List.filter_eq_self.mpr fun c hc =>
      decide_eq_true (ne_of_mem_numeralChars (hchars c hc) (by decide))
  rw [Reading.int, core_of_numeral hchars, sign_toDigits]
  simp only [hrun, hfilter, isJoined_of_not_mem hunder, numberOf_of_digits hdigits,
    Nat.ofDigitChars_ten_toDigits, not_lt.mpr h]
  simp

theorem whole_toDigits {n : Nat} (h : (Nat.toDigits 10 n).length ≤ maxIntDigits) :
    Literal.whole (Nat.toDigits 10 n) = .ok n := by
  rcases Nat.eq_zero_or_pos n with rfl | hpos
  · rw [Nat.toDigits_zero]
    rfl
  · have hdecimal : Literal.decimal (Nat.toDigits 10 n) = .ok n := by
      rw [Literal.decimal, Datum.intOfText, readInt_toDigits h]
    have hcolon : ':' ∉ Nat.toDigits 10 n := fun hc => absurd (isDigit_toDigits n _ hc) (by decide)
    obtain ⟨c, rest, heq, hc⟩ := toDigits_begins hpos
    have hne {ds : List Char} : c :: rest ≠ '0' :: ds := fun h => hc (List.cons.inj h).1
    rw [heq] at hdecimal hcolon ⊢
    rw [Literal.whole, if_neg (by simpa using hcolon), hdecimal]
    · nofun
    · exact hne
    · exact fun _ => hne
    · exact fun _ => hne
    · exact fun _ => hne

theorem int_toString {n : Int} (h : (Datum.int n).isLong = false) :
    Literal.int (toString n) = .ok (.int n) := by
  have htext := toList_toString_int n
  have hchars := mem_numeralChars_signed
    (fun c hc => mem_numeralChars_of_digit (isDigit_toDigits n.natAbs c hc)) (decide (n < 0))
  have hsign := sign_signed (sign_toDigits n.natAbs) (decide (n < 0))
  simp only [decide_eq_true_eq] at hchars hsign
  rw [← htext] at hchars hsign
  rw [Literal.int, solid_of_numeral hchars (by rw [htext]; simp)]
  simp only [bind, Except.bind, hsign, whole_toDigits (length_toDigits_of_not_long h)]
  clear h
  change Except.ok (Datum.int _) = _
  congr 2
  by_cases hn : n < 0
  · simp only [hn, decide_true, if_true]
    omega
  · simp only [hn, decide_false, Bool.false_eq_true, if_false]
    omega

/-! ## Values of plain words -/

def plainValue (text : String) : Except Trouble Datum := (Tag.ofPlain text).valueOf text

theorem plainValue_null : plainValue "null" = .ok .null := rfl

theorem plainValue_bool (b : Bool) : plainValue (if b then "true" else "false") = .ok (.bool b) := by
  cases b <;> rfl

theorem plainValue_int {n : Int} (h : (Datum.int n).isLong = false) :
    plainValue (toString n) = .ok (.int n) := by
  rw [plainValue, ofPlain_toString_int]
  exact int_toString h

/-- A double as it is read from its text: one that is written without a point is a text. -/
def readFloat (x : Float) : Datum := if '.' ∈ (dataText x).toList then .float x else .str (dataText x)

theorem plainValue_float (x : Float) : plainValue (dataText x) = .ok (readFloat x) := by
  rw [plainValue]
  cases hx : Binary64.decode x with
  | nan =>
    rw [readFloat, dataText_of_nan hx]
    rfl
  | infinite negative =>
    rw [readFloat, dataText_of_infinite hx]
    cases negative <;> rfl
  | finite d =>
    obtain ⟨cs, y, hwrites, htext, -⟩ := dataText_of_finite hx
    have hback := floatChars_dataText (x := x) (by rw [hx]; nofun)
    have hfloat := float_of_writes htext hwrites hback
    have hsign := sign_of_writes hwrites
    have hbegins := beginsNumber_signed htext hwrites.begins
    cases hwrites with
    | pointed hne hleft hright htail =>
      have hpoint : '.' ∈ (dataText x).toList := by
        rw [htext]
        simp
      rw [ofPlain_of_number hbegins,
        isFloat_of_isPointed htext hsign (isPointed_of_digits hne hleft hright htail), if_pos rfl,
        readFloat, if_pos hpoint]
      exact hfloat
    | pointless hc e =>
      rw [ofPlain_pointless htext hc, readFloat, if_neg (point_not_mem_pointless htext hc)]
      rfl

end Markup

end AssignmentSearch
