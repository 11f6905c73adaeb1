import AssignmentSearch.Proofs.Markup.Fillings
import AssignmentSearch.Proofs.Quantity.Doubles
import AssignmentSearch.Proofs.Scenario.Consistency
import AssignmentSearch.Proofs.Scenario.Rereading

/-!
# Scenarios as JSON text

A scenario given as JSON text is read as the markup that it also is. It is accepted as the scenario
that the data themselves are accepted as, unless a field makes a difference between a double and the
text of one without a point, or the name has a character that is written as two halves.
-/

namespace AssignmentSearch

/-! ## Numbers in texts -/

theorem mem_trimBoth {p : Char → Bool} {c : Char} {cs : List Char} (hc : c ∈ cs) (hp : p c = false) :
    c ∈ trimBoth p cs := by
  have hdrop {ds : List Char} (hd : c ∈ ds) : c ∈ ds.dropWhile p := by
    rw [← List.takeWhile_append_dropWhile (p := p) (l := ds), List.mem_append] at hd
    refine hd.resolve_left fun htake => ?_
    rw [List.mem_takeWhile_imp htake] at hp
    cases hp
  rw [trimBoth, List.mem_reverse]
  exact hdrop (List.mem_reverse.mpr (hdrop hc))

theorem toNat_of_isAlpha {c : Char} (h : c.isAlpha = true) :
    65 ≤ c.toNat ∧ c.toNat ≤ 90 ∨ 97 ≤ c.toNat ∧ c.toNat ≤ 122 := by
  simp only [Char.isAlpha, Char.isUpper, Char.isLower, Bool.or_eq_true, Bool.and_eq_true, decide_eq_true_eq,
    ge_iff_le, UInt32.le_iff_toNat_le] at h
  exact h

theorem isBlank_of_isAlpha {c : Char} (h : c.isAlpha = true) : isBlank c = false := by
  have hcode := toNat_of_isAlpha h
  have hwide : c.toNat ∉ wideBlanks := by
    simp only [wideBlanks, List.mem_cons, List.not_mem_nil, or_false]
    omega
  simp only [isBlank, isAsciiBlank, List.contains_eq_mem, hwide, decide_false, Bool.or_false,
    Bool.or_eq_false_iff, Bool.and_eq_false_iff, decide_eq_false_iff_not]
  omega

theorem isDigit_of_isAlpha {c : Char} (h : c.isAlpha = true) : c.isDigit = false := by
  have hcode := toNat_of_isAlpha h
  rw [Bool.eq_false_iff]
  intro hdigit
  simp only [Char.isDigit, Bool.and_eq_true, decide_eq_true_eq, ge_iff_le, UInt32.le_iff_toNat_le] at hdigit
  have hval : c.toNat = c.val.toNat := rfl
  simp at hdigit
  omega

namespace NumberText

section

variable {c : Char} {cs ds : List Char}

theorem mem_withoutPlus (h : withoutPlus cs = some ds) (hc : c ∈ cs) (hplus : c ≠ '+') : c ∈ ds := by
  unfold withoutPlus at h
  split at h
  · cases h
  · cases h
    exact (List.mem_cons.mp hc).resolve_left hplus
  · cases h
    exact hc

theorem mem_afterZeros {last : Char} (h : afterZeros last cs = some ds) (hc : c ∈ cs) (hzero : c ≠ '0')
    (hunder : c ≠ '_') : c ∈ ds := by
  induction cs generalizing last with
  | nil => cases hc
  | cons d cs ih =>
    unfold afterZeros at h
    split at h
    · next hd =>
      refine ih h ((List.mem_cons.mp hc).resolve_left ?_)
      rintro rfl
      simp [hzero, hunder] at hd
    · split at h
      · cases h
        exact hc
      · split at h
        · cases h
          exact List.mem_cons_of_mem _ hc
        · cases h

theorem mem_withoutZeros (h : withoutZeros cs = some ds) (hc : c ∈ cs) (hzero : c ≠ '0')
    (hunder : c ≠ '_') : c ∈ ds := by
  unfold withoutZeros at h
  split at h
  · cases h
  · split at h
    · next hd =>
      refine mem_afterZeros h ((List.mem_cons.mp hc).resolve_left ?_) hzero hunder
      rintro rfl
      exact hzero hd
    · split at h
      · cases h
        exact hc
      · cases h

theorem mem_withoutFraction (hc : c ∈ cs) (hzero : c ≠ '0') (hpoint : c ≠ '.') :
    c ∈ withoutFraction cs := by
  rw [withoutFraction]
  split
  · next h =>
    -- the fraction holds nothing but zeros, so the character stands before the point
    simp only [Bool.and_eq_true, List.all_eq_true, decide_eq_true_eq] at h
    rw [← List.takeWhile_append_dropWhile (p := (· ≠ '.')) (l := cs), List.mem_append] at hc
    refine hc.resolve_right fun hdrop => ?_
    obtain ⟨d, rest, hrest⟩ := List.exists_cons_of_ne_nil (List.ne_nil_of_mem hdrop)
    have hafter : cs.drop ((cs.takeWhile (· ≠ '.')).length + 1) = rest := by
      have hsplit := List.takeWhile_append_dropWhile (p := (· ≠ '.')) (l := cs)
      rw [hrest] at hsplit
      calc cs.drop ((cs.takeWhile (· ≠ '.')).length + 1)
          = (cs.takeWhile (· ≠ '.') ++ d :: rest).drop ((cs.takeWhile (· ≠ '.')).length + 1) := by
            rw [hsplit]
        _ = rest := by rw [← List.drop_drop, List.drop_left]; rfl
    have hd : d = '.' := by
      have hhead := List.head?_dropWhile_not (p := fun c => decide (c ≠ '.')) (l := cs)
      rw [hrest] at hhead
      simpa using hhead
    rw [hrest, hd] at hdrop
    exact hzero (h.2 c (hafter ▸ (List.mem_cons.mp hdrop).resolve_left hpoint))
  · exact hc

theorem isDigit_of_plainInt {n : Int} (h : plainInt cs = .ok n) (hc : c ∈ cs) (hminus : c ≠ '-') :
    c.isDigit = true := by
  unfold plainInt at h
  split at h
  next negative digits hsigned =>
  have hmem : c ∈ digits := by
    split at hsigned
    · cases hsigned
      exact (List.mem_cons.mp hc).resolve_left hminus
    · cases hsigned
      exact hc
  by_cases hone : digits = ['0']
  · rw [hone, List.mem_singleton] at hmem
    rw [hmem]
    decide
  · have hrun : ¬ (digits.takeWhile Char.isDigit).length < digits.length := by
      intro hless
      simp only [hone, hless, if_true, if_false] at h
      split at h
      · cases h
      · split at h <;> split at h <;> cases h
    rw [← (List.takeWhile_prefix Char.isDigit).eq_of_length_le (not_lt.mp hrun)] at hmem
    exact List.mem_takeWhile_imp hmem

end

theorem int_ne_ok_of_letter {s : String} {c : Char} (hc : c ∈ s.toList) (hletter : c.isAlpha = true)
    (n : Int) : int s ≠ .ok n := by
  have hne {d : Char} (hd : d.isAlpha = false) : c ≠ d := by
    rintro rfl
    rw [hletter] at hd
    cases hd
  have hplus : c ≠ '+' := hne (by decide)
  have hminus : c ≠ '-' := hne (by decide)
  have hzero : c ≠ '0' := hne (by decide)
  have hunder : c ≠ '_' := hne (by decide)
  have hpoint : c ≠ '.' := hne (by decide)
  intro h
  rw [int] at h
  cases hread : withoutPlus (trimBoth isBlank s.toList) >>= withoutZeros with
  | none =>
    rw [hread] at h
    cases h
  | some ds =>
    obtain ⟨es, hes, hds⟩ := Option.bind_eq_some_iff.mp hread
    have hmem : c ∈ withoutFraction ds :=
      mem_withoutFraction (mem_withoutZeros hds
        (mem_withoutPlus hes (mem_trimBoth hc (isBlank_of_isAlpha hletter)) hplus) hzero hunder) hzero hpoint
    have hjoined : c ∈ (joined? (withoutFraction ds)).getD (withoutFraction ds) := by
      rw [joined?]
      split
      · exact List.mem_filter.mpr ⟨hmem, decide_eq_true hunder⟩
      · exact hmem
    rw [hread] at h
    have hdigit := isDigit_of_plainInt h hjoined hminus
    rw [isDigit_of_isAlpha hletter] at hdigit
    cases hdigit

theorem exists_floatChars (x : Float) : ∃ y, Reading.floatChars (dataText x).toList = some y := by
  by_cases hx : Binary64.decode x = .nan
  · obtain ⟨y, hy, -⟩ := Reading.floatChars_nan
    exact ⟨y, by rw [Reading.dataText_of_nan hx, hy]⟩
  · exact ⟨x, Reading.floatChars_dataText hx⟩

theorem float_dataText (x : Float) : float (dataText x) = Reading.floatChars (dataText x).toList := by
  have hchars : ∀ c ∈ (dataText x).toList, isBlank c = false ∧ (c.toNat < 128 ∧ c ≠ '_') := by
    intro c hc
    have hword := (Markup.isWord_dataText x).chars c hc
    obtain ⟨hlow, hhigh⟩ := Markup.toNat_of_isWordChar hword
    refine ⟨?_, by omega, Markup.ne_of_isWordChar hword (by decide)⟩
    have hwide : c.toNat ∉ wideBlanks := by
      simp only [wideBlanks, List.mem_cons, List.not_mem_nil, or_false]
      omega
    simp only [isBlank, isAsciiBlank, List.contains_eq_mem, hwide, decide_false, Bool.or_false,
      Bool.or_eq_false_iff, Bool.and_eq_false_iff, decide_eq_false_iff_not]
    omega
  have hplain : plainFloat (dataText x).toList = Reading.floatChars (dataText x).toList := by
    rw [plainFloat, if_pos]
    rw [List.all_eq_true]
    intro c hc
    simp [hchars c hc]
  obtain ⟨y, hy⟩ := exists_floatChars x
  rw [float, trimBoth_eq_self fun c hc => (hchars c hc).1, hplain, hy]

/-- A double that is written without a point has a letter in its text. -/
theorem exists_letter {x : Float} (h : '.' ∉ (dataText x).toList) :
    ∃ c ∈ (dataText x).toList, c.isAlpha = true := by
  cases hx : Binary64.decode x with
  | nan =>
    rw [Reading.dataText_of_nan hx]
    exact ⟨'N', by decide, by decide⟩
  | infinite negative =>
    rw [Reading.dataText_of_infinite hx]
    refine ⟨'I', ?_, by decide⟩
    cases negative <;> decide
  | finite d =>
    obtain ⟨cs, y, hwrites, htext, -⟩ := Reading.dataText_of_finite hx
    rw [htext] at h ⊢
    cases hwrites with
    | pointed => simp at h
    | pointless hc e =>
      refine ⟨'e', ?_, by decide⟩
      rw [Reading.toList_exponentText]
      simp

theorem int_dataText_ne_ok {x : Float} (h : '.' ∉ (dataText x).toList) (n : Int) :
    int (dataText x) ≠ .ok n := by
  obtain ⟨c, hc, hletter⟩ := exists_letter h
  exact int_ne_ok_of_letter hc hletter n

end NumberText

/-! ## Checks that accept alike -/

/-- Two checks accept the same; what they object to may differ. -/
def Agree {ε β : Type} (x y : Except ε β) : Prop := ∀ a, x = .ok a ↔ y = .ok a

theorem Agree.refl {ε β : Type} (x : Except ε β) : Agree x x := fun _ => Iff.rfl

theorem Agree.of_not_ok {ε β : Type} {x y : Except ε β} (hx : ∀ a, x ≠ .ok a) (hy : ∀ a, y ≠ .ok a) :
    Agree x y := fun a => ⟨fun h => absurd h (hx a), fun h => absurd h (hy a)⟩

namespace Checked

variable {β γ : Type} {x x' : Checked β} {y y' : Checked γ}

theorem flaw_ne_ok (kind : FlawKind) (a : β) : (flaw kind : Checked β) ≠ .ok a := by
  simp [flaw]

theorem agree_both (hx : Agree x x') (hy : Agree y y') : Agree (x.both y) (x'.both y') := by
  rintro ⟨a, b⟩
  rw [both_eq_ok, both_eq_ok, hx a, hy b]

theorem agree_below (hx : Agree x x') (step : PathStep) : Agree (x.below step) (x'.below step) := by
  intro a
  rw [below_eq_ok, below_eq_ok, hx a]

theorem agree_map (hx : Agree x x') (f : β → γ) : Agree (x.map f) (x'.map f) := by
  intro c
  rw [map_eq_ok, map_eq_ok]
  exact exists_congr fun a => and_congr_left' (hx a)

theorem agree_all {read : Datum → Checked β} {f : Datum → Datum} {items : List Datum}
    (h : ∀ d ∈ items, Agree (read (f d)) (read d)) (i : Nat) :
    Agree (all read i (items.map f)) (all read i items) := by
  induction items generalizing i with
  | nil => exact .refl _
  | cons d items ih =>
    rw [List.forall_mem_cons] at h
    exact agree_map (agree_both (agree_below h.1 _) (ih h.2 (i + 1))) _

end Checked

/-- A double that counts as an integer but is written without a point, so that its text does not. -/
def Datum.IsMisread : Datum → Prop
  | .float x => '.' ∉ (dataText x).toList ∧ ∃ n, FieldValue.intOfFloat x = .ok n
  | _ => False

open Checked

namespace FieldValue

variable {β : Type} {depth : Nat} {read : Datum → Checked β}

/-! ## Values without parts -/

theorem intOfText_ne_ok {s : String} (h : ∀ n, NumberText.int s ≠ .ok n) (n : Int) :
    intOfText s ≠ .ok n := by
  rw [intOfText]
  cases hs : NumberText.int s with
  | ok m => exact absurd hs (h m)
  | error e => cases e <;> exact flaw_ne_ok _ _

/-- The misread doubles are just those whose text is not accepted where they are. -/
theorem agree_int_readFloat_iff {x : Float} :
    Agree (int (Markup.readFloat x)) (int (.float x)) ↔ ¬ (Datum.float x).IsMisread := by
  by_cases hpoint : '.' ∈ (dataText x).toList
  · rw [Markup.readFloat, if_pos hpoint]
    exact ⟨fun _ h => h.1 hpoint, fun _ => .refl _⟩
  · have htext := intOfText_ne_ok (NumberText.int_dataText_ne_ok hpoint)
    rw [Markup.readFloat, if_neg hpoint]
    constructor
    · rintro hagree ⟨-, n, hn⟩
      exact htext n ((hagree n).mpr hn)
    · intro h
      exact .of_not_ok htext fun n hn => h ⟨hpoint, n, hn⟩

theorem agree_int {d : Datum} (h : ¬ d.IsMisread) : Agree (int (Json.seen depth d)) (int d) := by
  cases d with
  | float x =>
    rw [Json.seen_float]
    exact agree_int_readFloat_iff.mpr h
  | _ => cases depth <;> exact .refl _

theorem agree_intFrom {d : Datum} (h : ¬ d.IsMisread) (bound : Int) (kind : FlawKind) :
    Agree (intFrom bound kind (Json.seen depth d)) (intFrom bound kind d) := by
  intro n
  rw [intFrom_eq_ok, intFrom_eq_ok, agree_int h n]

theorem exists_float_readFloat (x : Float) : ∃ y, float (Markup.readFloat x) = .ok y ∧
    (y = x ∨ Binary64.decode x = .nan ∧ Binary64.decode y = .nan) := by
  rw [Markup.readFloat]
  split
  · exact ⟨x, rfl, .inl rfl⟩
  · by_cases hx : Binary64.decode x = .nan
    · obtain ⟨y, hy, hnan⟩ := Reading.floatChars_nan
      refine ⟨y, ?_, .inr ⟨hx, hnan⟩⟩
      rw [float, floatOfText, NumberText.float_dataText, Reading.dataText_of_nan hx, hy]
    · refine ⟨x, ?_, .inl rfl⟩
      rw [float, floatOfText, NumberText.float_dataText, Reading.floatChars_dataText hx]

theorem agree_of_float {p : Float → Prop} {read : Datum → Checked Float}
    (hread : ∀ d x, read d = .ok x ↔ float d = .ok x ∧ p x)
    (hp : ∀ x, p x → Binary64.decode x ≠ .nan) (d : Datum) :
    Agree (read (Json.seen depth d)) (read d) := by
  intro z
  rw [hread, hread]
  cases d with
  | float x =>
    rw [Json.seen_float]
    obtain ⟨y, hy, rfl | ⟨hx, hnan⟩⟩ := exists_float_readFloat x
    · rw [hy]
      rfl
    · rw [hy]
      constructor
      · rintro ⟨⟨⟩, hz⟩
        exact absurd hnan (hp _ hz)
      · rintro ⟨⟨⟩, hz⟩
        exact absurd hx (hp _ hz)
  | _ => cases depth <;> exact Iff.rfl

theorem agree_positive (d : Datum) : Agree (positive (Json.seen depth d)) (positive d) :=
  agree_of_float (fun _ _ => positive_eq_ok) (fun _ h => (Binary64.ne_nan_of_le (Binary64.le_of_float_lt h)).2) d

theorem agree_fraction (d : Datum) : Agree (fraction (Json.seen depth d)) (fraction d) :=
  agree_of_float (fun _ _ => fraction_eq_ok) (fun _ h => (Binary64.ne_nan_of_le (Binary64.le_of_float_lt h.2)).2) d

theorem agree_text {d : Datum} (h : ∀ x, d = .float x → '.' ∈ (dataText x).toList) :
    Agree (text (Json.seen depth d)) (text d) := by
  cases d with
  | float x =>
    rw [Json.seen_float, Markup.readFloat, if_pos (h x rfl)]
    exact .refl _
  | _ => cases depth <;> exact .refl _

theorem seen_ne_null {d : Datum} (h : d ≠ .null) (depth : Nat) : Json.seen depth d ≠ .null := by
  cases d with
  | null => exact absurd rfl h
  | float x =>
    rw [Json.seen_float, Markup.readFloat]
    split <;> simp
  | _ => cases depth <;> simp [Json.seen]

theorem agree_optional {d : Datum} (h : Agree (read (Json.seen depth d)) (read d)) :
    Agree (optional read (Json.seen depth d)) (optional read d) := by
  by_cases hnull : d = .null
  · subst hnull
    cases depth <;> exact .refl _
  · rw [optional_of_ne_null hnull, optional_of_ne_null (seen_ne_null hnull depth)]
    exact Checked.agree_map h some

/-! ## Collections -/

theorem agree_list {d : Datum}
    (h : ∀ items, d = .list items → ∀ item ∈ items, Agree (read (Json.seen depth item)) (read item)) :
    Agree (list read (Json.seen (depth + 1) d)) (list read d) := by
  cases d with
  | list items => exact Checked.agree_all (h items rfl) 0
  | float x =>
    rw [Json.seen_float, Markup.readFloat]
    split
    · exact .refl _
    · exact .of_not_ok (flaw_ne_ok _) (flaw_ne_ok _)
  | _ => exact .refl _

def seenEntries (depth : Nat) (entries : List (Datum × Datum)) : List (Datum × Datum) :=
  entries.map fun e => (e.1, Json.seen depth e.2)

theorem agree_model {read : List (Datum × Datum) → Checked β} {d : Datum}
    (h : ∀ entries, d = .dict entries → Agree (read (seenEntries depth entries)) (read entries)) :
    Agree (model read (Json.seen (depth + 1) d)) (model read d) := by
  cases d with
  | dict entries => exact h entries rfl
  | float x =>
    rw [Json.seen_float, Markup.readFloat]
    split
    · exact .refl _
    · exact .of_not_ok (flaw_ne_ok _) (flaw_ne_ok _)
  | _ => exact .refl _

theorem get?_seenEntries (depth : Nat) (entries : List (Datum × Datum)) (name : String) :
    Datum.get? (seenEntries depth entries) name = (Datum.get? entries name).map (Json.seen depth) := by
  rw [Datum.get?, Datum.get?, seenEntries, ← List.map_reverse, List.find?_map, Option.map_map,
    Option.map_map]
  rfl

theorem agree_named {entries : List (Datum × Datum)} {name : String} {absent : Checked β}
    (h : ∀ d, Datum.get? entries name = some d → Agree (read (Json.seen depth d)) (read d)) :
    Agree (named (seenEntries depth entries) name absent read) (named entries name absent read) := by
  rw [named, named, get?_seenEntries]
  refine Checked.agree_below ?_ _
  cases hd : Datum.get? entries name with
  | none => exact .refl _
  | some d => exact h d hd

end FieldValue

open FieldValue

namespace Scenario

/-! ## Fields -/

def NoneMisread (names : List String) (entries : List (Datum × Datum)) : Prop :=
  ∀ name ∈ names, ∀ d, Datum.get? entries name = some d → ¬ d.IsMisread

/-- The data of a scenario that keep their meaning as a text: without a double without a point for a
name, which would be accepted as one, or for an integer, which would not be, and without a name with
characters in two halves. -/
structure Unmistakable (entries : List (Datum × Datum)) : Prop where
  name : ∀ x, Datum.get? entries "name" = some (.float x) → '.' ∈ (dataText x).toList
  -- A text that holds the halves of a character is no other text here than one that holds the
  -- character; where the two are told apart, the name read is not the name written.
  whole : ∀ s, Datum.get? entries "name" = some (.str s) → ∀ c ∈ s.toList, c.toNat < 0x10000
  numbers : NoneMisread ["neighborhood_searches", "seed"] entries
  gravity : ∀ inner, Datum.get? entries "gravity" = some (.dict inner) →
    NoneMisread ["max_iterations"] inner
  machines : ∀ name ∈ ["hosts", "vms"], ∀ items inner, Datum.get? entries name = some (.list items) →
    .dict inner ∈ items → NoneMisread ["id", "pe_count"] inner

variable {depth : Nat} {entries : List (Datum × Datum)}

theorem ofName?_dataText (x : Float) : Algorithm.ofName? (dataText x) = none := by
  obtain ⟨y, hy⟩ := NumberText.exists_floatChars x
  have hne {s : String} (hs : Reading.floatChars s.toList = none) : dataText x ≠ s := by
    rintro heq
    rw [heq, hs] at hy
    cases hy
  rw [Algorithm.ofName?, if_neg (hne (by decide)), if_neg (hne (by decide))]

theorem agree_algorithmField (d : Datum) :
    Agree (algorithmField (Json.seen depth d)) (algorithmField d) := by
  cases d with
  | float x =>
    rw [Json.seen_float, Markup.readFloat]
    split
    · exact .refl _
    · refine .of_not_ok ?_ (flaw_ne_ok _)
      rw [algorithmField, ofName?_dataText]
      exact flaw_ne_ok _
  | _ => cases depth <;> exact .refl _

theorem agree_machineFields {count : Checked Int} (h : NoneMisread ["id", "pe_count"] entries) :
    Agree (machineFields count (seenEntries depth entries)) (machineFields count entries) :=
  agree_both (agree_named fun d hd => agree_int (h "id" (by simp) d hd))
    (agree_named fun d hd => agree_intFrom (h "pe_count" (by simp) d hd) _ _)

theorem agree_hostField {d : Datum} (h : ∀ inner, d = .dict inner → NoneMisread ["id", "pe_count"] inner) :
    Agree (hostField (Json.seen (depth + 1) d)) (hostField d) :=
  agree_map (agree_model fun inner hd => agree_machineFields (h inner hd)) _

theorem agree_vmField {d : Datum} (h : ∀ inner, d = .dict inner → NoneMisread ["id", "pe_count"] inner) :
    Agree (vmField (Json.seen (depth + 1) d)) (vmField d) :=
  agree_map (agree_model fun inner hd => agree_machineFields (h inner hd)) _

theorem agree_annealingFields (entries : List (Datum × Datum)) :
    Agree (annealingFields (seenEntries depth entries)) (annealingFields entries) := by
  refine agree_map (agree_both (agree_both ?_ ?_) ?_) _
  · exact agree_named fun d _ => agree_optional (agree_positive d)
  · exact agree_named fun d _ => agree_optional (agree_positive d)
  · exact agree_named fun d _ => agree_optional (agree_fraction d)

theorem agree_gravityFields (h : NoneMisread ["max_iterations"] entries) :
    Agree (gravityFields (seenEntries depth entries)) (gravityFields entries) :=
  agree_named fun d hd => agree_optional (agree_intFrom (h "max_iterations" (by simp) d hd) _ _)

theorem agree_fields (h : Unmistakable entries) :
    Agree (fields (seenEntries (depth + 2) entries)) (fields entries) := by
  refine agree_map (agree_both (agree_both (agree_both (agree_both (agree_both (agree_both ?name ?algo)
    ?hosts) ?vms) ?annealing) ?gravity) (agree_both ?searches ?seed)) _
  case name =>
    refine agree_named fun d hd => agree_optional (agree_text fun x hx => h.name x ?_)
    rw [hd, hx]
  case algo => exact agree_named fun d _ => agree_algorithmField d
  case hosts =>
    refine agree_named fun d hd => agree_list fun items hitems item hitem => agree_hostField ?_
    rintro inner rfl
    exact h.machines "hosts" (by simp) items inner (hitems ▸ hd) hitem
  case vms =>
    refine agree_named fun d hd => agree_list fun items hitems item hitem => agree_vmField ?_
    rintro inner rfl
    exact h.machines "vms" (by simp) items inner (hitems ▸ hd) hitem
  case annealing =>
    exact agree_named fun d _ => agree_model fun inner _ => agree_annealingFields inner
  case gravity =>
    refine agree_named fun d hd => agree_model fun inner hinner => agree_gravityFields ?_
    exact h.gravity inner (hinner ▸ hd)
  case searches =>
    exact agree_named fun d hd =>
      agree_optional (agree_intFrom (h.numbers "neighborhood_searches" (by simp) d hd) _ _)
  case seed => exact agree_named fun d hd => agree_optional (agree_int (h.numbers "seed" (by simp) d hd))

theorem hasOtherKey_seenEntries (depth : Nat) (entries : List (Datum × Datum)) :
    hasOtherKey (.dict (seenEntries depth entries)) = hasOtherKey (.dict entries) := by
  simp only [hasOtherKey, seenEntries, List.all_map]
  rfl

theorem ofEntries_eq_ok_iff {s : Scenario} (hkeys : hasOtherKey (.dict entries) = false) :
    ofEntries entries = .ok s ↔ fields entries = .ok s ∧ checkRules s = .ok () := by
  rw [ofEntries_of_keys hkeys]
  cases fields entries with
  | error flaws => simp
  | ok t =>
    simp only
    rw [rule_eq_ok_iff, and_comm, Except.ok.injEq, Except.ok.injEq]
    exact and_congr_right fun heq => by rw [heq]

theorem agree_check (depth : Nat) (h : Unmistakable entries) :
    Agree (check (.dict (seenEntries (depth + 2) entries))) (check (.dict entries)) := by
  intro s
  change ofEntries _ = .ok s ↔ ofEntries _ = .ok s
  cases hkeys : hasOtherKey (.dict entries) with
  | true =>
    rw [ofEntries_of_key hkeys, ofEntries_of_key ((hasOtherKey_seenEntries _ _).trans hkeys)]
  | false =>
    rw [ofEntries_eq_ok_iff hkeys, ofEntries_eq_ok_iff ((hasOtherKey_seenEntries _ _).trans hkeys),
      agree_fields h s]

/-- Data and their JSON text are accepted as the same scenario, or neither of them is. -/
theorem parse_asciiText_iff {entries : List (Datum × Datum)}
    (hfits : Json.Fits Markup.Builder.maxDepth (.dict entries)) (h : Unmistakable entries) (s : Scenario) :
    parse (.str (Json.asciiText (.dict entries))) = .ok s ↔ parse (.dict entries) = .ok s := by
  have hdata : dataOfText "<text>" (Json.asciiText (.dict entries)) = .ok (.dict (seenEntries 3 entries)) := by
    rw [dataOfText, Markup.read_asciiText hfits le_rfl]
    rfl
  rw [parse, hdata]
  exact agree_check 1 h s

/-- A small scenario: names that need escapes, a double for an integer, a double without a point, and
members that are no fields. -/
def mixed : List (String × Datum) :=
  [("name", .str "机房 \"A\""),
    ("hosts", .list [.object [("id", .int 1), ("pe_count", .float 8)]]),
    ("annealing", .object [("cold_temperature", .float 1e-5)]),
    ("notes", .object [("a\n", .list [.null, .bool true, .list []])])]

def mixedEntries : List (Datum × Datum) := mixed.map fun e => (.str e.1, e.2)

theorem isLong_of_small {n : Int} (h : n.natAbs < 10) : (Datum.int n).isLong = false := by
  have hne : Reading.maxIntDigits ≠ 0 := by decide
  rw [Datum.isLong_int_eq_false]
  unfold Datum.leastLong
  generalize Reading.maxIntDigits = k at hne
  exact h.trans_le (Nat.le_self_pow hne 10)

theorem fits_object {depth : Nat} {fields : List (String × Datum)}
    (hlong : ∀ e ∈ fields, (Json.quoteAscii e.1).length ≤ 1024) (hdistinct : (fields.map (·.1)).Nodup)
    (h : ∀ e ∈ fields, Json.Fits depth e.2) : Json.Fits (depth + 1) (.object fields) := by
  refine .dict ?_ ?_ ?_
  · rw [List.forall_mem_map]
    exact fun e he => ⟨e.1, rfl, hlong e he⟩
  · rw [List.map_map]
    exact hdistinct
  · rw [List.forall_mem_map]
    exact h

theorem fits_mixed : Json.Fits Markup.Builder.maxDepth (.dict mixedEntries) := by
  have hhost (depth : Nat) : Json.Fits (depth + 1) (.object [("id", .int 1), ("pe_count", .float 8)]) := by
    refine fits_object (by decide) (by decide) ?_
    simp only [List.forall_mem_cons, List.not_mem_nil, false_imp_iff, implies_true, and_true]
    exact ⟨.int depth (isLong_of_small (by decide)), .float depth _⟩
  have hannealing (depth : Nat) : Json.Fits (depth + 1) (.object [("cold_temperature", .float 1e-5)]) := by
    refine fits_object (by decide) (by decide) ?_
    simp only [List.forall_mem_cons, List.not_mem_nil, false_imp_iff, implies_true, and_true]
    exact .float depth _
  have hnotes (depth : Nat) :
      Json.Fits (depth + 3) (.object [("a\n", .list [.null, .bool true, .list []])]) := by
    refine fits_object (by decide) (by decide) ?_
    simp only [List.forall_mem_cons, List.not_mem_nil, false_imp_iff, implies_true, and_true]
    refine .list ?_
    simp only [List.forall_mem_cons, List.not_mem_nil, false_imp_iff, implies_true, and_true]
    exact ⟨.null _, .bool _ true, .list nofun⟩
  have hmixed : ∀ e ∈ mixed, Json.Fits 479 e.2 := by
    simp only [mixed, List.forall_mem_cons, List.not_mem_nil, false_imp_iff, implies_true, and_true]
    exact ⟨.str _ _, .list (List.forall_mem_singleton.mpr (hhost 477)), hannealing 478, hnotes 476⟩
  exact fits_object (by decide) (by decide) hmixed

theorem unmistakable_mixed : Unmistakable mixedEntries where
  name := nofun
  whole := by
    rintro s hs
    cases hs
    simp
  numbers := by
    intro name hname d hd
    simp only [List.mem_cons, List.not_mem_nil, or_false] at hname
    rcases hname with rfl | rfl <;> cases hd
  gravity := nofun
  machines := by
    intro name hname items inner hitems hinner field hfield d hd
    simp only [List.mem_cons, List.not_mem_nil, or_false] at hname hfield
    rcases hname with rfl | rfl
    · cases hitems
      cases List.mem_singleton.mp hinner
      rcases hfield with rfl | rfl <;> cases hd
      · exact id
      · exact fun h => h.1 (by decide +kernel)
    · cases hitems

theorem parse_asciiText_mixed : Json.Fits Markup.Builder.maxDepth (.dict mixedEntries) ∧
    Unmistakable mixedEntries ∧
    ∃ s, parse (.dict mixedEntries) = .ok s ∧ parse (.str (Json.asciiText (.dict mixedEntries))) = .ok s := by
  refine ⟨fits_mixed, unmistakable_mixed, ?_⟩
  have haccepted : (parse (.dict mixedEntries)).toOption.isSome = true := by decide +kernel
  cases hparse : parse (.dict mixedEntries) with
  | error f =>
    rw [hparse] at haccepted
    cases haccepted
  | ok s => exact ⟨s, rfl, (parse_asciiText_iff fits_mixed unmistakable_mixed s).mpr hparse⟩

end Scenario

end AssignmentSearch
