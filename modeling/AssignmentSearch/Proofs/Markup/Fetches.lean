import AssignmentSearch.Markup.Lexer
import AssignmentSearch.Proofs.Markup.Quotes

/-!
# Fetching tokens

What one fetch does to a lexer on a line of flow collections: it moves over spaces, drops the keys
that have become stale, and reads one piece of the text.
-/

namespace AssignmentSearch

namespace Markup

/-! ## Plain words -/

def isWordChar (c : Char) : Bool := c.isAlphanum || c = '.' || c = '+' || c = '-'

inductive IsWord : List Char → Prop where
  | plain {c : Char} {cs : List Char} (hc : c.isAlphanum = true) (hcs : ∀ d ∈ cs, isWordChar d = true) :
    IsWord (c :: cs)
  | negative {c : Char} {cs : List Char} (hc : c.isAlphanum = true)
    (hcs : ∀ d ∈ cs, isWordChar d = true) : IsWord ('-' :: c :: cs)

/-- What may follow a piece in a flow collection. -/
def isFlowEnd (c : Char) : Bool := c = ',' || c = ']' || c = '\x7d'

theorem toNat_of_isAlphanum {c : Char} (h : c.isAlphanum = true) : 48 ≤ c.toNat ∧ c.toNat ≤ 122 := by
  simp only [Char.isAlphanum, Char.isAlpha, Char.isUpper, Char.isLower, Char.isDigit, Bool.or_eq_true,
    Bool.and_eq_true, decide_eq_true_eq, ge_iff_le, UInt32.le_iff_toNat_le] at h
  have hcode : c.toNat = c.val.toNat := rfl
  simp at h
  omega

theorem toNat_of_isWordChar {c : Char} (h : isWordChar c = true) : 43 ≤ c.toNat ∧ c.toNat ≤ 122 := by
  simp only [isWordChar, Bool.or_eq_true, decide_eq_true_eq] at h
  rcases h with ((h | rfl) | rfl) | rfl
  · have := toNat_of_isAlphanum h
    omega
  · decide
  · decide
  · decide

theorem ne_of_isWordChar {c d : Char} (h : isWordChar c = true) (hd : isWordChar d = false) : c ≠ d := by
  rintro rfl
  rw [h] at hd
  cases hd

theorem isBlankOrEnd_of_isWordChar {c : Char} (h : isWordChar c = true) : isBlankOrEnd c = false := by
  obtain ⟨hlow, hhigh⟩ := toNat_of_isWordChar h
  exact Quote.isBlankOrEnd_of_visible (by omega) (by omega)

theorem isWordChar_of_isAlphanum {c : Char} (h : c.isAlphanum = true) : isWordChar c = true := by
  simp [isWordChar, h]

theorem begins_of_isAlphanum {c : Char} (h : c.isAlphanum = true) (flow : Bool) (following : Char) :
    Plain.begins flow c following = true := by
  have hmarks : ("-?:,[]\x7b\x7d#&*!|>\x27\x22%@\x60".toList.all fun d => !d.isAlphanum) = true := by
    decide +kernel
  have hnone : c ∉ "-?:,[]\x7b\x7d#&*!|>\x27\x22%@\x60".toList := by
    intro hmem
    have := List.all_eq_true.mp hmarks c hmem
    simp [h] at this
  have hblank := isBlankOrEnd_of_isWordChar (isWordChar_of_isAlphanum h)
  rw [Plain.begins, hblank, List.contains_eq_mem, decide_eq_false hnone]
  rfl

theorem begins_negative {c : Char} (h : c.isAlphanum = true) (flow : Bool) :
    Plain.begins flow '-' c = true := by
  have hblank := isBlankOrEnd_of_isWordChar (isWordChar_of_isAlphanum h)
  simp [Plain.begins, hblank]

theorem stops_of_isWordChar {c following : Char} (h : isWordChar c = true) :
    Plain.stops true c following = false := by
  have hne {d : Char} (hd : isWordChar d = false) : c ≠ d := ne_of_isWordChar h hd
  simp [Plain.stops, isBlankOrEnd_of_isWordChar h, hne (d := ':') (by decide), hne (d := ',') (by decide),
    hne (d := '?') (by decide), hne (d := '[') (by decide), hne (d := ']') (by decide),
    hne (d := '\x7b') (by decide), hne (d := '\x7d') (by decide)]

theorem stops_of_isFlowEnd {c following : Char} (h : isFlowEnd c = true) :
    Plain.stops true c following = true := by
  simp only [isFlowEnd, Bool.or_eq_true, decide_eq_true_eq] at h
  rcases h with (rfl | rfl) | rfl <;> simp [Plain.stops]

theorem isBlankOrEnd_of_isFlowEnd {c : Char} (h : isFlowEnd c = true) : isBlankOrEnd c = false := by
  simp only [isFlowEnd, Bool.or_eq_true, decide_eq_true_eq] at h
  rcases h with (rfl | rfl) | rfl <;> decide

theorem runLength_of_word {cs : List Char} (h : ∀ c ∈ cs, isWordChar c = true) {a : Char}
    (ha : isFlowEnd a = true) (rest : List Char) : Plain.runLength true (cs ++ a :: rest) = cs.length := by
  induction cs with
  | nil => rw [List.nil_append, Plain.runLength, if_pos (stops_of_isFlowEnd ha), List.length_nil]
  | cons c cs ih =>
    rw [List.forall_mem_cons] at h
    rw [List.cons_append, Plain.runLength, stops_of_isWordChar h.1, ih h.2]
    rfl

theorem IsWord.chars {cs : List Char} (h : IsWord cs) : ∀ c ∈ cs, isWordChar c = true := by
  cases h with
  | plain hc hcs => exact List.forall_mem_cons.mpr ⟨isWordChar_of_isAlphanum hc, hcs⟩
  | negative hc hcs =>
    exact List.forall_mem_cons.mpr
      ⟨by decide, List.forall_mem_cons.mpr ⟨isWordChar_of_isAlphanum hc, hcs⟩⟩

theorem IsWord.ne_nil {cs : List Char} (h : IsWord cs) : cs ≠ [] := by
  cases h <;> simp

theorem plainScan_of_word {cs : List Char} (h : IsWord cs) {a : Char} (ha : isFlowEnd a = true)
    {rest : List Char} {c : Cursor} (hrest : c.rest = cs ++ a :: rest) (indent : Int) :
    Plain.scan true indent c = .ok ((cs, false), c.forward cs.length) := by
  have hlength : Plain.runLength true c.rest = cs.length := by
    rw [hrest]
    exact runLength_of_word h.chars ha rest
  have hafter : (c.forward cs.length).rest = a :: rest := by
    rw [Cursor.rest_forward, hrest, List.drop_left]
  have hblank := isBlankOrEnd_of_isFlowEnd ha
  simp only [isBlankOrEnd, isSpaceOrEnd, isLineEnd, Bool.or_eq_false_iff, decide_eq_false_iff_not] at hblank
  have hgap : Plain.gap (c.forward cs.length) = .ok (([], false), c.forward cs.length) := by
    rw [Plain.gap, bind_apply, Scan.run_apply, hafter, List.takeWhile_cons_of_neg (by simpa using hblank.2.1),
      ok_bind]
    simp only [List.length_nil, Cursor.forward]
    rw [bind_apply, Scan.peek_apply, ok_bind, Cursor.peek_of_rest hafter, hblank.2.2.1]
    rfl
  obtain ⟨d, ds, hcs⟩ := List.exists_cons_of_ne_nil h.ne_nil
  have hmark : c.peek ≠ '#' := by
    rw [Cursor.peek_of_rest (hrest.trans (by rw [hcs, List.cons_append]))]
    exact ne_of_isWordChar (h.chars d (hcs ▸ List.mem_cons_self)) (by decide)
  have htake : c.rest.take cs.length = cs := by rw [hrest, List.take_left]
  have hne : cs.length ≠ 0 := by simpa using h.ne_nil
  rw [Plain.scan, bind_apply, get_apply, ok_bind, Plain.runs, bind_apply, get_apply, ok_bind]
  simp only [hlength]
  rw [if_neg (by simp [hmark, hne]), bind_apply, Scan.take_apply, ok_bind, htake, bind_apply, hgap, ok_bind]
  rfl

namespace Lexer

section

variable {β : Type}

theorem scan_apply (x : Scan β) (s : Lexer) :
    scan x s = (x s.cursor).bind fun r => .ok (r.1, { s with cursor := r.2 }) := by
  rw [scan, bind_apply, get_apply, ok_bind, bind_apply]
  cases x s.cursor <;> rfl

theorem expect_apply {ok : Bool} (h : ok = true) (s : Lexer) : expect ok s = .ok ((), s) := by
  rw [h]
  rfl

theorem allowKey_apply (b : Bool) (s : Lexer) : allowKey b s = .ok ((), { s with keyAllowed := b }) := rfl

end

/-- A lexer in flow context, or about to enter it: no block is open and no key is required. -/
structure Calm (s : Lexer) : Prop where
  indent : s.indent = -1
  indents : s.indents = []
  optional : ∀ e ∈ s.keys, e.2.required = false
  size : s.cursor.index + s.cursor.rest.length = s.cursor.size

theorem dropStale_apply {s : Lexer} (h : s.Calm) :
    dropStale s = .ok ((), { s with keys := s.keys.filter fun e => !isStale s.cursor e.2 }) := by
  have hany : (s.keys.any fun e => isStale s.cursor e.2 && e.2.required) = false := by
    rw [List.any_eq_false]
    intro e he
    simp [h.optional e he]
  rw [dropStale, bind_apply, get_apply, ok_bind, bind_apply, expect_apply (by simp [hany]), ok_bind]
  rfl

theorem dropKey_apply {s : Lexer} (h : s.Calm) :
    dropKey s = .ok ((), { s with keys := s.keys.filter fun e => e.1 ≠ s.flow }) := by
  have hany : (s.keys.any fun e => decide (e.1 = s.flow) && e.2.required) = false := by
    rw [List.any_eq_false]
    intro e he
    simp [h.optional e he]
  rw [dropKey, bind_apply, get_apply, ok_bind, bind_apply, expect_apply (by simp [hany]), ok_bind]
  rfl

theorem unwind_apply {s : Lexer} (h : s.Calm) (column : Int) : unwind column s = .ok ((), s) := by
  rw [unwind, bind_apply, get_apply, ok_bind, h.indents]
  split <;> rfl

/-- The keys after one may have begun. -/
def noted (s : Lexer) : List (Nat × KeyStart) :=
  if s.keyAllowed then
    (s.flow, ⟨s.taken + s.pending.length, false, s.cursor.index, s.cursor.line, s.cursor.column⟩) ::
      s.keys.filter fun e => e.1 ≠ s.flow
  else s.keys

theorem noteKey_apply {s : Lexer} (h : s.Calm) : noteKey s = .ok ((), { s with keys := s.noted }) := by
  rw [noteKey, bind_apply, get_apply, ok_bind]
  by_cases hallowed : s.keyAllowed = true
  · have hrequired : (decide (s.flow = 0) && decide (s.indent = (s.cursor.column : Int))) = false := by
      rw [h.indent]
      simp
    rw [if_pos hallowed, bind_apply, dropKey_apply h, ok_bind, modify_apply]
    simp only [hrequired, noted, hallowed, if_true]
  · rw [if_neg hallowed, noted, if_neg hallowed]
    rfl

/-! ## Gaps -/

/-- The lexer after spaces, without the keys that have become stale. -/
def arrive (s : Lexer) : Lexer :=
  let cursor := s.cursor.forward (s.cursor.rest.takeWhile (· = ' ')).length
  { s with cursor, keys := s.keys.filter fun e => !isStale cursor e.2 }

theorem gap_apply {s : Lexer} {fuel : Nat} {c : Cursor}
    (hc : c = s.cursor.forward (s.cursor.rest.takeWhile (· = ' ')).length)
    (hmark : c.peek ≠ '#') (hbreak : isBreak c.peek = false) :
    gap (fuel + 1) s = .ok ((), { s with cursor := c }) := by
  have hspaces : Scan.spaces s.cursor = .ok ((), c) := by
    rw [Scan.spaces, bind_apply, Scan.run_apply, ← hc]
    rfl
  have hcomment : Scan.comment c = .ok ((), c) := by
    rw [Scan.comment, bind_apply, Scan.peek_apply, ok_bind, if_neg hmark]
    rfl
  have hline : Scan.lineBreak c = .ok ([], c) := by
    rw [Scan.lineBreak, bind_apply, get_apply, ok_bind, hbreak]
    rfl
  rw [gap, bind_apply, scan_apply, hspaces, ok_bind, ok_bind, bind_apply, scan_apply, hcomment, ok_bind,
    ok_bind, bind_apply, scan_apply, hline, ok_bind, ok_bind]
  rfl

/-! ## Pieces -/

inductive Piece where
  | opening (t : Token)
  | closing (t : Token)
  | comma
  | colon
  | scalar (text : String) (plain : Bool) (length : Nat)
  | finish

inductive Ready (s : Lexer) : Piece → Prop where
  | opening {mark : Char} {t : Token} {rest : List Char} (hrest : s.cursor.rest = mark :: rest)
    (ht : mark = '[' ∧ t = .flowSequenceStart ∨ mark = '\x7b' ∧ t = .flowMappingStart) :
    Ready s (.opening t)
  | closing {mark : Char} {t : Token} {rest : List Char} (hrest : s.cursor.rest = mark :: rest)
    (ht : mark = ']' ∧ t = .flowSequenceEnd ∨ mark = '\x7d' ∧ t = .flowMappingEnd)
    (hflow : s.flow ≠ 0) : Ready s (.closing t)
  | comma {rest : List Char} (hrest : s.cursor.rest = ',' :: rest) : Ready s .comma
  | colon {rest : List Char} {k : Nat × KeyStart} (hrest : s.cursor.rest = ':' :: rest)
    (hflow : s.flow ≠ 0) (hkey : s.keys.find? (fun e => e.1 = s.flow) = some k) : Ready s .colon
  | quoted {text : String} {rest : List Char} (hrest : s.cursor.rest = Json.quoteAscii text ++ rest) :
    Ready s (.scalar text false (Json.quoteAscii text).length)
  | word {text : String} {c : Char} {rest : List Char} (hword : IsWord text.toList)
    (hrest : s.cursor.rest = text.toList ++ c :: rest) (hc : isFlowEnd c = true) (hflow : s.flow ≠ 0) :
    Ready s (.scalar text true text.toList.length)
  | finish (hrest : s.cursor.rest = []) (hflow : s.flow = 0) : Ready s .finish

/-- The keys without the one of this flow depth. -/
def unnoted (s : Lexer) : List (Nat × KeyStart) := s.keys.filter fun e => e.1 ≠ s.flow

/-- A lexer after the piece that it stands before. -/
def step (s : Lexer) : Piece → Lexer
  | .opening t =>
    { s with
      cursor := s.cursor.forward 1, flow := s.flow + 1, keyAllowed := true, keys := s.noted
      pending := s.pending ++ [t] }
  | .closing t =>
    { s with
      cursor := s.cursor.forward 1, flow := s.flow - 1, keyAllowed := false, keys := s.unnoted
      pending := s.pending ++ [t] }
  | .comma =>
    { s with
      cursor := s.cursor.forward 1, keyAllowed := true, keys := s.unnoted
      pending := s.pending ++ [.flowEntry] }
  | .colon =>
    let before := ((s.keys.find? fun e => e.1 = s.flow).map (·.2.tokens)).getD 0 - s.taken
    { s with
      cursor := s.cursor.forward 1, keyAllowed := false, keys := s.unnoted
      pending := s.pending.take before ++ .key :: s.pending.drop before ++ [.value] }
  | .scalar text plain length =>
    { s with
      cursor := s.cursor.forward length, keyAllowed := false, keys := s.noted
      pending := s.pending ++ [.scalar text plain] }
  | .finish => { s with keyAllowed := false, keys := [], done := true }

theorem atMarker_of_rest {c : Cursor} {a : Char} {rest : List Char} (hrest : c.rest = a :: rest)
    (hdash : a ≠ '-') (hdot : a ≠ '.') : c.atMarker = false := by
  simp [Cursor.atMarker, hrest, hdash, hdot]

theorem openFlow_apply {s : Lexer} (h : s.Calm) (t : Token) :
    openFlow t s = .ok ((), s.step (.opening t)) := by
  rw [openFlow, bind_apply, noteKey_apply h, ok_bind]
  rfl

theorem closeFlow_apply {s : Lexer} (h : s.Calm) (t : Token) (hflow : s.flow ≠ 0) :
    closeFlow t s = .ok ((), s.step (.closing t)) := by
  rw [closeFlow, bind_apply, dropKey_apply h, ok_bind, bind_apply, get_apply, ok_bind, bind_apply,
    expect_apply (by simpa using hflow), ok_bind]
  rfl

theorem flowEntry_apply {s : Lexer} (h : s.Calm) : flowEntry s = .ok ((), s.step .comma) := by
  have hcalm : Calm { s with keyAllowed := true } := ⟨h.indent, h.indents, h.optional, h.size⟩
  rw [flowEntry, bind_apply, allowKey_apply, ok_bind, bind_apply, dropKey_apply hcalm, ok_bind]
  rfl

theorem valueMark_apply {s : Lexer} {k : Nat × KeyStart} (hflow : s.flow ≠ 0)
    (hkey : s.keys.find? (fun e => e.1 = s.flow) = some k) :
    valueMark s = .ok ((), s.step .colon) := by
  rw [valueMark, bind_apply, get_apply, ok_bind]
  simp only [hkey]
  rw [bind_apply, set_apply, ok_bind, if_neg hflow, step, hkey]
  rfl

theorem quoted_apply {s : Lexer} (h : s.Calm) {text : String} {rest : List Char}
    (hrest : s.cursor.rest = Json.quoteAscii text ++ rest) :
    keyLike (do return .scalar (String.ofList (← Quote.scan)) false) s =
      .ok ((), s.step (.scalar text false (Json.quoteAscii text).length)) := by
  have hleft : s.cursor.rest.length ≤ s.cursor.left := by
    have := h.size
    rw [Cursor.left]
    omega
  rw [keyLike, bind_apply, noteKey_apply h, ok_bind, bind_apply, allowKey_apply, ok_bind, bind_apply,
    scan_apply, bind_apply, Quote.scan_quoteAscii hrest hleft, ok_bind, String.ofList_toList]
  rfl

theorem plain_apply {s : Lexer} (h : s.Calm) {text : String} {a : Char} {rest : List Char}
    (hword : IsWord text.toList) (hrest : s.cursor.rest = text.toList ++ a :: rest)
    (ha : isFlowEnd a = true) (hflow : s.flow ≠ 0) :
    plainScalar s = .ok ((), s.step (.scalar text true text.toList.length)) := by
  rw [plainScalar, bind_apply, noteKey_apply h, ok_bind, bind_apply, get_apply, ok_bind, bind_apply,
    scan_apply]
  simp only [hflow, ne_eq, not_false_eq_true, decide_true]
  rw [plainScan_of_word hword ha hrest, ok_bind, ok_bind]
  simp only [String.ofList_toList]
  rfl

/-! ## Fetches -/

theorem finish_apply {s : Lexer} (h : s.Calm) : finish s = .ok ((), s.step .finish) := by
  rw [finish, bind_apply, leaveBlocks, bind_apply, unwind_apply h, ok_bind, bind_apply, dropKey_apply h,
    ok_bind]
  rfl

theorem token_of_word {s : Lexer} {cs rest : List Char} (hword : IsWord cs)
    (hrest : s.cursor.rest = cs ++ rest) : token s = plainScalar s := by
  rw [token, bind_apply, get_apply, ok_bind]
  cases hword with
  | @plain c cs hc hcs =>
    have hne {d : Char} (hd : d.isAlphanum = false) : c ≠ d := by
      rintro rfl
      rw [hc] at hd
      cases hd
    have hmarker := atMarker_of_rest hrest (hne (by decide)) (hne (by decide))
    simp [Cursor.peek_of_rest hrest, hmarker, atEnd, begins_of_isAlphanum hc,
      hne (d := '\x00') (by decide), hne (d := '%') (by decide), hne (d := '[') (by decide),
      hne (d := '\x7b') (by decide), hne (d := ']') (by decide), hne (d := '\x7d') (by decide),
      hne (d := ',') (by decide), hne (d := '-') (by decide), hne (d := '?') (by decide),
      hne (d := ':') (by decide), hne (d := '*') (by decide), hne (d := '&') (by decide),
      hne (d := '!') (by decide), hne (d := '|') (by decide), hne (d := '>') (by decide),
      hne (d := '\x27') (by decide), hne (d := '\x22') (by decide)]
  | @negative c cs hc hcs =>
    have hahead : s.cursor.ahead 1 = c := by
      rw [Cursor.ahead, hrest]
      rfl
    have hmarker : s.cursor.atMarker = false := by
      have hdash : c ≠ '-' := by
        rintro rfl
        cases hc
      simp [Cursor.atMarker, hrest, hdash]
    simp [Cursor.peek_of_rest hrest, hmarker, atEnd, hahead, begins_negative hc,
      isBlankOrEnd_of_isWordChar (isWordChar_of_isAlphanum hc)]

/-- The token that stands next is read as the piece says. -/
theorem token_apply {s : Lexer} (h : s.Calm) {p : Piece} (hp : Ready s p) :
    token s = .ok ((), s.step p) := by
  cases hp with
  | word hword hrest hc hflow => rw [token_of_word hword hrest, plain_apply h hword hrest hc hflow]
  | opening hrest ht =>
    rw [token, bind_apply, get_apply, ok_bind]
    rcases ht with ⟨rfl, rfl⟩ | ⟨rfl, rfl⟩ <;>
      simp [Cursor.peek_of_rest hrest, atMarker_of_rest hrest, atEnd, openFlow_apply h]
  | closing hrest ht hflow =>
    rw [token, bind_apply, get_apply, ok_bind]
    rcases ht with ⟨rfl, rfl⟩ | ⟨rfl, rfl⟩ <;>
      simp [Cursor.peek_of_rest hrest, atMarker_of_rest hrest, atEnd, closeFlow_apply h _ hflow]
  | comma hrest =>
    rw [token, bind_apply, get_apply, ok_bind]
    simp [Cursor.peek_of_rest hrest, atMarker_of_rest hrest, atEnd, flowEntry_apply h]
  | colon hrest hflow hkey =>
    rw [token, bind_apply, get_apply, ok_bind]
    simp [Cursor.peek_of_rest hrest, atMarker_of_rest hrest, atEnd, hflow, valueMark_apply hflow hkey]
  | quoted hrest =>
    have hquote := quoted_apply h hrest
    rw [Json.quoteAscii, List.cons_append] at hrest
    rw [token, bind_apply, get_apply, ok_bind]
    simpa [Cursor.peek_of_rest hrest, atMarker_of_rest hrest, atEnd] using hquote
  | finish hrest hflow =>
    have hpeek : s.cursor.peek = '\x00' := by
      rw [Cursor.peek, hrest]
      rfl
    rw [token, bind_apply, get_apply, ok_bind]
    simp [hpeek, atEnd, finish_apply h]

theorem Ready.begins {s : Lexer} {p : Piece} (h : Ready s p) :
    s.cursor.peek ≠ '#' ∧ isBreak s.cursor.peek = false := by
  cases h with
  | opening hrest ht =>
    rw [Cursor.peek_of_rest hrest]
    rcases ht with ⟨rfl, -⟩ | ⟨rfl, -⟩ <;> decide
  | closing hrest ht hflow =>
    rw [Cursor.peek_of_rest hrest]
    rcases ht with ⟨rfl, -⟩ | ⟨rfl, -⟩ <;> decide
  | comma hrest =>
    rw [Cursor.peek_of_rest hrest]
    decide
  | colon hrest hflow hkey =>
    rw [Cursor.peek_of_rest hrest]
    decide
  | quoted hrest =>
    rw [Cursor.peek_of_rest hrest]
    decide
  | @word text a rest hword hrest hc hflow =>
    obtain ⟨c, cs, hcs⟩ := List.exists_cons_of_ne_nil hword.ne_nil
    have hchar : isWordChar c = true := hword.chars c (hcs ▸ List.mem_cons_self)
    have hblank := isBlankOrEnd_of_isWordChar hchar
    simp only [isBlankOrEnd, isSpaceOrEnd, isLineEnd, Bool.or_eq_false_iff] at hblank
    rw [Cursor.peek_of_rest (hrest.trans (by rw [hcs, List.cons_append]))]
    exact ⟨ne_of_isWordChar hchar (by decide), hblank.2.2.1⟩
  | finish hrest hflow =>
    rw [Cursor.peek, hrest]
    decide

theorem size_forward {c : Cursor} (h : c.index + c.rest.length = c.size) (n : Nat) :
    (c.forward n).index + (c.forward n).rest.length = (c.forward n).size := by
  induction n generalizing c with
  | zero => exact h
  | succ n ih =>
    refine ih ?_
    obtain ⟨rest, index, line, column, size⟩ := c
    cases rest with
    | nil => exact h
    | cons a rest =>
      simp only [List.length_cons] at h
      rw [Cursor.next]
      simp only
      split
      · simp only
        omega
      · split <;> simp only <;> omega

theorem Calm.arrive {s : Lexer} (h : s.Calm) : s.arrive.Calm :=
  ⟨h.indent, h.indents, fun e he => h.optional e (List.mem_of_mem_filter he), size_forward h.size _⟩

theorem optional_noted {s : Lexer} (h : s.Calm) : ∀ e ∈ s.noted, e.2.required = false := by
  intro e he
  rw [noted] at he
  split at he
  · rcases List.mem_cons.mp he with rfl | he
    · rfl
    · exact h.optional e (List.mem_of_mem_filter he)
  · exact h.optional e he

theorem optional_unnoted {s : Lexer} (h : s.Calm) : ∀ e ∈ s.unnoted, e.2.required = false :=
  fun e he => h.optional e (List.mem_of_mem_filter he)

theorem Calm.step {s : Lexer} (h : s.Calm) (p : Piece) : (s.step p).Calm := by
  cases p with
  | opening t => exact ⟨h.indent, h.indents, optional_noted h, size_forward h.size _⟩
  | closing t => exact ⟨h.indent, h.indents, optional_unnoted h, size_forward h.size _⟩
  | comma => exact ⟨h.indent, h.indents, optional_unnoted h, size_forward h.size _⟩
  | colon => exact ⟨h.indent, h.indents, optional_unnoted h, size_forward h.size _⟩
  | scalar text plain length => exact ⟨h.indent, h.indents, optional_noted h, size_forward h.size _⟩
  | finish => exact ⟨h.indent, h.indents, nofun, h.size⟩

/-- A fetch moves over spaces and reads the piece behind them. -/
theorem fetch_apply {s : Lexer} (h : s.Calm) {p : Piece} (hp : Ready s.arrive p) :
    fetch s = .ok ((), s.arrive.step p) := by
  obtain ⟨hmark, hbreak⟩ := hp.begins
  have hgap : gap s.cursor.left.succ s = .ok ((), { s with cursor := s.arrive.cursor }) :=
    gap_apply rfl hmark hbreak
  have hdrop : dropStale { s with cursor := s.arrive.cursor } = .ok ((), s.arrive) :=
    dropStale_apply ⟨h.indent, h.indents, h.optional, size_forward h.size _⟩
  simp only [fetch, bind_apply, get_apply, ok_bind, hgap, hdrop, unwind_apply h.arrive]
  exact token_apply h.arrive hp

end Lexer

end Markup

end AssignmentSearch
