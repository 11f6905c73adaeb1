import AssignmentSearch.Proofs.Markup.Lookahead
import AssignmentSearch.Proofs.Markup.Words

/-!
# The tokens of JSON text

Data are written as JSON text in ASCII characters on one line. The lexer takes the text apart into the
tokens of flow collections.
-/

namespace AssignmentSearch

namespace Json

def wordOf : Datum → String
  | .null => "null"
  | .bool b => if b then "true" else "false"
  | .int n => toString n
  | .float x => dataText x
  | _ => ""

def separator (first : Bool) : List Char := if first then [] else [',', ' ']

mutual

/-- Data as JSON text in ASCII characters, with a blank after commas and colons. -/
def ascii : Datum → List Char
  | .str s => quoteAscii s
  | .list items => '[' :: (asciiItems true items ++ [']'])
  | .dict entries => '\x7b' :: (asciiEntries true entries ++ ['\x7d'])
  | d => (wordOf d).toList

def asciiItems : Bool → List Datum → List Char
  | _, [] => []
  | first, d :: rest => separator first ++ (ascii d ++ asciiItems false rest)

def asciiEntries : Bool → List (Datum × Datum) → List Char
  | _, [] => []
  | first, (k, v) :: rest =>
    separator first ++ (quoteAscii k.plain ++ ':' :: ' ' :: (ascii v ++ asciiEntries false rest))

end

def asciiText (d : Datum) : String := String.ofList (ascii d)

example : asciiText (.object [("é", .list [.int 1, .null])]) = "\x7b\"\\u00e9\": [1, null]\x7d" := by
  decide +kernel

/-- Data that have a JSON text which can be read: no more than `depth` collections lie inside each
other, integers are short enough to be written, and keys are texts, all different and short enough to
be keys. -/
inductive Fits : Nat → Datum → Prop where
  | null (depth : Nat) : Fits depth .null
  | bool (depth : Nat) (b : Bool) : Fits depth (.bool b)
  | int (depth : Nat) {n : Int} (h : (Datum.int n).isLong = false) : Fits depth (.int n)
  | float (depth : Nat) (x : Float) : Fits depth (.float x)
  | str (depth : Nat) (s : String) : Fits depth (.str s)
  | list {depth : Nat} {items : List Datum} (h : ∀ d ∈ items, Fits depth d) :
    Fits (depth + 1) (.list items)
  | dict {depth : Nat} {entries : List (Datum × Datum)}
    (hkeys : ∀ e ∈ entries, ∃ name, e.1 = .str name ∧ (quoteAscii name).length ≤ 1024)
    (hdistinct : (entries.map fun e => e.1.plain).Nodup) (h : ∀ e ∈ entries, Fits depth e.2) :
    Fits (depth + 1) (.dict entries)

end Json

namespace Markup

def commaUnless (first : Bool) : List Token := if first then [] else [.flowEntry]

mutual

def tokensOf : Datum → List Token
  | .str s => [.scalar s false]
  | .list items => .flowSequenceStart :: (itemTokens true items ++ [.flowSequenceEnd])
  | .dict entries => .flowMappingStart :: (entryTokens true entries ++ [.flowMappingEnd])
  | d => [.scalar (Json.wordOf d) true]

def itemTokens : Bool → List Datum → List Token
  | _, [] => []
  | first, d :: rest => commaUnless first ++ (tokensOf d ++ itemTokens false rest)

def entryTokens : Bool → List (Datum × Datum) → List Token
  | _, [] => []
  | first, (k, v) :: rest =>
    commaUnless first ++ ([.key, .scalar k.plain false, .value] ++ (tokensOf v ++ entryTokens false rest))

end

/-! ## Words -/

theorem IsWord.signed {c : Char} {cs : List Char} (hc : c.isDigit = true)
    (hcs : ∀ d ∈ cs, d ∈ numeralChars) (negative : Bool) :
    IsWord ((if negative then ['-'] else []) ++ c :: cs) := by
  have halphanum : c.isAlphanum = true := by simp [Char.isAlphanum, hc]
  have hchars : ∀ d ∈ cs, isWordChar d = true := fun d hd =>
    numeral_rec (P := fun d => isWordChar d = true) (by decide) (hcs d hd)
  cases negative with
  | false => exact .plain halphanum hchars
  | true => exact .negative halphanum hchars

theorem IsWord.checked (c : Char) (cs : List Char) (h : (c.isAlphanum && cs.all isWordChar) = true) :
    IsWord (c :: cs) := by
  rw [Bool.and_eq_true, List.all_eq_true] at h
  exact .plain h.1 h.2

theorem IsWord.minus {c : Char} {cs : List Char} (hc : c.isAlphanum = true) (h : IsWord (c :: cs)) :
    IsWord ('-' :: c :: cs) :=
  .negative hc (List.forall_mem_cons.mp h.chars).2

theorem isWord_toString (n : Int) : IsWord (toString n).toList := by
  have hdigits := isDigit_toDigits n.natAbs
  obtain ⟨c, cs, heq⟩ := List.exists_cons_of_ne_nil (Nat.toDigits_ne_nil (n := n.natAbs) (b := 10))
  rw [heq, List.forall_mem_cons] at hdigits
  have hword := IsWord.signed hdigits.1 (fun d hd => mem_numeralChars_of_digit (hdigits.2 d hd))
    (decide (n < 0))
  rw [toList_toString_int, heq]
  simpa using hword

theorem isWord_dataText (x : Float) : IsWord (dataText x).toList := by
  cases hx : Binary64.decode x with
  | nan =>
    rw [Reading.dataText_of_nan hx]
    exact .checked 'N' ['a', 'N'] (by decide)
  | infinite negative =>
    rw [Reading.dataText_of_infinite hx]
    have hname : IsWord ['I', 'n', 'f', 'i', 'n', 'i', 't', 'y'] := .checked _ _ (by decide)
    cases negative with
    | false => exact hname
    | true => exact hname.minus (by decide)
  | finite d =>
    obtain ⟨cs, y, hwrites, htext, -⟩ := Reading.dataText_of_finite hx
    obtain ⟨c, rest, rfl, hc⟩ := hwrites.begins
    rw [htext]
    exact .signed hc (List.forall_mem_cons.mp (mem_numeralChars_of_writes hwrites)).2 d.negative

theorem isWord_null : IsWord (Json.wordOf .null).toList :=
  .checked 'n' ['u', 'l', 'l'] (by decide)

theorem isWord_bool (b : Bool) : IsWord (Json.wordOf (.bool b)).toList := by
  cases b with
  | true => exact .checked 't' ['r', 'u', 'e'] (by decide)
  | false => exact .checked 'f' ['a', 'l', 's', 'e'] (by decide)

/-! ## Reading pieces -/

namespace Lexer

/-- From `s` the lexer comes to `s'`, at the same flow depth and with more tokens. -/
structure Reads (s s' : Lexer) (ts : List Token) : Prop where
  flow : s'.flow = s.flow
  pending : s'.pending = s.pending ++ ts
  done : s'.done = false
  calm : s'.Calm
  yields : ∀ out, Yields s' out → Yields s out

theorem Reads.refl {s : Lexer} (hdone : s.done = false) (hcalm : s.Calm) : Reads s s [] :=
  ⟨rfl, (List.append_nil _).symm, hdone, hcalm, fun _ h => h⟩

theorem Reads.trans {s s' s'' : Lexer} {ts ts' : List Token} (h : Reads s s' ts)
    (h' : Reads s' s'' ts') : Reads s s'' (ts ++ ts') :=
  ⟨h'.flow.trans h.flow, by rw [h'.pending, h.pending, List.append_assoc], h'.done, h'.calm,
    fun out hout => h.yields out (h'.yields out hout)⟩

theorem arrive_rest {s : Lexer} {n : Nat} {cs : List Char}
    (h : s.cursor.rest = List.replicate n ' ' ++ cs) (hcs : cs.head? ≠ some ' ') :
    s.arrive.cursor.rest = cs := by
  have htake : s.cursor.rest.takeWhile (fun c => decide (c = ' ')) = List.replicate n ' ' := by
    rw [h, List.takeWhile_append_of_pos (by simp)]
    cases cs with
    | nil => simp
    | cons c cs =>
      rw [List.takeWhile_cons_of_neg (by simpa using hcs), List.append_nil]
  rw [arrive]
  simp only
  rw [htake, Cursor.rest_forward, List.length_replicate, h, List.drop_left' List.length_replicate]

theorem reads_comma {s : Lexer} (hdone : s.done = false) (hcalm : s.Calm) {cs : List Char}
    (h : s.cursor.rest = ',' :: cs) :
    ∃ s', Reads s s' [.flowEntry] ∧ s'.cursor.rest = cs ∧ s'.keyAllowed = true := by
  have harrive := arrive_rest (n := 0) h (by simp)
  refine ⟨s.arrive.step .comma, ⟨rfl, rfl, hdone, hcalm.arrive.step _, fun out hout => ?_⟩, ?_, rfl⟩
  · exact .step hdone hcalm (.comma harrive) hout
  · change (s.arrive.cursor.forward 1).rest = cs
    rw [Cursor.rest_forward, harrive]
    rfl

theorem reads_collection {s : Lexer} (hdone : s.done = false) (hcalm : s.Calm) {n : Nat}
    {first last : Char} {opening closing : Token} {ts : List Token} {inner follow : List Char}
    (hopening : first = '[' ∧ opening = .flowSequenceStart ∨ first = '\x7b' ∧ opening = .flowMappingStart)
    (hclosing : last = ']' ∧ closing = .flowSequenceEnd ∨ last = '\x7d' ∧ closing = .flowMappingEnd)
    (h : s.cursor.rest = List.replicate n ' ' ++ (first :: inner))
    (hinner : ∀ s₁ : Lexer, s₁.done = false → s₁.Calm → s₁.flow ≠ 0 → s₁.keyAllowed = true →
      s₁.cursor.rest = inner → ∃ s₂, Reads s₁ s₂ ts ∧ s₂.cursor.rest = last :: follow) :
    ∃ s', Reads s s' (opening :: (ts ++ [closing])) ∧ s'.cursor.rest = follow := by
  have hspace : first ≠ ' ' ∧ last ≠ ' ' := by
    rcases hopening with ⟨rfl, -⟩ | ⟨rfl, -⟩ <;> rcases hclosing with ⟨rfl, -⟩ | ⟨rfl, -⟩ <;> decide
  have harrive := arrive_rest h (by simpa using hspace.1)
  have hafter : (s.arrive.step (.opening opening)).cursor.rest = inner := by
    change (s.arrive.cursor.forward 1).rest = inner
    rw [Cursor.rest_forward, harrive]
    rfl
  obtain ⟨s₂, hreads, hrest⟩ := hinner (s.arrive.step (.opening opening)) hdone (hcalm.arrive.step _)
    (Nat.succ_ne_zero _) rfl hafter
  have hflow : s₂.flow ≠ 0 := by
    rw [hreads.flow]
    exact Nat.succ_ne_zero _
  have harrive₂ := arrive_rest (n := 0) hrest (by simpa using hspace.2)
  refine ⟨s₂.arrive.step (.closing closing), ⟨?_, ?_, hreads.done, hreads.calm.arrive.step _, ?_⟩, ?_⟩
  · change s₂.flow - 1 = s.flow
    rw [hreads.flow]
    rfl
  · change s₂.pending ++ [closing] = _
    rw [hreads.pending]
    change s.pending ++ [opening] ++ ts ++ [closing] = _
    simp
  · intro out hout
    refine .step hdone hcalm (.opening harrive hopening) (hreads.yields out ?_)
    exact .step hreads.done hreads.calm (.closing harrive₂ hclosing hflow) hout
  · change (s₂.arrive.cursor.forward 1).rest = follow
    rw [Cursor.rest_forward, harrive₂]
    rfl

theorem reads_scalar {s : Lexer} (hdone : s.done = false) (hcalm : s.Calm) {text : String} {plain : Bool}
    {length : Nat} (hp : Ready s.arrive (.scalar text plain length)) :
    Reads s (s.arrive.step (.scalar text plain length)) [.scalar text plain] :=
  ⟨rfl, rfl, hdone, hcalm.arrive.step _, fun _ hout => .step hdone hcalm hp hout⟩

theorem reads_quoted {s : Lexer} (hdone : s.done = false) (hcalm : s.Calm) {n : Nat} {text : String}
    {follow : List Char} (h : s.cursor.rest = List.replicate n ' ' ++ (Json.quoteAscii text ++ follow)) :
    ∃ s', Reads s s' [.scalar text false] ∧ s'.cursor.rest = follow := by
  have harrive := arrive_rest h (by simp [Json.quoteAscii])
  refine ⟨_, reads_scalar hdone hcalm (.quoted harrive), ?_⟩
  change (s.arrive.cursor.forward _).rest = follow
  rw [Cursor.rest_forward, harrive, List.drop_left]

theorem reads_word {s : Lexer} (hdone : s.done = false) (hcalm : s.Calm) (hflow : s.flow ≠ 0) {n : Nat}
    {text : String} (hword : IsWord text.toList) {a : Char} (ha : isFlowEnd a = true) {rest : List Char}
    (h : s.cursor.rest = List.replicate n ' ' ++ (text.toList ++ a :: rest)) :
    ∃ s', Reads s s' [.scalar text true] ∧ s'.cursor.rest = a :: rest := by
  have harrive := arrive_rest h (by
    obtain ⟨c, cs, hcs⟩ := List.exists_cons_of_ne_nil hword.ne_nil
    have hchar := hword.chars c (hcs ▸ List.mem_cons_self)
    rw [hcs, List.cons_append, List.head?_cons]
    simpa using ne_of_isWordChar hchar (d := ' ') (by decide))
  refine ⟨_, reads_scalar hdone hcalm (.word hword harrive ha hflow), ?_⟩
  change (s.arrive.cursor.forward _).rest = a :: rest
  rw [Cursor.rest_forward, harrive, List.drop_left]

theorem isInline_of_printable {c : Char} (h : 32 ≤ c.toNat ∧ c.toNat < 127) : isInline c = true := by
  have hne {d : Char} (hd : d.toNat < 32) : c ≠ d := by
    rintro rfl
    omega
  have h85 : c.toNat ≠ 0x85 := by omega
  have h2028 : c.toNat ≠ 0x2028 := by omega
  have h2029 : c.toNat ≠ 0x2029 := by omega
  have hmark : c.toNat ≠ 0xFEFF := by omega
  simp [isInline, isBreak, isByteOrderMark, hne (d := '\n') (by decide), hne (d := '\r') (by decide), h85,
    h2028, h2029, hmark]

theorem reads_key {s : Lexer} (hdone : s.done = false) (hcalm : s.Calm) (hflow : s.flow ≠ 0)
    (hallowed : s.keyAllowed = true) {n : Nat} {name : String}
    (hlength : (Json.quoteAscii name).length ≤ 1024) {rest : List Char}
    (h : s.cursor.rest = List.replicate n ' ' ++ (Json.quoteAscii name ++ ':' :: rest)) :
    ∃ s', Reads s s' [.key, .scalar name false, .value] ∧ s'.cursor.rest = rest := by
  have harrive := arrive_rest h (by simp [Json.quoteAscii])
  obtain ⟨p, hp⟩ : ∃ p : Piece, p = .scalar name false (Json.quoteAscii name).length := ⟨_, rfl⟩
  obtain ⟨s₁, hs₁⟩ : ∃ s₁, s₁ = s.arrive.step p := ⟨_, rfl⟩
  have hreads : Reads s s₁ [.scalar name false] := by
    rw [hs₁, hp]
    exact reads_scalar hdone hcalm (.quoted harrive)
  have hcursor : s₁.cursor = ⟨':' :: rest, s.arrive.cursor.index + (Json.quoteAscii name).length,
      s.arrive.cursor.line, s.arrive.cursor.column + (Json.quoteAscii name).length, s.arrive.cursor.size⟩ := by
    rw [hs₁, hp]
    exact forward_inline harrive fun a ha => isInline_of_printable (Json.printable_quoteAscii name a ha)
  have hstay : s₁.arrive.cursor = s₁.cursor := by
    rw [arrive, hcursor]
    rfl
  -- the key that the string may be
  obtain ⟨k, hk⟩ : ∃ k : KeyStart, k = ⟨s.taken + s.pending.length, false, s.arrive.cursor.index,
      s.arrive.cursor.line, s.arrive.cursor.column⟩ := ⟨_, rfl⟩
  have hkeys : s₁.keys = (s.flow, k) :: s.arrive.keys.filter fun e => e.1 ≠ s.flow := by
    rw [hs₁, hp, hk]
    change (if s.keyAllowed then _ else _) = _
    rw [if_pos hallowed]
    rfl
  have hfresh : isStale s₁.cursor k = false := by
    rw [isStale, hcursor, hk]
    simp
    omega
  have hfind : s₁.arrive.keys.find? (fun e => e.1 = s₁.arrive.flow) = some (s.flow, k) := by
    have hflow₁ : s₁.arrive.flow = s.flow := hreads.flow
    change (s₁.keys.filter fun e => !isStale s₁.arrive.cursor e.2).find? _ = _
    rw [hstay, hkeys, List.filter_cons_of_pos (by simp [hfresh]), hflow₁,
      List.find?_cons_of_pos (by simp)]
  have hnext : s₁.arrive.cursor.rest = ':' :: rest := by rw [hstay, hcursor]
  have hready : Ready s₁.arrive .colon :=
    .colon hnext (by rw [show s₁.arrive.flow = s.flow from hreads.flow]; exact hflow) hfind
  refine ⟨s₁.arrive.step .colon, ⟨hreads.flow, ?_, hreads.done, hreads.calm.arrive.step _, fun out hout =>
    hreads.yields out (.step hreads.done hreads.calm hready hout)⟩, ?_⟩
  · have hpending : s₁.arrive.pending = s.pending ++ [.scalar name false] := hreads.pending
    have hbefore : k.tokens - s₁.arrive.taken = s.pending.length := by
      have htaken : s₁.arrive.taken = s.taken := by
        change s₁.taken = s.taken
        rw [hs₁, taken_step]
        rfl
      rw [hk, htaken]
      exact Nat.add_sub_cancel_left _ _
    simp only [step, hfind, Option.map_some, Option.getD_some, hbefore, hpending]
    simp
  · change (s₁.arrive.cursor.forward 1).rest = rest
    rw [Cursor.rest_forward, hstay, hcursor]
    rfl

/-! ## Reading data -/

theorem reads_separator {s : Lexer} (hdone : s.done = false) (hcalm : s.Calm) {first : Bool}
    {cs : List Char} (h : s.cursor.rest = Json.separator first ++ cs) :
    ∃ s₁ n, Reads s s₁ (commaUnless first) ∧ s₁.cursor.rest = List.replicate n ' ' ++ cs ∧
      ((first = true → s.keyAllowed = true) → s₁.keyAllowed = true) := by
  cases first with
  | true => exact ⟨s, 0, .refl hdone hcalm, h, fun hallowed => hallowed rfl⟩
  | false =>
    obtain ⟨s₁, hreads, hrest, hallowed⟩ := reads_comma hdone hcalm h
    exact ⟨s₁, 1, hreads, hrest, fun _ => hallowed⟩

/-- Text of data is read as the tokens of the data, if a flow collection goes on or ends behind it. -/
def IsRead (d : Datum) : Prop :=
  ∀ (s : Lexer) (n : Nat) (a : Char) (rest : List Char), s.done = false → s.Calm → s.flow ≠ 0 →
    isFlowEnd a = true → s.cursor.rest = List.replicate n ' ' ++ (Json.ascii d ++ a :: rest) →
    ∃ s', Reads s s' (tokensOf d) ∧ s'.cursor.rest = a :: rest

theorem reads_items {items : List Datum} (hitems : ∀ d ∈ items, IsRead d) {first : Bool} {s : Lexer}
    (hdone : s.done = false) (hcalm : s.Calm) (hflow : s.flow ≠ 0) {last : Char}
    (hlast : isFlowEnd last = true) {follow : List Char}
    (h : s.cursor.rest = Json.asciiItems first items ++ last :: follow) :
    ∃ s', Reads s s' (itemTokens first items) ∧ s'.cursor.rest = last :: follow := by
  induction items generalizing first s with
  | nil => exact ⟨s, .refl hdone hcalm, h⟩
  | cons d items ih =>
    rw [List.forall_mem_cons] at hitems
    rw [Json.asciiItems, List.append_assoc, List.append_assoc] at h
    obtain ⟨s₁, n, hcomma, hrest₁, -⟩ := reads_separator hdone hcalm h
    obtain ⟨a, rest, hrest, ha⟩ : ∃ a rest,
        Json.asciiItems false items ++ last :: follow = a :: rest ∧ isFlowEnd a = true := by
      cases items with
      | nil => exact ⟨last, follow, rfl, hlast⟩
      | cons e items => exact ⟨',', _, by rw [Json.asciiItems]; rfl, rfl⟩
    have hflow₁ : s₁.flow ≠ 0 := hcomma.flow ▸ hflow
    rw [hrest] at hrest₁
    obtain ⟨s₂, hitem, hrest₂⟩ := hitems.1 s₁ n a rest hcomma.done hcomma.calm hflow₁ ha hrest₁
    rw [← hrest] at hrest₂
    obtain ⟨s₃, hmore, hrest₃⟩ := ih hitems.2 hitem.done hitem.calm (hitem.flow ▸ hflow₁) hrest₂
    exact ⟨s₃, hcomma.trans (hitem.trans hmore), hrest₃⟩

theorem reads_entries {entries : List (Datum × Datum)}
    (hkeys : ∀ e ∈ entries, (Json.quoteAscii e.1.plain).length ≤ 1024)
    (hvalues : ∀ e ∈ entries, IsRead e.2) {first : Bool} {s : Lexer}
    (hdone : s.done = false) (hcalm : s.Calm) (hflow : s.flow ≠ 0)
    (hallowed : first = true → s.keyAllowed = true) {last : Char} (hlast : isFlowEnd last = true)
    {follow : List Char} (h : s.cursor.rest = Json.asciiEntries first entries ++ last :: follow) :
    ∃ s', Reads s s' (entryTokens first entries) ∧ s'.cursor.rest = last :: follow := by
  induction entries generalizing first s with
  | nil => exact ⟨s, .refl hdone hcalm, h⟩
  | cons e entries ih =>
    obtain ⟨k, v⟩ := e
    rw [List.forall_mem_cons] at hkeys hvalues
    rw [Json.asciiEntries, List.append_assoc, List.append_assoc, List.cons_append, List.cons_append,
      List.append_assoc] at h
    obtain ⟨s₁, n, hcomma, hrest₁, hallowed₁⟩ := reads_separator hdone hcalm h
    have hflow₁ : s₁.flow ≠ 0 := hcomma.flow ▸ hflow
    obtain ⟨s₂, hkey, hrest₂⟩ :=
      reads_key hcomma.done hcomma.calm hflow₁ (hallowed₁ hallowed) hkeys.1 hrest₁
    have hflow₂ : s₂.flow ≠ 0 := hkey.flow ▸ hflow₁
    obtain ⟨a, rest, hrest, ha⟩ : ∃ a rest,
        Json.asciiEntries false entries ++ last :: follow = a :: rest ∧ isFlowEnd a = true := by
      cases entries with
      | nil => exact ⟨last, follow, rfl, hlast⟩
      | cons e entries => exact ⟨',', _, by rw [Json.asciiEntries]; rfl, rfl⟩
    rw [hrest] at hrest₂
    obtain ⟨s₃, hvalue, hrest₃⟩ := hvalues.1 s₂ 1 a rest hkey.done hkey.calm hflow₂ ha hrest₂
    rw [← hrest] at hrest₃
    have hlater : false = true → s₃.keyAllowed = true := nofun
    obtain ⟨s₄, hmore, hrest₄⟩ := ih hkeys.2 hvalues.2 hvalue.done hvalue.calm (hvalue.flow ▸ hflow₂)
      hlater hrest₃
    exact ⟨s₄, hcomma.trans (hkey.trans (hvalue.trans hmore)), hrest₄⟩

theorem isRead_of_word {d : Datum} (hascii : Json.ascii d = (Json.wordOf d).toList)
    (htokens : tokensOf d = [.scalar (Json.wordOf d) true]) (hword : IsWord (Json.wordOf d).toList) :
    IsRead d := by
  intro s n a rest hdone hcalm hflow ha h
  rw [hascii] at h
  rw [htokens]
  exact reads_word hdone hcalm hflow hword ha h

theorem reads_array {items : List Datum} (hitems : ∀ d ∈ items, IsRead d) {s : Lexer}
    (hdone : s.done = false) (hcalm : s.Calm) {n : Nat} {follow : List Char}
    (h : s.cursor.rest = List.replicate n ' ' ++ (Json.ascii (.list items) ++ follow)) :
    ∃ s', Reads s s' (tokensOf (.list items)) ∧ s'.cursor.rest = follow := by
  rw [Json.ascii, List.cons_append, List.append_assoc] at h
  refine reads_collection hdone hcalm (.inl ⟨rfl, rfl⟩) (.inl ⟨rfl, rfl⟩) h ?_
  intro s₁ hdone₁ hcalm₁ hflow₁ _ hrest₁
  exact reads_items hitems hdone₁ hcalm₁ hflow₁ rfl hrest₁

theorem reads_object {entries : List (Datum × Datum)}
    (hkeys : ∀ e ∈ entries, (Json.quoteAscii e.1.plain).length ≤ 1024)
    (hvalues : ∀ e ∈ entries, IsRead e.2) {s : Lexer} (hdone : s.done = false) (hcalm : s.Calm) {n : Nat}
    {follow : List Char}
    (h : s.cursor.rest = List.replicate n ' ' ++ (Json.ascii (.dict entries) ++ follow)) :
    ∃ s', Reads s s' (tokensOf (.dict entries)) ∧ s'.cursor.rest = follow := by
  rw [Json.ascii, List.cons_append, List.append_assoc] at h
  refine reads_collection hdone hcalm (.inr ⟨rfl, rfl⟩) (.inr ⟨rfl, rfl⟩) h ?_
  intro s₁ hdone₁ hcalm₁ hflow₁ hallowed₁ hrest₁
  exact reads_entries hkeys hvalues hdone₁ hcalm₁ hflow₁ (fun _ => hallowed₁) rfl hrest₁

theorem length_key {e : Datum × Datum}
    (h : ∃ name, e.1 = .str name ∧ (Json.quoteAscii name).length ≤ 1024) :
    (Json.quoteAscii e.1.plain).length ≤ 1024 := by
  obtain ⟨name, hname, hlength⟩ := h
  rwa [hname]

/-- All data that have a JSON text are read. -/
theorem isRead_of_fits {depth : Nat} {d : Datum} (h : Json.Fits depth d) : IsRead d := by
  induction h with
  | null => exact isRead_of_word rfl rfl isWord_null
  | bool depth b => exact isRead_of_word rfl rfl (isWord_bool b)
  | @int depth n => exact isRead_of_word rfl rfl (isWord_toString n)
  | float depth x => exact isRead_of_word rfl rfl (isWord_dataText x)
  | str depth t =>
    intro s n a rest hdone hcalm hflow ha h
    exact reads_quoted hdone hcalm h
  | list _ ih =>
    intro s n a rest hdone hcalm hflow ha h
    exact reads_array ih hdone hcalm h
  | dict hkeys _ _ ih =>
    intro s n a rest hdone hcalm hflow ha h
    exact reads_object (fun e he => length_key (hkeys e he)) ih hdone hcalm h

end Lexer

/-! ## Whole texts -/

theorem printable_word {cs : List Char} (h : IsWord cs) : ∀ c ∈ cs, 32 ≤ c.toNat ∧ c.toNat < 127 := by
  intro c hc
  have := toNat_of_isWordChar (h.chars c hc)
  omega

theorem printable_separator (first : Bool) :
    ∀ c ∈ Json.separator first, 32 ≤ c.toNat ∧ c.toNat < 127 := by
  cases first <;> simp [Json.separator]

theorem printable_items {items : List Datum}
    (h : ∀ d ∈ items, ∀ c ∈ Json.ascii d, 32 ≤ c.toNat ∧ c.toNat < 127) (first : Bool) :
    ∀ c ∈ Json.asciiItems first items, 32 ≤ c.toNat ∧ c.toNat < 127 := by
  induction items generalizing first with
  | nil => simp [Json.asciiItems]
  | cons d items ih =>
    rw [List.forall_mem_cons] at h
    intro c hc
    rw [Json.asciiItems, List.mem_append, List.mem_append] at hc
    rcases hc with hc | hc | hc
    · exact printable_separator first c hc
    · exact h.1 c hc
    · exact ih h.2 false c hc

theorem printable_entries {entries : List (Datum × Datum)}
    (h : ∀ e ∈ entries, ∀ c ∈ Json.ascii e.2, 32 ≤ c.toNat ∧ c.toNat < 127) (first : Bool) :
    ∀ c ∈ Json.asciiEntries first entries, 32 ≤ c.toNat ∧ c.toNat < 127 := by
  induction entries generalizing first with
  | nil => simp [Json.asciiEntries]
  | cons e entries ih =>
    obtain ⟨k, v⟩ := e
    rw [List.forall_mem_cons] at h
    intro c hc
    rw [Json.asciiEntries, List.mem_append, List.mem_append, List.mem_cons, List.mem_cons,
      List.mem_append] at hc
    rcases hc with hc | hc | rfl | rfl | hc | hc
    · exact printable_separator first c hc
    · exact Json.printable_quoteAscii k.plain c hc
    · decide
    · decide
    · exact h.1 c hc
    · exact ih h.2 false c hc

theorem printable_ascii {depth : Nat} {d : Datum} (h : Json.Fits depth d) :
    ∀ c ∈ Json.ascii d, 32 ≤ c.toNat ∧ c.toNat < 127 := by
  induction h with
  | null => exact printable_word isWord_null
  | bool depth b => exact printable_word (isWord_bool b)
  | @int depth n => exact printable_word (isWord_toString n)
  | float depth x => exact printable_word (isWord_dataText x)
  | str depth t => exact Json.printable_quoteAscii t
  | list _ ih =>
    intro c hc
    rw [Json.ascii, List.mem_cons, List.mem_append, List.mem_singleton] at hc
    rcases hc with rfl | hc | rfl
    · decide
    · exact printable_items ih true c hc
    · decide
  | dict _ _ _ ih =>
    intro c hc
    rw [Json.ascii, List.mem_cons, List.mem_append, List.mem_singleton] at hc
    rcases hc with rfl | hc | rfl
    · decide
    · exact printable_entries ih true c hc
    · decide

theorem isAllowed_of_printable {c : Char} (h : 32 ≤ c.toNat ∧ c.toNat < 127) : isAllowed c = true := by
  have hrange : (decide (0x20 ≤ c.toNat) && decide (c.toNat ≤ 0x7E)) = true := by
    simp
    omega
  simp [isAllowed, hrange]

theorem ofText_asciiText {depth : Nat} {entries : List (Datum × Datum)}
    (h : Json.Fits depth (.dict entries)) :
    Token.ofText (Json.asciiText (.dict entries)) = (tokensOf (.dict entries), none) := by
  obtain ⟨cs, hcs⟩ : ∃ cs, cs = Json.ascii (.dict entries) := ⟨_, rfl⟩
  have hallowed : cs.all isAllowed = true :=
    List.all_eq_true.mpr fun c hc => isAllowed_of_printable (printable_ascii h c (hcs ▸ hc))
  obtain ⟨s, hs⟩ : ∃ s, s = Lexer.start cs := ⟨_, rfl⟩
  have hmark : isByteOrderMark s.cursor.peek = false := by
    have hpeek : s.cursor.peek = '\x7b' := by
      rw [hs, hcs, Json.ascii]
      rfl
    rw [hpeek]
    decide
  have hdone : s.done = false := by rw [hs]; rfl
  have hcalm : s.Calm := by
    rw [hs]
    exact ⟨rfl, rfl, nofun, Nat.zero_add _⟩
  have hrest : s.cursor.rest = List.replicate 0 ' ' ++ (Json.ascii (.dict entries) ++ []) := by
    rw [hs, List.append_nil, ← hcs]
    rfl
  obtain ⟨s', hreads, hend⟩ := match h with
    | .dict hkeys _ hvalues => Lexer.reads_object (fun e he => Lexer.length_key (hkeys e he))
        (fun e he => Lexer.isRead_of_fits (hvalues e he)) hdone hcalm hrest
  have harrive : s'.arrive.cursor.rest = [] := Lexer.arrive_rest (n := 0) hend (by simp)
  have hflow : s'.arrive.flow = 0 := hreads.flow.trans (by rw [hs]; rfl)
  have hpending : s.pending = [] := by rw [hs]; rfl
  have hyields : Lexer.Yields s (tokensOf (.dict entries)) := by
    refine hreads.yields _ (.step hreads.done hreads.calm (.finish harrive hflow) ?_)
    have hlast : (s'.arrive.step .finish).pending = tokensOf (.dict entries) := by
      rw [show (s'.arrive.step .finish).pending = s'.pending from rfl, hreads.pending, hpending]
      rfl
    exact hlast ▸ .done rfl rfl
  have hlength : (tokensOf (.dict entries)).length < 6 * cs.length + 6 := by
    have := hyields.length_le
    rw [hpending, hs, show (Lexer.start cs).cursor.rest = cs from rfl, List.length_nil] at this
    omega
  have hbehind : s.KeysBehind s.taken := by
    rw [hs]
    exact nofun
  rw [Token.ofText, Json.asciiText, String.toList_ofList, ← hcs]
  simp only [hallowed, Bool.not_true, Bool.false_eq_true, if_false]
  rw [← hs, hmark, if_neg Bool.false_ne_true, hyields.handOut hbehind hlength, List.reverse_nil,
    List.nil_append]

end Markup

end AssignmentSearch
