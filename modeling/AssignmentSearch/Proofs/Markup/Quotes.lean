import AssignmentSearch.Datum.Json
import AssignmentSearch.Markup.Scalar
import Mathlib

/-!
# Texts between quotes

A JSON string in ASCII characters is read back as the text that it writes.
-/

namespace AssignmentSearch

/-! ## Hexadecimal digits -/

theorem hexNumber?_concat (cs : List Char) (c : Char) :
    hexNumber? (cs ++ [c]) = (hexNumber? cs).bind fun n => (hexValue? c).map (16 * n + ·) := by
  rw [hexNumber?, List.foldl_append, ← hexNumber?]
  cases hexNumber? cs <;> cases hc : hexValue? c <;> simp [hc]

theorem hexValue?_digitChar {d : Nat} (h : d < 16) : hexValue? (Nat.digitChar d) = some d := by
  interval_cases d <;> rfl

theorem hexNumber?_toDigits (n : Nat) : hexNumber? (Nat.toDigits 16 n) = some n := by
  induction n using Nat.strongRecOn with
  | ind n ih =>
    rcases Nat.lt_or_ge n 16 with hlt | hge
    · rw [Nat.toDigits_of_lt_base hlt, ← List.nil_append [_], hexNumber?_concat,
        hexValue?_digitChar hlt]
      simp [hexNumber?]
    · rw [Nat.toDigits_of_base_le (by decide) hge, hexNumber?_concat, ih (n / 16) (by omega),
        hexValue?_digitChar (Nat.mod_lt n (by decide))]
      simp
      omega

theorem hexNumber?_hexDigits (count n : Nat) : hexNumber? (hexDigits count n) = some n := by
  rw [hexDigits]
  induction count - (Nat.toDigits 16 n).length with
  | zero => exact hexNumber?_toDigits n
  | succ k ih => exact ih

theorem length_hexDigits {n : Nat} (h : n < 0x10000) : (hexDigits 4 n).length = 4 := by
  have hle := (Nat.length_toDigits_le_iff (n := n) (b := 16) (k := 4) (by decide) (by decide)).mpr h
  rw [hexDigits, List.length_append, List.length_replicate]
  omega

theorem printable_toDigits (n : Nat) : ∀ c ∈ Nat.toDigits 16 n, 32 ≤ c.toNat ∧ c.toNat < 127 := by
  have hdigit {d : Nat} (hd : d < 16) : 32 ≤ (Nat.digitChar d).toNat ∧ (Nat.digitChar d).toNat < 127 := by
    interval_cases d <;> decide
  induction n using Nat.strongRecOn with
  | ind n ih =>
    rcases Nat.lt_or_ge n 16 with hlt | hge
    · rw [Nat.toDigits_of_lt_base hlt, List.forall_mem_singleton]
      exact hdigit hlt
    · rw [Nat.toDigits_of_base_le (by decide) hge, List.forall_mem_append, List.forall_mem_singleton]
      exact ⟨ih (n / 16) (by omega), hdigit (Nat.mod_lt n (by decide))⟩

theorem printable_hexDigits (count n : Nat) :
    ∀ c ∈ hexDigits count n, 32 ≤ c.toNat ∧ c.toNat < 127 := by
  rw [hexDigits, List.forall_mem_append]
  refine ⟨fun c hc => ?_, printable_toDigits n⟩
  rw [List.eq_of_mem_replicate hc]
  decide

/-! ## Strings in ASCII characters -/

namespace Json

/-- One character inside a JSON string in ASCII characters; one above the first 65536 code points has
two escapes. -/
def escapeAscii (c : Char) : List Char :=
  if c.toNat < 127 then escape c
  else if c.toNat < 0x10000 then '\x5c' :: 'u' :: hexDigits 4 c.toNat
  else
    '\x5c' :: 'u' :: (hexDigits 4 (0xD800 + (c.toNat - 0x10000) / 0x400) ++
      '\x5c' :: 'u' :: hexDigits 4 (0xDC00 + (c.toNat - 0x10000) % 0x400))

def quoteAscii (s : String) : List Char := '\x22' :: (s.toList.flatMap escapeAscii ++ ['\x22'])

theorem printable_escapeAscii (a : Char) : ∀ c ∈ escapeAscii a, 32 ≤ c.toNat ∧ c.toNat < 127 := by
  rw [escapeAscii]
  split_ifs with hascii hsmall
  · rw [escape]
    split_ifs with hquote hback hfeed hreturn htab hbell hform hcontrol
    · simp
    · simp
    · simp
    · simp
    · simp
    · simp
    · simp
    · simpa using printable_hexDigits 4 a.toNat
    · rw [List.forall_mem_singleton]
      omega
  · simpa using printable_hexDigits 4 a.toNat
  · have hhigh := printable_hexDigits 4 (0xD800 + (a.toNat - 0x10000) / 0x400)
    have hlow := printable_hexDigits 4 (0xDC00 + (a.toNat - 0x10000) % 0x400)
    simp only [List.forall_mem_cons, List.forall_mem_append]
    exact ⟨by decide, by decide, hhigh, by decide, by decide, hlow⟩

theorem printable_quoteAscii (s : String) : ∀ c ∈ quoteAscii s, 32 ≤ c.toNat ∧ c.toNat < 127 := by
  rw [quoteAscii, List.forall_mem_cons, List.forall_mem_append, List.forall_mem_singleton]
  refine ⟨by decide, fun c hc => ?_, by decide⟩
  obtain ⟨a, -, ha⟩ := List.mem_flatMap.mp hc
  exact printable_escapeAscii a c ha

end Json

/-! ## Cursors -/

namespace Markup

namespace Cursor

theorem forward_add (m n : Nat) (c : Cursor) : c.forward (m + n) = (c.forward m).forward n := by
  induction m generalizing c with
  | zero => rw [Nat.zero_add]; rfl
  | succ m ih => rw [Nat.add_right_comm]; exact ih c.next

theorem peek_of_rest {c : Cursor} {a : Char} {rest : List Char} (h : c.rest = a :: rest) :
    c.peek = a := by
  rw [peek, h]
  rfl

end Cursor

section

variable {σ β γ : Type}

theorem bind_apply (x : StateT σ (Except Trouble) β) (f : β → StateT σ (Except Trouble) γ) (s : σ) :
    (x >>= f) s = (x s).bind fun r => f r.1 r.2 := rfl

theorem pure_apply (a : β) (s : σ) : (pure a : StateT σ (Except Trouble) β) s = .ok (a, s) := rfl

theorem get_apply (s : σ) : (get : StateT σ (Except Trouble) σ) s = .ok (s, s) := rfl

theorem set_apply (s s' : σ) : (set s' : StateT σ (Except Trouble) PUnit) s = .ok ((), s') := rfl

theorem modify_apply (f : σ → σ) (s : σ) :
    (modify f : StateT σ (Except Trouble) PUnit) s = .ok ((), f s) := rfl

theorem map_apply {x : StateT σ (Except Trouble) β} {s s' : σ} {a : β} (f : β → γ)
    (h : x s = .ok (a, s')) : (f <$> x) s = .ok (f a, s') := by
  rw [map_eq_pure_bind, bind_apply, h]
  rfl

theorem ok_bind (a : β) (f : β → Except Trouble γ) : (Except.ok a).bind f = f a := rfl

end

namespace Scan

theorem peek_apply (c : Cursor) : peek c = .ok (c.peek, c) := rfl

theorem skip_apply (n : Nat) (c : Cursor) : skip n c = .ok ((), c.forward n) := rfl

theorem take_apply (n : Nat) (c : Cursor) : take n c = .ok (c.rest.take n, c.forward n) := rfl

theorem run_apply (p : Char → Bool) (c : Cursor) :
    run p c = .ok (c.rest.takeWhile p, c.forward (c.rest.takeWhile p).length) := by
  change take _ c = _
  rw [take_apply, ← List.prefix_iff_eq_take.mp (List.takeWhile_prefix p)]

end Scan

namespace Quote

open Scan

theorem body_ordinary {q : Char} {fuel : Nat} {acc : List Char} {c : Cursor} {a : Char} {rest : List Char}
    (hrest : c.rest = a :: rest) (ha : isOrdinary a = true) :
    body q (fuel + 1) acc c = body q (fuel + 1) (acc ++ [a]) c.next := by
  have htail : c.next.rest = rest := by rw [Cursor.rest_next, hrest]; rfl
  have hforward (n : Nat) : c.forward (n + 1) = c.next.forward n := rfl
  rw [body, body, bind_apply, bind_apply, run_apply, run_apply, hrest, htail,
    List.takeWhile_cons_of_pos ha, List.length_cons, hforward]
  simp [Except.bind]

section

variable {fuel : Nat} {acc : List Char} {c : Cursor} {rest : List Char}

theorem body_close (hrest : c.rest = '\x22' :: rest) :
    body '\x22' (fuel + 1) acc c = .ok (acc, c.next) := by
  rw [body, bind_apply, run_apply, hrest, List.takeWhile_cons_of_neg (by decide)]
  simp only [List.length_nil, Cursor.forward, Except.bind, bind_apply, get_apply,
    Cursor.peek_of_rest hrest]
  simp
  rfl

theorem body_apostrophe (hrest : c.rest = '\x27' :: rest) :
    body '\x22' (fuel + 1) acc c = body '\x22' fuel (acc ++ ['\x27']) c.next := by
  rw [body, bind_apply, run_apply, hrest, List.takeWhile_cons_of_neg (by decide)]
  simp only [List.length_nil, Cursor.forward, Except.bind, bind_apply, get_apply,
    Cursor.peek_of_rest hrest]
  simp
  rfl

theorem body_escape (hrest : c.rest = '\x5c' :: rest) :
    body '\x22' (fuel + 1) acc c =
      (escape c.next).bind fun r => body '\x22' fuel (acc ++ r.1) r.2 := by
  rw [body, bind_apply, run_apply, hrest, List.takeWhile_cons_of_neg (by decide)]
  simp only [List.length_nil, Cursor.forward, Except.bind, bind_apply, get_apply,
    Cursor.peek_of_rest hrest]
  simp
  rfl

theorem gap_spaces {n : Nat} {a : Char} (hrest : c.rest = List.replicate n ' ' ++ a :: rest)
    (ha : isBlankOrEnd a = false) : gap c = .ok (List.replicate n ' ', c.forward n) := by
  simp only [isBlankOrEnd, isSpaceOrEnd, isLineEnd, Bool.or_eq_false_iff, decide_eq_false_iff_not] at ha
  obtain ⟨htab, hspace, hbreak, hend⟩ := ha
  have htake : c.rest.takeWhile (fun c => c = ' ' || c = '\t') = List.replicate n ' ' := by
    rw [hrest, List.takeWhile_append_of_pos (by simp)]
    simp [hspace, htab]
  have hpeek : (c.forward n).peek = a := by
    have hafter : (c.forward n).rest = a :: rest := by
      rw [Cursor.rest_forward, hrest]
      simp
    exact Cursor.peek_of_rest hafter
  rw [gap, bind_apply, run_apply, htake, List.length_replicate]
  simp only [Except.bind, bind_apply, get_apply, hpeek, hend, hbreak]
  rfl

theorem body_spaces {n : Nat} {a : Char} (hrest : c.rest = List.replicate (n + 1) ' ' ++ a :: rest)
    (ha : isBlankOrEnd a = false) :
    body '\x22' (fuel + 1) acc c =
      body '\x22' fuel (acc ++ List.replicate (n + 1) ' ') (c.forward (n + 1)) := by
  have hgap := gap_spaces hrest ha
  rw [List.replicate_succ, List.cons_append] at hrest
  rw [body, bind_apply, run_apply, hrest, List.takeWhile_cons_of_neg (by decide)]
  simp only [List.length_nil, Cursor.forward, Except.bind, bind_apply, get_apply,
    Cursor.peek_of_rest hrest]
  simp [bind_apply, hgap, Except.bind, Cursor.forward]

/-! ## Escapes -/

theorem escape_short {l : Char} {code : Nat} (hrest : c.rest = l :: rest)
    (hl : escapes.lookup l = some code) : escape c = .ok ([Char.ofNat code], c.next) := by
  rw [escape, bind_apply, get_apply]
  simp only [Except.bind, Cursor.peek_of_rest hrest, hl]
  rfl

theorem take_hexDigits {n : Nat} (hn : n < 0x10000) (cs : List Char) :
    (hexDigits 4 n ++ cs).take 4 = hexDigits 4 n := List.take_left' (length_hexDigits hn)

theorem escape_code {n : Nat} (hn : n < 0x10000) (hrest : c.rest = 'u' :: (hexDigits 4 n ++ rest)) :
    escape c = (escaped n (c.forward 5)).bind fun r => .ok ([r.1], r.2) := by
  have htake : (c.forward 1).rest.take 4 = hexDigits 4 n := by
    rw [Cursor.rest_forward, hrest]
    exact take_hexDigits hn rest
  have hnone : escapes.lookup 'u' = none := by decide
  have hsome : codeLength? 'u' = some 4 := by decide
  rw [escape, bind_apply, get_apply]
  simp only [Except.bind, Cursor.peek_of_rest hrest, hnone, hsome]
  rw [bind_apply, skip_apply]
  simp only [Except.bind, bind_apply, take_apply, htake, length_hexDigits hn, if_true,
    hexNumber?_hexDigits, ← Cursor.forward_add]
  rfl

theorem charOfCode_apply {n : Nat} (hvalid : n.isValidChar) :
    charOfCode n c = .ok (Char.ofNat n, c) := by
  have hsmall : n ≤ 0x10FFFF := by
    rcases hvalid with h | h <;> omega
  rw [charOfCode, if_neg (by omega), if_neg (by omega), Json.charOf, if_pos hvalid]
  rfl

theorem escaped_whole {n : Nat} (hn : n < 0x10000) (hvalid : n.isValidChar) :
    escaped n c = .ok (Char.ofNat n, c) := by
  have hhalf : ¬ (0xD800 ≤ n ∧ n < 0xDC00) := by
    rcases hvalid with h | h <;> omega
  rw [escaped, bind_apply, get_apply]
  simp only [Except.bind, if_neg hhalf]
  cases lowHalf? c.rest <;> exact charOfCode_apply hvalid

theorem lowHalf?_escape {low : Nat} (hlow : low < 0x400) :
    lowHalf? ('\x5c' :: 'u' :: (hexDigits 4 (0xDC00 + low) ++ rest)) = some (0xDC00 + low, 6) := by
  have hsmall : 0xDC00 + low < 0x10000 := by omega
  have hrange : 0xDC00 + low < 0xE000 := by omega
  simp [lowHalf?, codeLength?, take_hexDigits hsmall, length_hexDigits hsmall, hexNumber?_hexDigits,
    hrange]

theorem escaped_halves {high low : Nat} (hhigh : high < 0x400) (hlow : low < 0x400)
    (hrest : c.rest = '\x5c' :: 'u' :: (hexDigits 4 (0xDC00 + low) ++ rest)) :
    escaped (0xD800 + high) c = .ok (Char.ofNat (0x10000 + high * 0x400 + low), c.forward 6) := by
  have hvalid : (0x10000 + high * 0x400 + low).isValidChar := .inr ⟨by omega, by omega⟩
  rw [escaped, bind_apply, get_apply]
  simp only [Except.bind, hrest, lowHalf?_escape hlow, Nat.add_sub_cancel_left]
  rw [if_pos ⟨by omega, by omega⟩, bind_apply, skip_apply]
  simp only [Except.bind, pure_apply, Json.charOf, hvalid, if_true]

/-- What the writer makes of a character is an escape, or the character itself. -/
theorem escape_escapeAscii {a : Char} {tail : List Char} (ha : Json.escapeAscii a = '\x5c' :: tail)
    (hrest : c.rest = tail ++ rest) : escape c = .ok ([a], c.forward tail.length) := by
  have hvalid : a.toNat.isValidChar := a.valid
  have hshort {l : Char} (code : Nat) (htail : ['\x5c', l] = '\x5c' :: tail)
      (hl : escapes.lookup l = some code) (hcode : a.toNat = code) :
      escape c = .ok ([a], c.forward tail.length) := by
    cases htail
    rw [escape_short hrest hl, ← hcode, Char.ofNat_toNat]
    rfl
  have hcode {n : Nat} (hn : n < 0x10000) (htail : '\x5c' :: 'u' :: hexDigits 4 n = '\x5c' :: tail)
      (heq : a.toNat = n) : escape c = .ok ([a], c.forward tail.length) := by
    cases htail
    rw [escape_code hn hrest, escaped_whole hn (heq ▸ hvalid), ← heq, Char.ofNat_toNat, heq,
      List.length_cons, length_hexDigits hn]
    rfl
  rw [Json.escapeAscii] at ha
  split_ifs at ha with hascii hsmall
  · rw [Json.escape] at ha
    split_ifs at ha with hquote hback hfeed hreturn htab hbell hform hcontrol
    · exact hshort 34 ha (by decide) (by rw [hquote]; rfl)
    · exact hshort 92 ha (by decide) (by rw [hback]; rfl)
    · exact hshort 10 ha (by decide) (by rw [hfeed]; rfl)
    · exact hshort 13 ha (by decide) (by rw [hreturn]; rfl)
    · exact hshort 9 ha (by decide) (by rw [htab]; rfl)
    · exact hshort 8 ha (by decide) hbell
    · exact hshort 12 ha (by decide) hform
    · exact hcode (by omega) ha rfl
    · cases ha
      contradiction
  · exact hcode hsmall ha rfl
  · have hlt : a.toNat < 0x110000 := by
      rcases hvalid with h | h <;> omega
    obtain ⟨k, hk⟩ : ∃ k, k = a.toNat - 0x10000 := ⟨_, rfl⟩
    rw [← hk] at ha
    have hhigh : k / 0x400 < 0x400 := by omega
    have hlow : k % 0x400 < 0x400 := Nat.mod_lt k (by decide)
    cases ha
    have hlength := length_hexDigits (n := 0xD800 + k / 0x400) (by omega)
    have hlength' := length_hexDigits (n := 0xDC00 + k % 0x400) (by omega)
    have hafter : (c.forward 5).rest = '\x5c' :: 'u' :: (hexDigits 4 (0xDC00 + k % 0x400) ++ rest) := by
      rw [Cursor.rest_forward, hrest, List.cons_append, List.append_assoc, List.drop_succ_cons,
        List.drop_left' hlength]
      rfl
    rw [escape_code (n := 0xD800 + k / 0x400) (by omega) (by simpa using hrest),
      escaped_halves hhigh hlow hafter, ← Cursor.forward_add]
    have heq : 0x10000 + k / 0x400 * 0x400 + k % 0x400 = a.toNat := by omega
    rw [heq, Char.ofNat_toNat]
    simp [Except.bind, hlength, hlength']

end

/-! ## Strings -/

theorem escapeAscii_cases (a : Char) :
    (Json.escapeAscii a = [a] ∧ 32 ≤ a.toNat ∧ a.toNat < 127 ∧ a ≠ '\x22' ∧ a ≠ '\x5c') ∨
      ∃ tail, Json.escapeAscii a = '\x5c' :: tail := by
  rw [Json.escapeAscii]
  split_ifs with hascii hsmall
  · rw [Json.escape]
    split_ifs with hquote hback hfeed hreturn htab hbell hform hcontrol
    · exact .inr ⟨_, rfl⟩
    · exact .inr ⟨_, rfl⟩
    · exact .inr ⟨_, rfl⟩
    · exact .inr ⟨_, rfl⟩
    · exact .inr ⟨_, rfl⟩
    · exact .inr ⟨_, rfl⟩
    · exact .inr ⟨_, rfl⟩
    · exact .inr ⟨_, rfl⟩
    · exact .inl ⟨rfl, by omega, hascii, hquote, hback⟩
  · exact .inr ⟨_, rfl⟩
  · exact .inr ⟨_, rfl⟩

theorem isBlankOrEnd_of_visible {a : Char} (hlow : 32 < a.toNat) (hhigh : a.toNat < 127) :
    isBlankOrEnd a = false := by
  have hne {b : Char} (hb : b.toNat ≤ 32) : a ≠ b := by
    rintro rfl
    omega
  have h85 : a.toNat ≠ 0x85 := by omega
  have h2028 : a.toNat ≠ 0x2028 := by omega
  have h2029 : a.toNat ≠ 0x2029 := by omega
  simp [isBlankOrEnd, isSpaceOrEnd, isLineEnd, isBreak, atEnd, h85, h2028, h2029,
    hne (b := '\t') (by decide), hne (b := ' ') (by decide), hne (b := '\n') (by decide),
    hne (b := '\r') (by decide), hne (b := '\x00') (by decide)]

theorem begins_visible {cs : List Char} (h : cs.head? ≠ some ' ') (rest : List Char) :
    ∃ a tail, cs.flatMap Json.escapeAscii ++ '\x22' :: rest = a :: tail ∧ isBlankOrEnd a = false := by
  cases cs with
  | nil => exact ⟨_, _, rfl, by decide⟩
  | cons a cs =>
    rw [List.flatMap_cons]
    rcases escapeAscii_cases a with ⟨ha, hlow, hhigh, -, -⟩ | ⟨tail, ha⟩
    · rw [ha]
      have hspace : a ≠ ' ' := by simpa using h
      have hcode : a.toNat ≠ 32 := fun heq => hspace (Char.toNat_inj.mp heq)
      exact ⟨a, _, rfl, isBlankOrEnd_of_visible (by omega) hhigh⟩
    · rw [ha]
      exact ⟨_, _, rfl, by decide⟩

theorem exists_spaces (cs : List Char) :
    ∃ n cs', cs = List.replicate n ' ' ++ cs' ∧ cs'.head? ≠ some ' ' := by
  induction cs with
  | nil => exact ⟨0, [], rfl, nofun⟩
  | cons a cs ih =>
    by_cases ha : a = ' '
    · obtain ⟨n, cs', rfl, hhead⟩ := ih
      exact ⟨n + 1, cs', by rw [ha]; rfl, hhead⟩
    · exact ⟨0, a :: cs, rfl, by simpa using ha⟩

theorem flatMap_spaces (n : Nat) (cs : List Char) :
    (List.replicate n ' ' ++ cs).flatMap Json.escapeAscii =
      List.replicate n ' ' ++ cs.flatMap Json.escapeAscii := by
  have hspace : Json.escapeAscii ' ' = [' '] := rfl
  rw [List.flatMap_append, List.flatMap_replicate, hspace, List.flatten_replicate_singleton]

theorem body_flatMap {cs rest : List Char} {fuel : Nat} {acc : List Char} {c : Cursor}
    (hrest : c.rest = cs.flatMap Json.escapeAscii ++ '\x22' :: rest)
    (hfuel : (cs.flatMap Json.escapeAscii).length < fuel) :
    body '\x22' fuel acc c =
      .ok (acc ++ cs, c.forward ((cs.flatMap Json.escapeAscii).length + 1)) := by
  induction hn : cs.length using Nat.strongRecOn generalizing cs fuel acc c with
  | ind n ih =>
    subst hn
    obtain ⟨fuel, rfl⟩ : ∃ k, fuel = k + 1 := ⟨fuel - 1, by omega⟩
    have hforward (n : Nat) : c.next.forward n = c.forward (n + 1) := rfl
    cases cs with
    | nil =>
      rw [body_close hrest, List.append_nil]
      rfl
    | cons a cs =>
      -- a character that is read on its own
      have hsingle (cost : Nat) (ha : Json.escapeAscii a = [a]) (hcost : cost ≤ 1)
          (hstep : body '\x22' (fuel + 1) acc c = body '\x22' (fuel + 1 - cost) (acc ++ [a]) c.next) :
          body '\x22' (fuel + 1) acc c = .ok (acc ++ a :: cs,
            c.forward (((a :: cs).flatMap Json.escapeAscii).length + 1)) := by
        rw [List.flatMap_cons, ha] at hrest hfuel ⊢
        rw [List.singleton_append] at hrest hfuel ⊢
        rw [List.length_cons] at hfuel
        have hnext : c.next.rest = cs.flatMap Json.escapeAscii ++ '\x22' :: rest := by
          rw [Cursor.rest_next, hrest]
          rfl
        rw [hstep, ih _ (by simp) hnext (by omega) rfl, List.append_assoc, hforward]
        rfl
      rcases escapeAscii_cases a with ⟨ha, hlow, hhigh, hquote, hback⟩ | ⟨tail, ha⟩
      · by_cases happ : a = '\x27'
        · refine hsingle 1 ha le_rfl ?_
          subst happ
          exact body_apostrophe hrest
        · by_cases hspace : a = ' '
          · -- the run of spaces that begins here
            subst hspace
            obtain ⟨n, cs', rfl, hhead⟩ := exists_spaces cs
            obtain ⟨b, tail, htail, hb⟩ := begins_visible hhead rest
            rw [← List.cons_append, ← List.replicate_succ] at hrest hfuel ⊢
            rw [flatMap_spaces, List.append_assoc] at hrest
            rw [flatMap_spaces, List.length_append, List.length_replicate] at hfuel ⊢
            have hafter : (c.forward (n + 1)).rest = cs'.flatMap Json.escapeAscii ++ '\x22' :: rest := by
              rw [Cursor.rest_forward, hrest, List.drop_left' List.length_replicate]
            rw [htail] at hrest
            rw [body_spaces hrest hb, ih _ (by simp) hafter (by omega) rfl, ← Cursor.forward_add,
              List.append_assoc, ← Nat.add_assoc]
          · rw [List.flatMap_cons, ha] at hrest
            refine hsingle 0 ha (by decide) (body_ordinary hrest ?_)
            have hcode : a.toNat ≠ 32 := fun heq => hspace (Char.toNat_inj.mp heq)
            simp [isOrdinary, isBlankOrEnd_of_visible (a := a) (by omega) hhigh, happ, hquote, hback]
      · rw [List.flatMap_cons, ha] at hrest hfuel ⊢
        rw [List.append_assoc] at hrest
        have hnext : c.next.rest = tail ++ (cs.flatMap Json.escapeAscii ++ '\x22' :: rest) := by
          rw [Cursor.rest_next, hrest, List.cons_append, List.tail_cons]
        have hafter : (c.next.forward tail.length).rest =
            cs.flatMap Json.escapeAscii ++ '\x22' :: rest := by
          rw [Cursor.rest_forward, hnext, List.drop_left]
        rw [List.length_append, List.length_cons] at hfuel ⊢
        rw [body_escape hrest, escape_escapeAscii ha hnext]
        simp only [Except.bind]
        rw [ih _ (by simp) hafter (by omega) rfl, ← Cursor.forward_add, hforward, List.append_assoc,
          List.singleton_append]
        congr 3
        omega

/-- A string that is written out is read back. -/
theorem scan_quoteAscii {s : String} {rest : List Char} {c : Cursor}
    (hrest : c.rest = Json.quoteAscii s ++ rest) (hleft : c.rest.length ≤ c.left) :
    scan c = .ok (s.toList, c.forward (Json.quoteAscii s).length) := by
  rw [Json.quoteAscii, List.cons_append, List.append_assoc] at hrest
  have hnext : (c.forward 1).rest = s.toList.flatMap Json.escapeAscii ++ '\x22' :: rest := by
    rw [Cursor.rest_forward, hrest]
    rfl
  rw [hrest, List.length_cons, List.length_append] at hleft
  rw [scan, bind_apply, get_apply]
  simp only [Except.bind, bind_apply, skip_apply, Cursor.peek_of_rest hrest]
  rw [body_flatMap hnext (by omega), ← Cursor.forward_add]
  simp only [List.nil_append, Json.quoteAscii, List.length_cons, List.length_append, List.length_nil]
  congr 3
  omega

end Quote

end Markup

end AssignmentSearch
