import AssignmentSearch.Storage.Csv
import Mathlib.Data.List.Basic

/-!
# Reading rows of comma-separated fields

A reader goes through a text once and keeps the rows read so far, the fields of the row at hand and
the characters of the field at hand. Whatever texts are written as a row, it reads them back.
-/

namespace AssignmentSearch
namespace Csv

inductive Mode where
  | rowStart
  /-- A row has ended with a carriage return, which a line feed may complete. -/
  | afterReturn
  | fieldStart
  | plain
  | quoted
  /-- A quote between quotes: the first of two, or the end of them. -/
  | afterQuote
  deriving DecidableEq, Repr

/-- Rows, fields and characters read so far, the latest first. -/
structure Reader where
  rows : List (List String)
  fields : List String
  chars : List Char
  mode : Mode
  deriving DecidableEq, Repr

namespace Reader

def start : Reader := ⟨[], [], [], .rowStart⟩

def isBreak (c : Char) : Bool := c = '\r' || c = '\n'

def push (r : Reader) (c : Char) (mode : Mode) : Reader := { r with chars := c :: r.chars, mode }

def endField (r : Reader) (mode : Mode) : Reader :=
  ⟨r.rows, String.ofList r.chars.reverse :: r.fields, [], mode⟩

def endRow (r : Reader) (c : Char) : Reader :=
  ⟨r.fields.reverse :: r.rows, [], [], if c = '\r' then .afterReturn else .rowStart⟩

/-- A character outside quotes that ends the field at hand, or else is `other`. -/
def orEnd (r : Reader) (c : Char) (other : Reader) : Reader :=
  if isBreak c then (r.endField .plain).endRow c
  else if c = ',' then r.endField .fieldStart
  else other

def enter (r : Reader) (c : Char) : Reader :=
  r.orEnd c (if c = '\x22' then { r with mode := .quoted } else r.push c .plain)

def feed (r : Reader) (c : Char) : Reader :=
  match r.mode with
  | .rowStart => if isBreak c then r.endRow c else r.enter c
  | .afterReturn =>
    if c = '\n' then { r with mode := .rowStart } else if isBreak c then r.endRow c else r.enter c
  | .fieldStart => r.enter c
  | .plain => r.orEnd c (r.push c .plain)
  | .quoted => if c = '\x22' then { r with mode := .afterQuote } else r.push c .quoted
  | .afterQuote => if c = '\x22' then r.push c .quoted else r.orEnd c (r.push c .plain)

/-- All rows; the last one may lack its line break. -/
def finish (r : Reader) : List (List String) :=
  match r.mode with
  | .rowStart | .afterReturn => r.rows.reverse
  | _ => ((r.endField .plain).endRow '\n').rows.reverse

end Reader

def read (text : String) : List (List String) := (text.toList.foldl Reader.feed .start).finish

namespace Reader

variable {rows : List (List String)} {fields : List String}

theorem foldl_plain {cs : List Char} (h : cs.any needsQuotes = false) (chars : List Char) :
    cs.foldl feed ⟨rows, fields, chars, .plain⟩ = ⟨rows, fields, cs.reverse ++ chars, .plain⟩ := by
  induction cs generalizing chars with
  | nil => rfl
  | cons c cs ih =>
    simp only [List.any_cons, Bool.or_eq_false_iff] at h
    obtain ⟨hc, hcs⟩ := h
    simp only [needsQuotes, Bool.or_eq_false_iff, decide_eq_false_iff_not] at hc
    have hfeed : feed ⟨rows, fields, chars, .plain⟩ c = ⟨rows, fields, c :: chars, .plain⟩ := by
      simp [feed, orEnd, isBreak, push, hc]
    rw [List.foldl_cons, hfeed, ih hcs, List.reverse_cons, List.append_assoc]
    rfl

theorem foldl_quoted (cs chars : List Char) :
    (cs.flatMap quotedChar).foldl feed ⟨rows, fields, chars, .quoted⟩ =
      ⟨rows, fields, cs.reverse ++ chars, .quoted⟩ := by
  induction cs generalizing chars with
  | nil => rfl
  | cons c cs ih =>
    have hfeed : (quotedChar c).foldl feed ⟨rows, fields, chars, .quoted⟩ =
        ⟨rows, fields, c :: chars, .quoted⟩ := by
      by_cases hc : c = '\x22' <;> simp [quotedChar, feed, push, hc]
    rw [List.flatMap_cons, List.foldl_append, hfeed, ih, List.reverse_cons, List.append_assoc]
    rfl

theorem foldl_field (rows : List (List String)) (fields : List String) (s : String) {mode : Mode}
    (hmode : mode = .rowStart ∨ mode = .fieldStart) :
    ∃ m, (field s).toList.foldl feed ⟨rows, fields, [], mode⟩ =
        ⟨rows, fields, s.toList.reverse, m⟩ ∧
      (m = .plain ∨ m = .afterQuote ∨ s = "" ∧ m = mode) := by
  by_cases hquotes : s.toList.any needsQuotes = true
  · refine ⟨.afterQuote, ?_, Or.inr (Or.inl rfl)⟩
    have hopen : feed ⟨rows, fields, [], mode⟩ '\x22' = ⟨rows, fields, [], .quoted⟩ := by
      rcases hmode with rfl | rfl <;> rfl
    rw [field, if_pos hquotes, String.toList_ofList, List.cons_append, List.foldl_cons, hopen,
      List.foldl_append, foldl_quoted, List.append_nil]
    rfl
  · rw [field, if_neg hquotes]
    cases hs : s.toList with
    | nil => exact ⟨mode, rfl, Or.inr (Or.inr ⟨String.toList_eq_nil_iff.mp hs, rfl⟩)⟩
    | cons c cs =>
      rw [hs, Bool.not_eq_true, List.any_cons, Bool.or_eq_false_iff] at hquotes
      obtain ⟨hc, hcs⟩ := hquotes
      simp only [needsQuotes, Bool.or_eq_false_iff, decide_eq_false_iff_not] at hc
      have hfirst : feed ⟨rows, fields, [], mode⟩ c = ⟨rows, fields, [c], .plain⟩ := by
        rcases hmode with rfl | rfl <;> simp [feed, enter, orEnd, isBreak, push, hc]
      refine ⟨.plain, ?_, Or.inl rfl⟩
      rw [List.foldl_cons, hfirst, foldl_plain hcs, List.reverse_cons]

/-- The last field of a row must not look like a row without fields. -/
theorem foldl_fields (s : String) (rest : List String) {mode : Mode}
    (hmode : mode = .rowStart ∧ s :: rest ≠ [""] ∨ mode = .fieldStart) :
    ((",".intercalate ((s :: rest).map field)).toList ++ ['\r']).foldl feed
        ⟨rows, fields, [], mode⟩ =
      ⟨(fields.reverse ++ s :: rest) :: rows, [], [], .afterReturn⟩ := by
  have hstart : mode = .rowStart ∨ mode = .fieldStart := hmode.imp And.left id
  induction rest generalizing s fields mode with
  | nil =>
    obtain ⟨m, hfield, hm⟩ := foldl_field rows fields s hstart
    rw [List.map_singleton, String.intercalate_singleton, List.foldl_append, hfield]
    rcases hm with rfl | rfl | ⟨rfl, rfl⟩
    · simp [feed, orEnd, isBreak, endField, endRow]
    · simp [feed, orEnd, isBreak, endField, endRow]
    · rcases hmode with ⟨-, hne⟩ | rfl
      · exact absurd rfl hne
      · simp [feed, enter, orEnd, isBreak, endField, endRow]
  | cons t rest ih =>
    obtain ⟨m, hfield, hm⟩ := foldl_field rows fields s hstart
    have hcomma : feed ⟨rows, fields, s.toList.reverse, m⟩ ',' =
        ⟨rows, s :: fields, [], .fieldStart⟩ := by
      rcases hm with rfl | rfl | ⟨rfl, rfl⟩
      · simp [feed, orEnd, isBreak, endField]
      · simp [feed, orEnd, isBreak, endField]
      · rcases hstart with rfl | rfl <;> simp [feed, enter, orEnd, isBreak, endField]
    have hline : (",".intercalate ((s :: t :: rest).map field)).toList ++ ['\r'] =
        (field s).toList ++ ',' :: ((",".intercalate ((t :: rest).map field)).toList ++ ['\r']) := by
      rw [List.map_cons, List.map_cons, String.intercalate_cons_cons, ← List.map_cons,
        String.toList_append, String.toList_append, List.append_assoc, List.append_assoc]
      rfl
    rw [hline, List.foldl_append, hfield, List.foldl_cons, hcomma,
      ih t (Or.inr rfl) (Or.inr rfl), List.reverse_cons,
      List.append_assoc, List.singleton_append]

theorem foldl_row (s : List String) :
    (row s).toList.foldl feed ⟨rows, [], [], .rowStart⟩ = ⟨s :: rows, [], [], .rowStart⟩ := by
  by_cases hempty : s = [""]
  · rw [hempty]
    rfl
  · have hline : (row s).toList = ((",".intercalate (s.map field)).toList ++ ['\r']) ++ ['\n'] := by
      rw [row, if_neg hempty, String.toList_append, List.append_assoc]
      rfl
    rw [hline, List.foldl_append]
    cases s with
    | nil => rfl
    | cons first rest =>
      rw [foldl_fields first rest (Or.inl ⟨rfl, hempty⟩)]
      rfl

theorem foldl_rows (table : List (List String)) :
    ((table.map row).flatMap String.toList).foldl feed ⟨rows, [], [], .rowStart⟩ =
      ⟨table.reverse ++ rows, [], [], .rowStart⟩ := by
  induction table generalizing rows with
  | nil => rfl
  | cons s table ih =>
    rw [List.map_cons, List.flatMap_cons, List.foldl_append, foldl_row, ih, List.reverse_cons,
      List.append_assoc]
    rfl

end Reader

def table (rows : List (List String)) : String := String.join (rows.map row)

theorem table_append (rows more : List (List String)) :
    table (rows ++ more) = table rows ++ table more := by
  rw [table, List.map_append, String.join_append]
  rfl

/-- A table is read back as it was written, whatever its fields hold. -/
theorem read_table (rows : List (List String)) : read (table rows) = rows := by
  have htext : (table rows).toList = (rows.map row).flatMap String.toList := by
    rw [table, String.toList_join]
  rw [read, htext, Reader.start, Reader.foldl_rows, List.append_nil, Reader.finish,
    List.reverse_reverse]

end Csv
end AssignmentSearch
