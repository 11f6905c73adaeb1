import AssignmentSearch.Proofs.Markup.Lapses

/-!
# Lapses of tokens

Scalars lapse where they escape what is no character, and directives where a version is too long.
Apart from that a text can only be malformed before its nodes are made.
-/

namespace AssignmentSearch

namespace Markup

namespace Scan

@[grind ←]
theorem tame_peek : Tame peek := by grind [peek]

@[grind ←]
theorem tame_skip (n : Nat) : Tame (skip n) := .change _

@[grind ←]
theorem tame_take (n : Nat) : Tame (take n) := by grind [take]

@[grind ←]
theorem tame_run (p : Char → Bool) : Tame (run p) := by grind [run]

@[grind ←]
theorem tame_expect (ok : Bool) : Tame (expect ok) := by grind [expect]

@[grind ←]
theorem tame_lineBreak : Tame lineBreak := by grind [lineBreak]

@[grind ←]
theorem tame_spaces : Tame spaces := by grind [spaces]

@[grind ←]
theorem tame_comment : Tame comment := by grind [comment]

@[grind ←]
theorem tame_restOfLine : Tame restOfLine := by grind [restOfLine]

end Scan

namespace Plain

@[grind ←]
theorem tame_furtherBreaks (fuel : Nat) (acc : List Char) : Tame (furtherBreaks fuel acc) := by
  induction fuel generalizing acc with
  | zero => exact .pure _
  | succ fuel ih => grind [furtherBreaks]

@[grind ←]
theorem tame_gap : Tame gap := by
  refine .bind (Scan.tame_run _) fun blanks => .bind Scan.tame_peek fun c => ?_
  grind

@[grind ←]
theorem tame_runs (flow : Bool) (indent : Int) (fuel : Nat) (acc blanks : List Char)
    (crossed : Bool) : Tame (runs flow indent fuel acc blanks crossed) := by
  induction fuel generalizing acc blanks crossed with
  | zero => exact .pure _
  | succ fuel ih => grind [runs]

@[grind ←]
theorem tame_scan (flow : Bool) (indent : Int) : Tame (scan flow indent) := by grind [scan]

end Plain

namespace Quote

@[grind ←]
theorem tame_breaks (fuel : Nat) (acc : List Char) : Tame (breaks fuel acc) := by
  induction fuel generalizing acc with
  | zero => exact .pure _
  | succ fuel ih => grind [breaks]

@[grind ←]
theorem tame_charOfCode (n : Nat) : Tame (charOfCode n) := by
  grind [charOfCode, Fault.isLapse]

@[grind ←]
theorem tame_escaped (n : Nat) : Tame (escaped n) := by grind [escaped]

@[grind ←]
theorem tame_escape : Tame escape := by
  refine .bind .get fun c => ?_
  split
  · grind
  · refine .bind (Scan.tame_skip 1) fun _ => .bind (Scan.tame_take _) fun digits => ?_
    split <;> grind
  · grind

@[grind ←]
theorem tame_gap : Tame gap := by grind [gap]

@[grind ←]
theorem tame_body (quote : Char) (fuel : Nat) (acc : List Char) : Tame (body quote fuel acc) := by
  induction fuel generalizing acc with
  | zero => exact .throw trivial
  | succ fuel ih => grind [body]

@[grind ←]
theorem tame_scan : Tame scan := by grind [scan]

end Quote

namespace Block

@[grind ←]
theorem tame_chomping : Tame chomping := by grind [chomping]

@[grind ←]
theorem tame_increment : Tame increment := by grind [increment]

@[grind ←]
theorem tame_header : Tame header := by
  refine .bind tame_chomping fun before => .bind tame_increment fun digit => ?_
  grind

@[grind ←]
theorem tame_leading (fuel : Nat) (acc : List Char) (deepest : Nat) :
    Tame (leading fuel acc deepest) := by
  induction fuel generalizing acc deepest with
  | zero => exact .pure _
  | succ fuel ih => grind [leading]

@[grind ←]
theorem tame_indentTo (column : Nat) : Tame (indentTo column) := by grind [indentTo]

@[grind ←]
theorem tame_emptyLines (indent fuel : Nat) (acc : List Char) :
    Tame (emptyLines indent fuel acc) := by
  induction fuel generalizing acc with
  | zero => exact .pure _
  | succ fuel ih => grind [emptyLines]

@[grind ←]
theorem tame_lines (fold : Bool) (indent fuel : Nat) (acc last empty : List Char) :
    Tame (lines fold indent fuel acc last empty) := by
  induction fuel generalizing acc last empty with
  | zero => exact .pure _
  | succ fuel ih => grind [lines]

@[grind ←]
theorem tame_scan (parent : Int) : Tame (scan parent) := by
  refine .bind .get fun start => .bind (Scan.tame_skip 1) fun _ => .bind tame_header fun h => ?_
  grind

end Block

namespace Token

@[grind ←]
theorem tame_name : Tame name := by grind [name]

@[grind ←]
theorem tame_bytes (fuel : Nat) (acc : List UInt8) : Tame (bytes fuel acc) := by
  induction fuel generalizing acc with
  | zero => exact .pure _
  | succ fuel ih => grind [bytes]

@[grind ←]
theorem tame_tagChars (fuel : Nat) (acc : List Char) : Tame (tagChars fuel acc) := by
  induction fuel generalizing acc with
  | zero => exact .pure _
  | succ fuel ih => grind [tagChars]

@[grind ←]
theorem tame_tagText : Tame tagText := by grind [tagText]

@[grind ←]
theorem tame_tagHandle : Tame tagHandle := by
  refine .bind Scan.tame_peek fun c => .bind (Scan.tame_expect _) fun _ => ?_
  refine .bind (Scan.tame_skip 1) fun _ => .bind Scan.tame_peek fun d => ?_
  grind

@[grind ←]
theorem tame_tagToken : Tame tagToken := by
  refine .bind .get fun c => ?_
  split
  · refine .bind (Scan.tame_skip 2) fun _ => .bind tame_tagText fun text => ?_
    grind
  · grind

@[grind ←]
theorem tame_number : Tame number := by grind [number, Fault.isLapse]

@[grind ←]
theorem tame_version : Tame version := by
  refine .bind Scan.tame_spaces fun _ => .bind tame_number fun major => ?_
  grind

@[grind ←]
theorem tame_handleDirective : Tame handleDirective := by
  refine .bind Scan.tame_spaces fun _ => .bind tame_tagHandle fun handle => ?_
  grind

@[grind ←]
theorem tame_directiveToken : Tame directiveToken := by grind [directiveToken]

end Token

namespace Lexer

@[grind ←]
theorem tame_scan {β : Type} {x : Scan β} (h : Tame x) : Tame (scan x) := by
  refine .bind .get fun s => .bind (.lift (h s.cursor)) fun r => ?_
  grind

@[grind ←]
theorem tame_expect (ok : Bool) : Tame (expect ok) := by grind [expect]

@[grind ←]
theorem tame_emit (t : Token) : Tame (emit t) := .change _

@[grind ←]
theorem tame_insert (n : Nat) (t : Token) : Tame (insert n t) := .change _

@[grind ←]
theorem tame_allowKey (b : Bool) : Tame (allowKey b) := .change _

@[grind ←]
theorem tame_dropStale : Tame dropStale := by grind [dropStale]

@[grind ←]
theorem tame_dropKey : Tame dropKey := by grind [dropKey]

@[grind ←]
theorem tame_noteKey : Tame noteKey := by grind [noteKey]

@[grind ←]
theorem tame_closeBlocks (column : Int) (outer : List Int) : Tame (closeBlocks column outer) := by
  induction outer with
  | nil => exact .pure _
  | cons _ _ ih => grind [closeBlocks]

@[grind ←]
theorem tame_unwind (column : Int) : Tame (unwind column) := by grind [unwind]

@[grind ←]
theorem tame_openBlock (column : Nat) : Tame (openBlock column) := by grind [openBlock]

@[grind ←]
theorem tame_gap (fuel : Nat) : Tame (gap fuel) := by
  induction fuel with
  | zero => exact .pure _
  | succ fuel ih => grind [gap]

@[grind ←]
theorem tame_leaveBlocks : Tame leaveBlocks := by grind [leaveBlocks]

@[grind ←]
theorem tame_finish : Tame finish := by grind [finish]

@[grind ←]
theorem tame_marker (t : Token) : Tame (marker t) := by grind [marker]

@[grind ←]
theorem tame_openFlow (t : Token) : Tame (openFlow t) := by grind [openFlow]

@[grind ←]
theorem tame_closeFlow (t : Token) : Tame (closeFlow t) := by grind [closeFlow]

@[grind ←]
theorem tame_flowEntry : Tame flowEntry := by grind [flowEntry]

@[grind ←]
theorem tame_openBlockFor (t : Token) : Tame (openBlockFor t) := by grind [openBlockFor]

@[grind ←]
theorem tame_blockEntry : Tame blockEntry := by grind [blockEntry]

@[grind ←]
theorem tame_explicitKey : Tame explicitKey := by grind [explicitKey]

@[grind ←]
theorem tame_valueMark : Tame valueMark := by
  refine .bind .get fun s => ?_
  split
  · grind
  · grind

@[grind ←]
theorem tame_keyLike {x : Scan Token} (h : Tame x) : Tame (keyLike x) := by grind [keyLike]

@[grind ←]
theorem tame_blockScalar : Tame blockScalar := by grind [blockScalar]

@[grind ←]
theorem tame_plainScalar : Tame plainScalar := by grind [plainScalar]

@[grind ←]
theorem tame_token : Tame token := by
  refine .bind .get fun s => ?_
  dsimp only
  -- one case for each way in which a token may begin
  repeat' refine .ite ?_ ?_
  all_goals grind

@[grind ←]
theorem tame_fetch : Tame fetch := by grind [fetch]

theorem tame_settle (fuel : Nat) : Tame (settle fuel) := by
  induction fuel with
  | zero => exact .pure _
  | succ fuel ih => grind [settle]

theorem expected_handOut (fuel : Nat) (acc : List Token) (s : Lexer) :
    ∀ t ∈ (handOut fuel acc s).2, t.IsExpected := by
  induction fuel generalizing acc s with
  | zero => rintro t ⟨⟩
  | succ fuel ih =>
    rw [handOut]
    cases hs : (settle (s.cursor.left + 2)).run s with
    | error t =>
      rintro t' ⟨⟩
      exact tame_settle _ s t hs
    | ok p =>
      obtain ⟨-, s⟩ := p
      dsimp only
      split
      · rintro t ⟨⟩
      · exact ih _ _

end Lexer

theorem Token.expected_ofText (text : String) : ∀ t ∈ (Token.ofText text).2, t.IsExpected := by
  rw [Token.ofText]
  split
  · rintro t ⟨⟩
    trivial
  · exact Lexer.expected_handOut _ _ _

end Markup

end AssignmentSearch
