import AssignmentSearch.Proofs.Markup.Fetches

/-!
# Reading ahead

Tokens are handed out as soon as it is settled that they do not become keys. The tokens that come out
are those of a lexer that reads the whole text first.
-/

namespace AssignmentSearch

namespace Markup

namespace Lexer

/-- A lexer that reads the rest of its text piece by piece and then holds the tokens `out`. -/
inductive Yields : Lexer → List Token → Prop where
  | done {s : Lexer} (hdone : s.done = true) (hkeys : s.keys = []) : Yields s s.pending
  | step {s : Lexer} {p : Piece} {out : List Token} (hdone : s.done = false) (hcalm : s.Calm)
    (hp : Ready s.arrive p) (h : Yields (s.arrive.step p) out) : Yields s out

/-! ## Stale keys -/

def isInline (a : Char) : Bool := !isBreak a && !isByteOrderMark a

theorem forward_inline {cs rest : List Char} {c : Cursor} (h : c.rest = cs ++ rest)
    (hcs : ∀ a ∈ cs, isInline a = true) :
    c.forward cs.length = ⟨rest, c.index + cs.length, c.line, c.column + cs.length, c.size⟩ := by
  induction cs generalizing c with
  | nil =>
    obtain ⟨_, index, line, column, size⟩ := c
    cases h
    rfl
  | cons a cs ih =>
    obtain ⟨all, index, line, column, size⟩ := c
    simp only at h
    subst h
    rw [List.forall_mem_cons] at hcs
    have hinline := hcs.1
    simp only [isInline, Bool.and_eq_true, Bool.not_eq_true'] at hinline
    have hnext : Cursor.next ⟨a :: (cs ++ rest), index, line, column, size⟩ =
        ⟨cs ++ rest, index + 1, line, column + 1, size⟩ := by
      simp [Cursor.next, hinline]
    rw [List.cons_append, List.length_cons, Cursor.forward, hnext, ih rfl hcs.2]
    simp only [Cursor.mk.injEq, true_and, and_true]
    omega

theorem isStale_forward {k : KeyStart} {c d : Cursor} (hline : d.line = c.line) (hindex : c.index ≤ d.index)
    (h : isStale c k = true) : isStale d k = true := by
  simp only [isStale, Bool.or_eq_true, decide_eq_true_eq, hline] at h ⊢
  omega

theorem takeWhile_space (cs : List Char) :
    cs.takeWhile (fun c => decide (c = ' ')) ++ cs.dropWhile (fun c => decide (c = ' ')) = cs :=
  List.takeWhile_append_dropWhile

theorem arrive_cursor (s : Lexer) :
    s.arrive.cursor.line = s.cursor.line ∧ s.cursor.index ≤ s.arrive.cursor.index := by
  have hspaces : ∀ a ∈ s.cursor.rest.takeWhile (fun c => decide (c = ' ')), isInline a = true := by
    intro a ha
    have := List.mem_takeWhile_imp ha
    rw [of_decide_eq_true this]
    decide
  rw [arrive]
  simp only
  rw [forward_inline (takeWhile_space s.cursor.rest).symm hspaces]
  exact ⟨rfl, Nat.le_add_right _ _⟩

/-- The lexer without the keys that are stale where it stands. -/
def fresh (s : Lexer) : Lexer := { s with keys := s.keys.filter fun e => !isStale s.cursor e.2 }

theorem arrive_fresh (s : Lexer) : s.fresh.arrive = s.arrive := by
  obtain ⟨hline, hindex⟩ := arrive_cursor s
  have hkeys : (s.keys.filter fun e => !isStale s.cursor e.2).filter
      (fun e => !isStale s.arrive.cursor e.2) = s.keys.filter fun e => !isStale s.arrive.cursor e.2 := by
    rw [List.filter_filter]
    refine List.filter_congr fun e _ => ?_
    by_cases hstale : isStale s.cursor e.2 = true
    · simp [isStale_forward hline hindex hstale]
    · simp [hstale]
  exact congrArg (fun keys => { s with cursor := s.arrive.cursor, keys }) hkeys

theorem Calm.fresh {s : Lexer} (h : s.Calm) : s.fresh.Calm :=
  ⟨h.indent, h.indents, fun e he => h.optional e (List.mem_of_mem_filter he), h.size⟩

theorem Yields.fresh {s : Lexer} {out : List Token} (h : Yields s out) : Yields s.fresh out := by
  cases h with
  | done hdone hkeys => exact .done hdone (by rw [Lexer.fresh, hkeys]; rfl)
  | step hdone hcalm hp h =>
    rw [← arrive_fresh] at hp h
    exact .step hdone hcalm.fresh hp h

/-! ## Handing out -/

def handed (s : Lexer) : Lexer := { s with taken := s.taken + 1, pending := s.pending.tail }

/-- The keys that may still begin lie behind the tokens handed out. -/
def KeysBehind (s : Lexer) (n : Nat) : Prop := ∀ e ∈ s.keys, n ≤ e.2.tokens

theorem ready_handed {s : Lexer} {p : Piece} (h : Ready s p) : Ready s.handed p := by
  cases h with
  | opening hrest ht => exact .opening hrest ht
  | closing hrest ht hflow => exact .closing hrest ht hflow
  | comma hrest => exact .comma hrest
  | colon hrest hflow hkey => exact .colon hrest hflow hkey
  | quoted hrest => exact .quoted hrest
  | word hword hrest hc hflow => exact .word hword hrest hc hflow
  | finish hrest hflow => exact .finish hrest hflow

theorem handed_step {s : Lexer} {p : Piece} (hp : Ready s p) (hne : s.pending ≠ [])
    (hkeys : s.KeysBehind (s.taken + 1)) : s.handed.step p = (s.step p).handed := by
  obtain ⟨t, rest, hpending⟩ := List.exists_cons_of_ne_nil hne
  have hnoted : s.handed.noted = s.noted := by
    have : s.taken + 1 + s.pending.tail.length = s.taken + s.pending.length := by
      rw [hpending, List.tail_cons, List.length_cons]
      omega
    simp only [noted, handed, this]
    rfl
  cases hp with
  | opening =>
    simp only [step, hnoted]
    simp [handed, hpending]
  | closing => simp [step, handed, unnoted, hpending]
  | comma => simp [step, handed, unnoted, hpending]
  | quoted =>
    simp only [step, hnoted]
    simp [handed, hpending]
  | word =>
    simp only [step, hnoted]
    simp [handed, hpending]
  | finish => rfl
  | @colon _ k hrest hflow hkey =>
    have hbehind := hkeys k (List.mem_of_find?_eq_some hkey)
    obtain ⟨before, hbefore⟩ : ∃ n, k.2.tokens = s.taken + 1 + n := ⟨k.2.tokens - (s.taken + 1), by omega⟩
    have hone : s.taken + 1 + before - s.taken = before + 1 := by omega
    simp [step, handed, unnoted, hpending, hkey, hbefore, hone]

theorem taken_step (s : Lexer) (p : Piece) : (s.step p).taken = s.taken := by
  cases p <;> rfl

theorem KeysBehind.arrive {s : Lexer} {n : Nat} (h : s.KeysBehind n) : s.arrive.KeysBehind n :=
  fun e he => h e (List.mem_of_mem_filter he)

theorem KeysBehind.step {s : Lexer} {n : Nat} (h : s.KeysBehind n) (hn : n ≤ s.taken + s.pending.length)
    (p : Piece) : (s.step p).KeysBehind n := by
  have hnoted : ∀ e ∈ s.noted, n ≤ e.2.tokens := by
    intro e he
    rw [noted] at he
    split at he
    · rcases List.mem_cons.mp he with rfl | he
      · exact hn
      · exact h e (List.mem_of_mem_filter he)
    · exact h e he
  have hunnoted : ∀ e ∈ s.unnoted, n ≤ e.2.tokens := fun e he => h e (List.mem_of_mem_filter he)
  cases p with
  | opening => exact hnoted
  | closing => exact hunnoted
  | comma => exact hunnoted
  | colon => exact hunnoted
  | scalar => exact hnoted
  | finish => exact fun e he => absurd he List.not_mem_nil

theorem pending_step {s : Lexer} {p : Piece} {t : Token} {rest : List Token} (hp : Ready s p)
    (hpending : s.pending = t :: rest) (hkeys : s.KeysBehind (s.taken + 1)) :
    ∃ rest', (s.step p).pending = t :: rest' := by
  cases hp with
  | opening => exact ⟨_, by rw [step, hpending]; rfl⟩
  | closing => exact ⟨_, by rw [step, hpending]; rfl⟩
  | comma => exact ⟨_, by rw [step, hpending]; rfl⟩
  | quoted => exact ⟨_, by rw [step, hpending]; rfl⟩
  | word => exact ⟨_, by rw [step, hpending]; rfl⟩
  | finish => exact ⟨_, hpending⟩
  | @colon _ k hrest hflow hkey =>
    have hbehind := hkeys k (List.mem_of_find?_eq_some hkey)
    obtain ⟨before, hbefore⟩ : ∃ n, k.2.tokens = s.taken + 1 + n := ⟨k.2.tokens - (s.taken + 1), by omega⟩
    have hone : s.taken + 1 + before - s.taken = before + 1 := by omega
    exact ⟨rest.take before ++ .key :: rest.drop before ++ [.value], by
      simp [step, hpending, hkey, hbefore, hone]⟩

theorem Yields.handed {s : Lexer} {out : List Token} (h : Yields s out) {t : Token} {rest : List Token}
    (hpending : s.pending = t :: rest) (hkeys : s.KeysBehind (s.taken + 1)) :
    ∃ out', out = t :: out' ∧ Yields s.handed out' := by
  induction h generalizing rest with
  | @done s hdone hnone =>
    refine ⟨rest, hpending, ?_⟩
    have := Yields.done (s := s.handed) hdone hnone
    rwa [show s.handed.pending = rest by rw [Lexer.handed, hpending]; rfl] at this
  | @step s p out hdone hcalm hp _ ih =>
    obtain ⟨rest', hpending'⟩ := pending_step hp hpending hkeys.arrive
    have hlong : s.taken + 1 ≤ s.taken + s.pending.length := by
      rw [hpending, List.length_cons]
      omega
    have hbehind : (s.arrive.step p).KeysBehind ((s.arrive.step p).taken + 1) := by
      rw [taken_step]
      exact hkeys.arrive.step hlong p
    obtain ⟨out', rfl, hyields⟩ := ih hpending' hbehind
    refine ⟨out', rfl, ?_⟩
    rw [← handed_step hp (List.ne_nil_of_mem (hpending ▸ List.mem_cons_self)) hkeys.arrive] at hyields
    exact .step hdone ⟨hcalm.indent, hcalm.indents, hcalm.optional, hcalm.size⟩ (ready_handed hp) hyields

theorem length_step {s : Lexer} {p : Piece} (hp : Ready s p) :
    (s.step p).done = true ∨ (s.step p).cursor.rest.length < s.cursor.rest.length := by
  have hdrop {n : Nat} (hn : 0 < n) (hne : s.cursor.rest ≠ []) :
      (s.cursor.forward n).rest.length < s.cursor.rest.length := by
    have := List.length_pos_of_ne_nil hne
    rw [Cursor.rest_forward, List.length_drop]
    omega
  cases hp with
  | opening hrest => exact .inr (hdrop Nat.one_pos (by rw [hrest]; simp))
  | closing hrest => exact .inr (hdrop Nat.one_pos (by rw [hrest]; simp))
  | comma hrest => exact .inr (hdrop Nat.one_pos (by rw [hrest]; simp))
  | colon hrest => exact .inr (hdrop Nat.one_pos (by rw [hrest]; simp))
  | quoted hrest => exact .inr (hdrop (by simp [Json.quoteAscii]) (by rw [hrest]; simp [Json.quoteAscii]))
  | word hword hrest => exact .inr (hdrop (List.length_pos_of_ne_nil hword.ne_nil) (by rw [hrest]; simp))
  | finish => exact .inl rfl

theorem length_arrive (s : Lexer) : s.arrive.cursor.rest.length ≤ s.cursor.rest.length := by
  rw [arrive]
  simp only
  rw [Cursor.rest_forward, List.length_drop]
  omega

/-- The next token is settled after some fetches: the first pending token is no key, or the text has
ended. -/
theorem Yields.settle {s : Lexer} {out : List Token} (h : Yields s out) (hkeys : s.KeysBehind s.taken)
    {fuel : Nat} (hfuel : s.done = true ∨ s.cursor.rest.length + 2 ≤ fuel) :
    ∃ s', settle fuel s = .ok ((), s') ∧ Yields s' out ∧ s'.KeysBehind (s'.taken + 1) ∧
      (s'.pending = [] → out = []) := by
  induction h generalizing fuel with
  | @done s hdone hnone =>
    refine ⟨s, ?_, .done hdone hnone, ?_, id⟩
    · cases fuel with
      | zero => rfl
      | succ fuel =>
        rw [Lexer.settle, bind_apply, get_apply, ok_bind, if_pos hdone]
        rfl
    · intro e he
      rw [hnone] at he
      cases he
  | @step s p out hdone hcalm hp h ih =>
    have hlong : s.cursor.rest.length + 2 ≤ fuel := hfuel.resolve_left (by rw [hdone]; nofun)
    obtain ⟨fuel, rfl⟩ : ∃ n, fuel = n + 1 := ⟨fuel - 1, by omega⟩
    have hbehind : (s.arrive.step p).KeysBehind (s.arrive.step p).taken := by
      rw [taken_step]
      exact hkeys.arrive.step (Nat.le_add_right _ _) p
    have hless : (s.arrive.step p).done = true ∨ (s.arrive.step p).cursor.rest.length + 2 ≤ fuel := by
      refine (length_step hp).imp_right fun hlt => ?_
      have := length_arrive s
      omega
    have hread := ih hbehind hless
    rw [Lexer.settle, bind_apply, get_apply, ok_bind, hdone, if_neg Bool.false_ne_true, bind_apply, get_apply,
      ok_bind]
    by_cases hempty : s.pending.isEmpty = true
    · rw [if_pos hempty, bind_apply, fetch_apply hcalm hp, ok_bind]
      exact hread
    · have hdrop : dropStale s = .ok ((), s.fresh) := dropStale_apply hcalm
      rw [if_neg hempty, bind_apply, hdrop, ok_bind, bind_apply, get_apply, ok_bind]
      by_cases hopen : isOpen s.fresh = true
      · rw [if_pos hopen, bind_apply, fetch_apply hcalm.fresh (arrive_fresh s ▸ hp), ok_bind, arrive_fresh]
        exact hread
      · refine ⟨s.fresh, by rw [if_neg hopen]; rfl, (Yields.step hdone hcalm hp h).fresh, ?_, ?_⟩
        · intro e he
          have hle := hkeys e (List.mem_of_mem_filter he)
          have hne : e.2.tokens ≠ s.taken := by
            intro heq
            exact hopen (List.any_eq_true.mpr ⟨e, he, decide_eq_true heq⟩)
          exact Nat.lt_of_le_of_ne hle hne.symm
        · intro hnone
          rw [show s.pending = [] from hnone] at hempty
          exact absurd rfl hempty

theorem pending_length_step (s : Lexer) (p : Piece) : (s.step p).pending.length ≤ s.pending.length + 2 := by
  cases p with
  | colon =>
    simp only [step, List.length_append, List.length_cons, List.length_nil, List.length_take,
      List.length_drop]
    omega
  | finish => exact Nat.le_add_right _ _
  | _ => simp [step]

/-- No piece is worth more than two tokens for each of its characters. -/
theorem Yields.length_le {s : Lexer} {out : List Token} (h : Yields s out) :
    out.length ≤ s.pending.length + 2 * s.cursor.rest.length := by
  induction h with
  | done => exact Nat.le_add_right _ _
  | @step s p out hdone hcalm hp h ih =>
    have harrive := length_arrive s
    have hpending := pending_length_step s.arrive p
    have hsame : s.arrive.pending = s.pending := rfl
    rw [hsame] at hpending
    cases p with
    | finish =>
      have hrest : (s.arrive.step .finish).cursor.rest = s.arrive.cursor.rest := rfl
      have hkept : (s.arrive.step .finish).pending = s.pending := rfl
      rw [hrest, hkept] at ih
      omega
    | _ =>
      have hlt := (length_step hp).resolve_left (by change ¬ s.done = true; simp [hdone])
      omega

/-- A lexer hands out the tokens that it would hold in the end. -/
theorem Yields.handOut {s : Lexer} {out : List Token} (h : Yields s out) (hkeys : s.KeysBehind s.taken)
    {fuel : Nat} (hfuel : out.length < fuel) (acc : List Token) :
    handOut fuel acc s = (acc.reverse ++ out, none) := by
  induction fuel generalizing s out acc with
  | zero => omega
  | succ fuel ih =>
    have hlong : s.done = true ∨ s.cursor.rest.length + 2 ≤ s.cursor.left + 2 := by
      cases h with
      | done hdone => exact .inl hdone
      | step hdone hcalm =>
        have := hcalm.size
        rw [Cursor.left]
        omega
    obtain ⟨s', hsettle, hyields, hbehind, hend⟩ := h.settle hkeys hlong
    rw [Lexer.handOut, StateT.run, hsettle]
    cases hpending : s'.pending with
    | nil =>
      rw [hend hpending, List.append_nil]
      simp only [hpending]
    | cons t rest =>
      obtain ⟨out', rfl, hhanded⟩ := hyields.handed hpending hbehind
      rw [Lexer.handed, hpending, List.tail_cons] at hhanded
      simp only [hpending]
      rw [ih hhanded hbehind (by simpa using hfuel)]
      simp

end Lexer

end Markup

end AssignmentSearch
