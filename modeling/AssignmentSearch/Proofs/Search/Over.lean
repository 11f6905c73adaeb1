import AssignmentSearch.Proofs.Search.Shadows

/-!
# Searches that are over

A search comes to its end by a beginning or a step that has told its costs. So whatever went wrong
before and whatever its records do, its costs are known once it is over, and after every answered step.
-/

namespace AssignmentSearch

variable {α σ τ ρ β γ : Type}

/-- If the search is over, the costs of the solutions it holds are known. -/
def Search.Sound (s : Search α σ τ ρ) : Prop := ∀ f, s.progress = .finished f → f.Known

namespace Search

theorem Sound.finished {s : Search α σ τ ρ} {f : Found α τ ρ} (hknown : f.Known)
    (hf : s.progress = .searching f ∨ s.progress = .finished f) : s.Sound := by
  intro g hg
  rcases hf with hf | hf <;> rw [hf] at hg <;> cases hg
  exact hknown

variable [Strategy α σ] [Printed α] [ToString τ] [ToString ρ]

theorem progress_endIfDue {f : Found α τ ρ} (strategy : σ) {r : Running α σ τ ρ}
    (hf : r.1.progress = .searching f) :
    ((endIfDue strategy).start r).2.1.progress = .searching f ∨
      ((endIfDue strategy).start r).2.1.progress = .finished f := by
  rw [endIfDue, Attempt.start_bind, Attempt.start_lift]
  cases Strategy.stops strategy with
  | error e => exact Or.inl hf
  | ok stop =>
    cases stop with
    | false => exact Or.inl hf
    | true =>
      dsimp only
      rw [if_pos rfl, terminate_search, hf]
      exact Or.inr rfl

omit [Strategy α σ] [Printed α] [ToString τ] [ToString ρ] in
theorem begin_error_stage {s t : Search α σ τ ρ} {e : Fault} (hfresh : s.progress = .fresh)
    (h : begin.start s = (.error e, t)) : t.progress.stage ≠ .terminated := by
  rcases hx : (s.landscape.initial s.kept).start s.source with ⟨a, source⟩
  cases a with
  | error e' =>
    rw [begin_of_error hx] at h
    cases h
    rw [hfresh]
    simp [Progress.stage]
  | ok first =>
    rw [begin_of_ok hx] at h
    cases hc : first.costValue with
    | ok c =>
      rw [hc] at h
      cases h
    | error e' =>
      rw [hc] at h
      cases h
      simp [Progress.stage]

theorem Sound.start {r : Running α σ τ ρ} (h : r.1.Sound) : (start.start r).2.1.Sound := by
  cases hfound : r.1.progress.found? with
  | some f =>
    rw [start_of_found hfound]
    exact h
  | none =>
    have hfresh := Progress.fresh_of_found? hfound
    obtain ⟨s, w⟩ := r
    obtain ⟨u, -, hstart⟩ := start_of_fresh hfresh w
    rw [hstart]
    rcases hx : begin.start s with ⟨a, t⟩
    cases a with
    | error e =>
      intro g hg
      have hstage := begin_error_stage hfresh hx
      rw [show t.progress = .finished g from hg] at hstage
      exact absurd rfl hstage
    | ok first =>
      obtain ⟨g, hg, hknown⟩ := known_of_begin_ok hx
      exact Sound.finished hknown (progress_endIfDue t.strategy hg)

end Search

def KeepsStage (x : Attempt (Search α σ τ ρ) β) : Prop :=
  ∀ s, (x.start s).2.progress.stage = s.progress.stage

namespace KeepsStage

theorem pure (a : β) : KeepsStage (Pure.pure a : Attempt (Search α σ τ ρ) β) := fun _ => rfl

theorem lift (x : Except Fault β) : KeepsStage (Attempt.lift x : Attempt (Search α σ τ ρ) β) :=
  fun _ => rfl

theorem get : KeepsStage (MonadState.get : Attempt (Search α σ τ ρ) (Search α σ τ ρ)) :=
  fun _ => rfl

theorem modify {change : Search α σ τ ρ → Search α σ τ ρ}
    (h : ∀ s, (change s).progress = s.progress) : KeepsStage (modify change) := by
  intro s
  rw [Attempt.start_modify, h]

theorem bind {x : Attempt (Search α σ τ ρ) β} {f : β → Attempt (Search α σ τ ρ) γ}
    (hx : KeepsStage x) (hf : ∀ a, KeepsStage (f a)) : KeepsStage (x >>= f) := by
  intro s
  have hs := hx s
  rw [Attempt.start_bind]
  rcases hstart : x.start s with ⟨a, t⟩
  rw [hstart] at hs
  cases a with
  | error e => exact hs
  | ok a => exact (hf a t).trans hs

end KeepsStage

namespace Search
variable [Quantity α] [Acceptance α σ (Solution α τ ρ)]

theorem keepsStage_trial (b : Batch α) :
    KeepsStage (trial b : Attempt (Search α σ τ ρ) (Batch α)) := by
  intro s
  obtain ⟨source, trials, ht, -⟩ := start_trial_state b s
  rw [ht, progressAfter]
  cases meeting? s with
  | none => rfl
  | some m =>
    dsimp only
    cases s.progress <;> rfl

theorem keepsStage_batch (n : Nat) (b : Batch α) :
    KeepsStage (batch n b : Attempt (Search α σ τ ρ) (Batch α)) := by
  induction n generalizing b with
  | zero => exact KeepsStage.pure _
  | succ n ih => exact (keepsStage_trial b).bind ih

variable [Strategy α σ]

/-- The trials of a step do not end the search, not even when they fail. -/
theorem keepsStage_advance (f : Found α τ ρ) :
    KeepsStage (advance f : Attempt (Search α σ τ ρ) (Outcome α)) := by
  refine (KeepsStage.lift _).bind fun before => KeepsStage.get.bind fun s => ?_
  refine (KeepsStage.lift _).bind fun count => (keepsStage_batch _ _).bind fun b => ?_
  refine KeepsStage.bind (KeepsStage.modify ?_) fun _ => KeepsStage.get.bind fun t => ?_
  · exact fun _ => rfl
  refine (KeepsStage.lift _).bind fun aged => KeepsStage.bind (KeepsStage.modify ?_) fun _ => ?_
  · exact fun _ => rfl
  refine KeepsStage.get.bind fun u => (KeepsStage.lift _).bind fun done => ?_
  exact (KeepsStage.lift _).bind fun _ => (KeepsStage.lift _).bind fun _ => KeepsStage.pure _

variable [Printed α] [ToString τ] [ToString ρ]

omit [Acceptance α σ (Solution α τ ρ)] in
theorem progress_conclude (started : α) (o : Outcome α) {r : Running α σ τ ρ} {f : Found α τ ρ}
    (hf : r.1.progress = .searching f) :
    ((conclude started o).start r).2.1.progress = .searching f ∨
      ((conclude started o).start r).2.1.progress = .finished f := by
  apply (idle_settle o).keep (Q := fun s => s.progress = .searching f ∨ s.progress = .finished f) ?_
    (Or.inl hf)
  intro _ u hu
  rw [Attempt.start_bind_ok (start_readClock u), Attempt.start_bind_ok (start_onSearch _ _),
    Attempt.start_modify]
  dsimp only
  cases o.done with
  | false => exact hu
  | true =>
    have hend := terminate_search ({ u.1 with
      solveTime := u.1.solveTime + (u.2.now + u.2.tick - started) }, u.2.ticked)
    rw [if_pos rfl, Attempt.start_bind]
    rcases hx : terminate.start ({ u.1 with
      solveTime := u.1.solveTime + (u.2.now + u.2.tick - started) }, u.2.ticked) with ⟨a, t⟩
    rw [hx] at hend
    have hover : t.1.progress = .finished f := by
      rw [hend]
      rcases hu with hu | hu <;> simp only [hu] <;> rfl
    rw [Surroundings.ticked] at hx
    rw [hx]
    cases a <;> exact Or.inr hover

theorem Sound.step {r : Running α σ τ ρ} (h : r.1.Sound) : (step.start r).2.1.Sound := by
  have hstart := h.start
  rcases hx : Search.start.start r with ⟨a, t⟩
  rw [hx] at hstart
  cases a with
  | error e =>
    rw [(step_of_start_error hx).1]
    exact hstart
  | ok _ =>
    obtain ⟨f, hf⟩ := found_of_start_ok hx
    rw [(step_of_start hx hf).1]
    cases hp : t.1.progress with
    | fresh =>
      rw [hp] at hf
      cases hf
    | finished g =>
      rw [(step_of_finished hp).1]
      exact hstart
    | searching g =>
      rw [step_of_searching hp]
      have hstage := keepsStage_advance g t.1
      rcases hy : (advance g).start t.1 with ⟨b, s⟩
      rw [hy, hp] at hstage
      cases b with
      | error e =>
        intro k hk
        rw [show s.progress = .finished k from hk] at hstage
        cases hstage
      | ok o =>
        obtain ⟨k, hk, hknown⟩ := known_of_advance_ok hp hy
        exact Sound.finished hknown (progress_conclude _ o hk)

theorem known_of_step_ok {r t : Running α σ τ ρ} {o : Outcome α} (h : step.start r = (.ok o, t))
    {f : Found α τ ρ} (hf : t.1.progress.found? = some f) : f.Known := by
  obtain ⟨u, g, -, hg, hstep⟩ := searching_of_step_ok h
  rw [step_of_searching hg] at hstep
  rcases hx : (advance g).start u.1 with ⟨a, s⟩
  rw [hx] at hstep
  cases a with
  | error e => cases hstep
  | ok o' =>
    obtain ⟨k, hk, hknown⟩ := known_of_advance_ok hg hx
    have hend := progress_conclude (u.2.now + u.2.tick) o'
      (r := (s, { u.2 with now := u.2.now + u.2.tick })) hk
    dsimp only at hstep
    rw [hstep] at hend
    rcases hend with hend | hend <;> rw [hend] at hf <;> cases hf <;> exact hknown

end Search
end AssignmentSearch
