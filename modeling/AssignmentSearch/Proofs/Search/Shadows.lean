import AssignmentSearch.Proofs.Search.Clerical

/-!
# Searches and their shadows

The shadow of a search is the same search without a recorder, in surroundings of its own. Whatever is
asked of both, they go the same way, and they answer alike unless the search is over and its best
result cannot be told.
-/

namespace AssignmentSearch

variable {α σ τ ρ β γ : Type}

def Search.disguised (s : Search α σ τ ρ) (recorder : Option Recorder) (time : α) :
    Search α σ τ ρ :=
  { s with recorder := recorder, solveTime := time }

def Blind (x : Attempt (Search α σ τ ρ) β) : Prop :=
  ∀ s recorder time, x.start (s.disguised recorder time) =
    ((x.start s).1, (x.start s).2.disguised recorder time)

namespace Blind

theorem pure (a : β) : Blind (Pure.pure a : Attempt (Search α σ τ ρ) β) := fun _ _ _ => rfl

theorem lift (x : Except Fault β) : Blind (Attempt.lift x : Attempt (Search α σ τ ρ) β) :=
  fun _ _ _ => rfl

theorem withSource (x : Attempt (Source α) β) :
    Blind (Search.withSource x : Attempt (Search α σ τ ρ) β) := fun _ _ _ => rfl

theorem modify {change : Search α σ τ ρ → Search α σ τ ρ}
    (h : ∀ s recorder time, change (s.disguised recorder time) =
      (change s).disguised recorder time) : Blind (modify change) :=
  fun s recorder time => Prod.ext rfl (h s recorder time)

theorem bind {x : Attempt (Search α σ τ ρ) β} {f : β → Attempt (Search α σ τ ρ) γ} (hx : Blind x)
    (hf : ∀ a, Blind (f a)) : Blind (x >>= f) := by
  intro s recorder time
  rw [Attempt.start_bind, Attempt.start_bind, hx]
  rcases x.start s with ⟨a, t⟩
  cases a with
  | error e => rfl
  | ok a => exact hf a t recorder time

/-- What is read of the search must not tell the disguise. -/
theorem read {f : Search α σ τ ρ → Attempt (Search α σ τ ρ) β}
    (hsame : ∀ s recorder time, f (s.disguised recorder time) = f s) (hf : ∀ s, Blind (f s)) :
    Blind (get >>= f) := by
  intro s recorder time
  rw [Attempt.start_bind_ok (Attempt.start_get _), Attempt.start_bind_ok (Attempt.start_get _), hsame]
  exact hf s s recorder time

theorem keeps {x : Attempt (Search α σ τ ρ) β} (hx : Blind x) (s : Search α σ τ ρ) :
    (x.start s).2.recorder = s.recorder ∧ (x.start s).2.solveTime = s.solveTime := by
  have hsame := congrArg Prod.snd (hx s s.recorder s.solveTime)
  rw [show s.disguised s.recorder s.solveTime = s from rfl] at hsame
  rw [hsame]
  exact ⟨rfl, rfl⟩

end Blind

namespace Search

theorem blind_initial : Blind (initial : Attempt (Search α σ τ ρ) (Solution α τ ρ)) :=
  Blind.read (fun _ _ _ => rfl) fun _ => (Blind.withSource _).bind fun _ =>
    (Blind.modify fun _ _ _ => rfl).bind fun _ => Blind.pure _

theorem blind_neighbor (near : Solution α τ ρ) :
    Blind (neighbor near : Attempt (Search α σ τ ρ) (Candidate α τ ρ)) :=
  (Blind.modify fun _ _ _ => rfl).bind fun _ => Blind.read (fun _ _ _ => rfl) fun _ =>
    (Blind.withSource _).bind fun _ => Blind.pure _

theorem blind_begin :
    Blind (begin : Attempt (Search α σ τ ρ) (Solution α τ ρ × α)) := by
  refine blind_initial.bind fun first => ?_
  refine (Blind.modify fun _ _ _ => rfl).bind fun _ => (Blind.lift _).bind fun cost => ?_
  exact (Blind.modify fun _ _ _ => rfl).bind fun _ => Blind.pure _

variable [Quantity α]

theorem blind_take (f : Found α τ ρ) (c : Candidate α τ ρ) :
    Blind (take f c : Attempt (Search α σ τ ρ) Unit) := by
  refine (Blind.modify fun _ _ _ => rfl).bind fun _ => (Blind.lift _).bind fun isBetter => ?_
  cases isBetter with
  | false => exact Blind.pure _
  | true => exact Blind.modify fun _ _ _ => rfl

variable [Acceptance α σ (Solution α τ ρ)]

theorem blind_assess (current candidate : Solution α τ ρ) :
    Blind (assess current candidate : Attempt (Search α σ τ ρ) (Reason α)) := by
  refine (Blind.lift _).bind fun isBetter => ?_
  cases isBetter with
  | true => exact Blind.pure _
  | false =>
    refine Blind.read (fun _ _ _ => rfl) fun s => (Blind.lift _).bind fun p => ?_
    refine (Blind.lift _).bind fun isZero => ?_
    cases isZero with
    | true => exact Blind.pure _
    | false =>
      exact (Blind.withSource _).bind fun _ => (Blind.lift _).bind fun _ =>
        (Blind.lift _).bind fun _ => (Blind.lift _).bind fun _ => Blind.pure _

theorem blind_trial (b : Batch α) : Blind (trial b : Attempt (Search α σ τ ρ) (Batch α)) := by
  refine Blind.read (fun _ _ _ => rfl) fun s => ?_
  cases s.progress.found? with
  | none => exact Blind.pure _
  | some f =>
    refine (blind_neighbor _).bind fun c => (Blind.lift _).bind fun cost => ?_
    refine (blind_assess _ _).bind fun reason => ?_
    cases reason.accepts with
    | false => exact Blind.pure _
    | true => exact (blind_take _ _).bind fun _ => Blind.pure _

theorem blind_batch (n : Nat) (b : Batch α) :
    Blind (batch n b : Attempt (Search α σ τ ρ) (Batch α)) := by
  induction n generalizing b with
  | zero => exact Blind.pure _
  | succ n ih => exact (blind_trial b).bind ih

theorem blind_advance [Strategy α σ] (f : Found α τ ρ) :
    Blind (advance f : Attempt (Search α σ τ ρ) (Outcome α)) := by
  refine (Blind.lift _).bind fun before => Blind.read (fun _ _ _ => rfl) fun s => ?_
  refine (Blind.lift _).bind fun count => (blind_batch _ _).bind fun b => ?_
  refine (Blind.modify fun _ _ _ => rfl).bind fun _ => Blind.read (fun _ _ _ => rfl) fun t => ?_
  refine (Blind.lift _).bind fun aged => (Blind.modify fun _ _ _ => rfl).bind fun _ => ?_
  refine Blind.read (fun _ _ _ => rfl) fun u => (Blind.lift _).bind fun done => ?_
  exact (Blind.lift _).bind fun _ => (Blind.lift _).bind fun _ => Blind.pure _

end Search

namespace Search
variable [Quantity α] [Strategy α σ] [Acceptance α σ (Solution α τ ρ)]

theorem known_of_advance_ok {s t : Search α σ τ ρ} {f : Found α τ ρ} {o : Outcome α}
    (hf : s.progress = .searching f) (h : (advance f).start s = (.ok o, t)) :
    ∃ g, t.progress = .searching g ∧ g.Known := by
  obtain ⟨u, a, ⟨source, trials, g, rfl, -⟩, -, -, -, rfl⟩ := advance_ok hf h
  obtain ⟨g', hg, hreport⟩ := (advance_answer hf h).report
  cases hg
  exact ⟨g, rfl, ⟨_, hreport.cost⟩, ⟨_, hreport.bestCost⟩⟩

end Search

/-- A search that has a plain recorder or none, and its shadow. Their clocks go together if the times
are to agree. -/
inductive Shadow (timed : Prop) : Running α σ τ ρ → Running α σ τ ρ → Prop
  | of {s : Search α σ τ ρ} {w w' : Surroundings α} {time : α} (plain : s.IsPlain)
      (clock : timed → time = s.solveTime ∧ SameClock w w') :
      Shadow timed (s, w) (s.disguised none time, w')

theorem Shadow.progress_eq {timed : Prop} {r r' : Running α σ τ ρ} (h : Shadow timed r r') :
    r'.1.progress = r.1.progress := by
  cases h
  rfl

/-- What a search and its shadow answer to a call: the same, unless the call ends the search and its
best result cannot be told. -/
inductive Answers [Strategy α σ] [Printed α] [ToString τ] [ToString ρ]
    (before after : Search α σ τ ρ) : Except Fault β → Except Fault β → Prop
  | same (a : Except Fault β) : Answers before after a a
  | untold (a : Except Fault β) (under : before.progress.stage ≠ .terminated)
      (untold : after.Untold) : Answers before after (.error .unwritable) a

def Follows [Strategy α σ] [Printed α] [ToString τ] [ToString ρ] (timed : Prop)
    (x : Attempt (Running α σ τ ρ) β) (r r' : Running α σ τ ρ) : Prop :=
  Shadow timed (x.start r).2 (x.start r').2 ∧
    Answers r.1 (x.start r).2.1 (x.start r).1 (x.start r').1

namespace Search
variable [Strategy α σ] [Printed α] [ToString τ] [ToString ρ]

theorem start_stays_over {r : Running α σ τ ρ} (h : r.1.progress.stage = .terminated) :
    (start.start r).2.1.progress.stage = .terminated := by
  obtain ⟨f, hf⟩ := Progress.finished_of_stage h
  rw [start_of_found (f := f) (by rw [hf]; rfl)]
  exact h

theorem step_stays_over [Quantity α] [Acceptance α σ (Solution α τ ρ)]
    {r : Running α σ τ ρ}
    (h : r.1.progress.stage = .terminated) :
    (step.start r).2.1.progress.stage = .terminated := by
  obtain ⟨f, hf⟩ := Progress.finished_of_stage h
  rw [(step_of_finished hf).1]
  exact h

end Search

section
variable [Strategy α σ] [Printed α] [ToString τ] [ToString ρ]

theorem Answers.of_before {s s' t : Search α σ τ ρ} {a a' : Except Fault β}
    (h : Answers s t a a')
    (hs : s'.progress.stage = .terminated → s.progress.stage = .terminated) :
    Answers s' t a a' := by
  cases h with
  | same => exact .same _
  | untold a under huntold => exact .untold _ (fun hover => under (hs hover)) huntold

/-- A shadow that goes on when the search itself has failed at its end does nothing more. -/
theorem Follows.bind {timed : Prop} {x : Attempt (Running α σ τ ρ) β}
    {f : β → Attempt (Running α σ τ ρ) γ} {r r' : Running α σ τ ρ} (hx : Follows timed x r r')
    (hover : r.1.progress.stage = .terminated → (x.start r).2.1.progress.stage = .terminated)
    (hquiet : ∀ a (t : Running α σ τ ρ), t.1.progress.stage = .terminated →
      ((f a).start t).2 = t)
    (hf : ∀ a, (x.start r).1 = .ok a → Follows timed (f a) (x.start r).2 (x.start r').2) :
    Follows timed (x >>= f) r r' := by
  obtain ⟨hshadow, hanswers⟩ := hx
  rw [Follows, Attempt.start_bind, Attempt.start_bind]
  rcases hs : x.start r with ⟨a, t⟩
  rcases hs' : x.start r' with ⟨a', t'⟩
  rw [hs] at hshadow hanswers hover hf
  rw [hs'] at hshadow hanswers hf
  dsimp only at hshadow hanswers hover hf
  cases hanswers with
  | same =>
    cases a with
    | error e => exact ⟨hshadow, .same _⟩
    | ok a =>
      obtain ⟨hnext, hlast⟩ := hf a rfl
      exact ⟨hnext, hlast.of_before hover⟩
  | untold _ under huntold =>
    cases a' with
    | error e => exact ⟨hshadow, .untold _ under huntold⟩
    | ok a =>
      have hsame : ((f a).start t').2 = t' := by
        apply hquiet
        rw [hshadow.progress_eq]
        exact huntold.ended
      dsimp only
      rw [hsame]
      exact ⟨hshadow, .untold _ under huntold⟩

end

namespace Shadow
variable [Strategy α σ] [Printed α] [ToString τ] [ToString ρ]
variable {timed : Prop} {r r' : Running α σ τ ρ}

theorem step_of_searching [Quantity α] [Acceptance α σ (Solution α τ ρ)]
    (h : Shadow timed r r') {f : Found α τ ρ}
    (hf : r.1.progress = .searching f) : Follows timed Search.step r r' := by
  have hf' := h.progress_eq.trans hf
  obtain @⟨s, w, w', time, hplain, hclock⟩ := h
  have hblind := Search.blind_advance f s none time
  have hkeeps := (Search.blind_advance f).keeps s
  rw [Follows, Search.step_of_searching hf, Search.step_of_searching hf']
  dsimp only at hf ⊢
  rw [hblind]
  rcases hx : (Search.advance f).start s with ⟨a, t⟩
  rw [hx] at hkeeps
  have htplain : t.IsPlain := fun recorder hr => hplain recorder (hkeeps.1 ▸ hr)
  have htclock : timed → time = t.solveTime ∧ SameClock w.ticked w'.ticked := by
    intro htimed
    obtain ⟨htime, hsame⟩ := hclock htimed
    exact ⟨htime.trans hkeeps.2.symm, hsame.ticked⟩
  cases a with
  | error e => exact ⟨.of htplain htclock, .same _⟩
  | ok o =>
    obtain ⟨g, hg, hknown⟩ := Search.known_of_advance_ok hf hx
    obtain ⟨b, v, hend, hv, hb⟩ :=
      Search.conclude_cases htplain w.ticked w.ticked.now o hg hknown
    obtain ⟨b', v', hend', hv', hb'⟩ := Search.conclude_cases (s := t.disguised none time)
      (fun _ hr => nomatch hr) w'.ticked w'.ticked.now o hg hknown
    have hok : b' = .ok o := by
      rcases hb' with hok | ⟨-, huntold⟩
      · exact hok
      · exact absurd rfl huntold.recorded
    change Shadow timed ((Search.conclude w.ticked.now o).start (t, w.ticked)).2
      ((Search.conclude w'.ticked.now o).start (t.disguised none time, w'.ticked)).2 ∧ Answers s
        ((Search.conclude w.ticked.now o).start (t, w.ticked)).2.1
        ((Search.conclude w.ticked.now o).start (t, w.ticked)).1
        ((Search.conclude w'.ticked.now o).start (t.disguised none time, w'.ticked)).1
    rw [hend, hend', hok]
    constructor
    · refine .of htplain fun htimed => ?_
      obtain ⟨htime, hsame⟩ := htclock htimed
      refine ⟨?_, hv.symm.trans (hsame.ticked.trans hv')⟩
      change time + (w'.ticked.ticked.now - w'.ticked.now) =
        t.solveTime + (w.ticked.ticked.now - w.ticked.now)
      rw [htime, hsame.now, hsame.ticked.now]
    · rcases hb with rfl | ⟨rfl, huntold⟩
      · exact .same _
      · exact .untold _ (by rw [hf]; simp [Progress.stage]) huntold

theorem endIfDue (h : Shadow timed r r') {f : Found α τ ρ} (hf : r.1.progress = .searching f)
    (hknown : f.Known) (strategy : σ) : Follows timed (Search.endIfDue strategy) r r' := by
  obtain @⟨s, w, w', time, hplain, hclock⟩ := h
  rw [Follows, Search.endIfDue, Attempt.start_bind, Attempt.start_bind, Attempt.start_lift,
    Attempt.start_lift]
  cases Strategy.stops strategy with
  | error e => exact ⟨.of hplain hclock, .same _⟩
  | ok stop =>
    cases stop with
    | false => exact ⟨.of hplain hclock, .same _⟩
    | true =>
      obtain ⟨a, u, hend, hu, ha⟩ := Search.terminate_cases hplain w hf hknown
      obtain ⟨a', u', hend', hu', ha'⟩ := Search.terminate_cases (s := s.disguised none time)
        (fun _ hr => nomatch hr) w' hf hknown
      have hok : a' = .ok () := by
        rcases ha' with hok | ⟨-, huntold⟩
        · exact hok
        · exact absurd rfl huntold.recorded
      dsimp only
      rw [if_pos rfl, hend, hend', hok]
      constructor
      · refine .of hplain fun htimed => ?_
        obtain ⟨htime, hsame⟩ := hclock htimed
        exact ⟨htime, hu.symm.trans (hsame.trans hu')⟩
      · rcases ha with rfl | ⟨rfl, huntold⟩
        · exact .same _
        · exact .untold _ (by rw [hf]; simp [Progress.stage]) huntold

theorem start_of_fresh (h : Shadow timed r r') (hfresh : r.1.progress = .fresh) :
    Follows timed Search.start r r' := by
  obtain @⟨s, w, w', time, hplain, hclock⟩ := h
  dsimp only at hfresh
  have hblind := Search.blind_begin s none time
  have hkeeps := Search.blind_begin.keeps s
  obtain ⟨u, hu, hstart⟩ := Search.start_of_fresh hfresh w
  obtain ⟨u', hu', hstart'⟩ := Search.start_of_fresh (s := s.disguised none time) hfresh w'
  rw [hblind] at hstart'
  rw [Follows, hstart, hstart']
  rcases hx : Search.begin.start s with ⟨a, t⟩
  rw [hx] at hkeeps
  have htplain : t.IsPlain := fun recorder hr => hplain recorder (hkeeps.1 ▸ hr)
  have htclock : timed → time = t.solveTime ∧ SameClock w w' := by
    intro htimed
    exact ⟨(hclock htimed).1.trans hkeeps.2.symm, (hclock htimed).2⟩
  have hlogged : timed → time = t.solveTime ∧ SameClock u u' := by
    intro htimed
    obtain ⟨htime, hsame⟩ := htclock htimed
    exact ⟨htime, hu.symm.trans (hsame.trans hu')⟩
  cases a with
  | error e => exact ⟨.of htplain htclock, .same _⟩
  | ok first =>
    obtain ⟨g, hg, hknown⟩ := Search.known_of_begin_ok hx
    obtain ⟨hshadow, hanswers⟩ := (Shadow.of htplain hlogged).endIfDue hg hknown t.strategy
    exact ⟨hshadow, hanswers.of_before fun hover => by rw [hfresh] at hover; cases hover⟩

theorem start (h : Shadow timed r r') : Follows timed Search.start r r' := by
  cases hf : r.1.progress.found? with
  | none => exact h.start_of_fresh (Progress.fresh_of_found? hf)
  | some f =>
    have hf' : r'.1.progress.found? = some f := by rw [h.progress_eq, hf]
    rw [Follows, Search.start_of_found hf, Search.start_of_found hf']
    exact ⟨h, .same _⟩

variable [Quantity α] [Acceptance α σ (Solution α τ ρ)]

theorem step (h : Shadow timed r r') : Follows timed Search.step r r' := by
  have hstep : ∀ u : Running α σ τ ρ,
      Search.step.start u = (Search.start >>= fun _ => Search.step).start u := by
    intro u
    rw [Attempt.start_bind]
    rcases hx : Search.start.start u with ⟨a, t⟩
    cases a with
    | error e => exact (Search.step_of_start_error hx).1
    | ok _ =>
      obtain ⟨f, hf⟩ := Search.found_of_start_ok hx
      exact (Search.step_of_start hx hf).1
  rw [Follows, hstep r, hstep r']
  apply h.start.bind
  · exact Search.start_stays_over
  · intro _ u hover
    obtain ⟨f, hf⟩ := Progress.finished_of_stage hover
    rw [(Search.step_of_finished hf).1]
  · intro _ hok
    rcases hx : Search.start.start r with ⟨a, t⟩
    have hfollows := h.start.1
    rw [hx] at hok hfollows
    cases hok
    obtain ⟨f, hf⟩ := Search.found_of_start_ok hx
    cases hp : t.1.progress with
    | fresh =>
      rw [hp] at hf
      cases hf
    | searching g => exact hfollows.step_of_searching hp
    | finished g =>
      have hp' := hfollows.progress_eq.trans hp
      rw [Follows, (Search.step_of_finished hp).1, (Search.step_of_finished hp').1]
      exact ⟨hfollows, .same _⟩

theorem drive (n : Nat) (h : Shadow timed r r') : Follows timed (Search.drive n) r r' := by
  induction n generalizing r r' with
  | zero =>
    rw [Follows, Search.drive, Attempt.start_bind_ok (Attempt.start_get r),
      Attempt.start_bind_ok (Attempt.start_get r'), h.progress_eq]
    exact ⟨h, .same _⟩
  | succ n ih =>
    rw [Follows, Search.drive, Attempt.start_bind_ok (Attempt.start_get r),
      Attempt.start_bind_ok (Attempt.start_get r'), h.progress_eq]
    by_cases hs : r.1.progress.stage = .searching
    · rw [if_pos hs]
      apply h.step.bind
      · exact Search.step_stays_over
      · intro _ u hover
        rw [Search.drive_of_terminated n hover]
      · intro o hok
        exact ih h.step.1
    · rw [if_neg hs]
      exact ⟨h, .same _⟩

theorem solve (limit : Nat) (h : Shadow timed r r') : Follows timed (Search.solve limit) r r' := by
  apply h.start.bind
  · exact Search.start_stays_over
  · intro _ u hover
    rw [Attempt.start_bind_ok (Search.drive_of_terminated limit hover)]
    rfl
  · intro _ hok
    apply (h.start.1.drive limit).bind
    · intro hover
      rw [Search.drive_of_terminated limit hover]
      exact hover
    · intro isOver u hover
      cases isOver <;> rfl
    · intro isOver hok
      have hend := (h.start.1.drive limit).1
      cases isOver with
      | false => exact ⟨hend, .same _⟩
      | true =>
        refine ⟨hend, ?_⟩
        rw [if_pos rfl, Attempt.start_bind_ok (Attempt.start_get _),
          Attempt.start_bind_ok (Attempt.start_get _), hend.progress_eq]
        exact .same _

end Shadow
end AssignmentSearch
