import AssignmentSearch.Markup.Value

/-!
# What reading a text may come to

A text that has no value breaks the rules of the notation, or one of its parts stands for no value of
its kind: a lapse. Nothing else goes wrong while a text is read, whatever the text.
-/

namespace AssignmentSearch

/-- The faults of texts whose parts stand for no value, or for one beyond the limits. -/
def Fault.isLapse : Fault → Bool
  | .malformedFloat _ | .malformedInt _ _ | .longInt _ | .intTooLarge | .noSuchChar | .codeTooLarge
  | .noSuchCharacter | .noSuchWord _ | .noDate | .dateOfCollection | .tooDeep | .calendar _ => true
  | _ => false

/-- The kinds of lapses, which no rule on scenarios shares. -/
def Fault.lapseKinds : List FaultKind :=
  [.value, .overflow, .position, .key, .type, .attribute, .recursion]

theorem Fault.kind_of_isLapse {f : Fault} (h : f.isLapse = true) : f.kind ∈ lapseKinds := by
  cases f <;> simp [isLapse] at h <;> simp [kind, lapseKinds]

namespace Markup

def Trouble.IsExpected : Trouble → Prop
  | .malformed => True
  | .fault f => f.isLapse = true

def Expected {β : Type} (r : Except Trouble β) : Prop := ∀ t, r = .error t → t.IsExpected

/-- A computation that comes to no trouble but what is expected. -/
def Tame {σ β : Type} (x : StateT σ (Except Trouble) β) : Prop := ∀ s, Expected (x s)

@[grind ←]
theorem Trouble.isExpected_malformed : Trouble.malformed.IsExpected := trivial

@[grind =]
theorem Trouble.isExpected_fault (f : Fault) : (Trouble.fault f).IsExpected ↔ f.isLapse = true :=
  Iff.rfl

namespace Expected

variable {β γ : Type}

@[grind ←]
theorem ok (a : β) : Expected (.ok a) := fun _ h => by cases h

@[grind ←]
theorem pure (a : β) : Expected (Pure.pure a : Except Trouble β) := fun _ h => by cases h

@[grind ←]
theorem error {t : Trouble} (h : t.IsExpected) : Expected (.error t : Except Trouble β) := by
  rintro t' ⟨⟩
  exact h

@[grind ←]
theorem bind {r : Except Trouble β} {f : β → Except Trouble γ} (hr : Expected r)
    (hf : ∀ a, Expected (f a)) : Expected (r >>= f) := by
  cases r with
  | error t => exact .error (hr t rfl)
  | ok a => exact hf a

@[grind ←]
theorem map {r : Except Trouble β} (f : β → γ) (hr : Expected r) : Expected (f <$> r) := by
  cases r with
  | error t => exact .error (hr t rfl)
  | ok a => exact .ok (f a)

theorem mapM {f : β → Except Trouble γ} (hf : ∀ a, Expected (f a)) (l : List β) :
    Expected (l.mapM f) := by
  induction l with
  | nil => exact .pure []
  | cons a l ih =>
    rw [List.mapM_cons]
    exact .bind (hf a) fun b => .bind ih fun bs => .pure (b :: bs)

end Expected

namespace Tame

variable {σ β γ : Type}

@[grind ←]
theorem pure (a : β) : Tame (Pure.pure a : StateT σ (Except Trouble) β) := fun _ => .pure _

@[grind ←]
theorem get : Tame (MonadState.get : StateT σ (Except Trouble) σ) := fun _ => .pure _

@[grind ←]
theorem set (s : σ) : Tame (MonadStateOf.set s : StateT σ (Except Trouble) PUnit) :=
  fun _ => .pure _

@[grind ←]
theorem change (f : σ → σ) : Tame (modify f : StateT σ (Except Trouble) PUnit) := fun _ => .pure _

@[grind ←]
theorem throw {t : Trouble} (h : t.IsExpected) :
    Tame (MonadExcept.throw t : StateT σ (Except Trouble) β) := fun _ => .error h

@[grind ←]
theorem bind {x : StateT σ (Except Trouble) β} {f : β → StateT σ (Except Trouble) γ}
    (hx : Tame x) (hf : ∀ a, Tame (f a)) : Tame (x >>= f) :=
  fun s => .bind (hx s) fun p => hf p.1 p.2

theorem ite {p : Prop} [Decidable p] {x y : StateT σ (Except Trouble) β} (hx : Tame x)
    (hy : Tame y) : Tame (if p then x else y) := by
  split
  · exact hx
  · exact hy

@[grind ←]
theorem map {x : StateT σ (Except Trouble) β} (f : β → γ) (hx : Tame x) : Tame (f <$> x) :=
  fun s => .bind (hx s) fun _ => .pure _

@[grind ←]
theorem lift {r : Except Trouble β} (h : Expected r) :
    Tame (liftM r : StateT σ (Except Trouble) β) := fun _ => .bind h fun _ => .pure _

theorem mapM {f : β → StateT σ (Except Trouble) γ} (hf : ∀ a, Tame (f a)) (l : List β) :
    Tame (l.mapM f) := by
  induction l with
  | nil => exact .pure []
  | cons a l ih =>
    rw [List.mapM_cons]
    exact .bind (hf a) fun b => .bind ih fun bs => .pure (b :: bs)

end Tame

@[grind ←]
theorem Literal.expected_bool (s : String) : Expected (Literal.bool s) := by
  grind [Literal.bool, Fault.isLapse]

namespace Literal

@[grind ←]
theorem expected_digitsOf (base : Nat) (cs : List Char) : Expected (digitsOf base cs) := by
  grind [digitsOf, Fault.isLapse]

theorem expected_decimal (cs : List Char) : Expected (decimal cs) := by
  grind [decimal, Datum.intOfText, Fault.isLapse]

@[grind ←]
theorem expected_whole (cs : List Char) : Expected (whole cs) := by
  unfold whole
  split
  · exact .error rfl
  · exact .ok 0
  · exact expected_digitsOf 2 _
  · exact expected_digitsOf 16 _
  · exact expected_digitsOf 8 _
  · split
    · exact .map sexagesimal (.mapM expected_decimal _)
    · exact expected_decimal cs

@[grind ←]
theorem expected_solid (s : String) : Expected (solid s) := by grind [solid, Fault.isLapse]

@[grind ←]
theorem expected_int (s : String) : Expected (int s) := by grind [int]

theorem expected_real (cs : List Char) : Expected (real cs) := by grind [real, Fault.isLapse]

@[grind ←]
theorem expected_addSixtieths (sum : Float) (base : Int) (xs : List Float) :
    Expected (addSixtieths sum base xs) := by
  induction xs generalizing sum base with
  | nil => exact .ok _
  | cons x xs ih => grind [addSixtieths, Fault.isLapse]

@[grind ←]
theorem expected_float (s : String) : Expected (float s) := by
  refine .bind (expected_solid s) fun cs => ?_
  have hparts := Expected.mapM expected_real (cutAt ':' (Reading.sign (lowerCase cs)).2)
  grind [expected_real]

end Literal

namespace Stamp

@[grind ←]
theorem expected_value (t : Stamp) : Expected t.value := by grind [value, Fault.isLapse]

@[grind ←]
theorem expected_ofText (s : String) : Expected (ofText s) := by grind [ofText, Fault.isLapse]

end Stamp

@[grind ←]
theorem Tag.expected_valueOf (tag : Tag) (text : String) : Expected (tag.valueOf text) := by
  cases tag <;> grind [Tag.valueOf, Tag.bytesOf]

end Markup

end AssignmentSearch
