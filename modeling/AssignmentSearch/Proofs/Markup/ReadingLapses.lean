import AssignmentSearch.Proofs.Markup.TokenLapses

/-!
# Lapses of nodes and values

A document lapses where collections lie too deep in each other, and a value where its text stands for
none.
-/

namespace AssignmentSearch

namespace Markup

/-- A computation with a reader of nodes that comes to no trouble but what is expected, if the trouble
behind the tokens is. That one stays what it is. -/
structure Builder.Steady {β : Type} (x : Build β) : Prop where
  expected : ∀ s, (∀ t ∈ s.trouble, t.IsExpected) → Expected (x s)
  trouble : ∀ s a s', x s = .ok (a, s') → s'.trouble = s.trouble

namespace Builder

namespace Steady

variable {β γ : Type}

@[grind ←]
theorem pure (a : β) : Steady (Pure.pure a) := ⟨fun _ _ => .pure _, fun _ _ _ h => by cases h; rfl⟩

@[grind ←]
theorem get : Steady MonadState.get := ⟨fun _ _ => .pure _, fun _ _ _ h => by cases h; rfl⟩

@[grind ←]
theorem change {f : Builder → Builder} (h : ∀ s, (f s).trouble = s.trouble) :
    Steady (modify f : Build PUnit) := by
  refine ⟨fun _ _ => .pure _, fun s a s' hs => ?_⟩
  cases hs
  exact h s

@[grind ←]
theorem throw {t : Trouble} (h : t.IsExpected) : Steady (MonadExcept.throw t : Build β) :=
  ⟨fun _ _ => .error h, fun _ _ _ hs => by cases hs⟩

@[grind ←]
theorem bind {x : Build β} {f : β → Build γ} (hx : Steady x) (hf : ∀ a, Steady (f a)) :
    Steady (x >>= f) := by
  have hbind : ∀ s, (x >>= f) s = x s >>= fun p => f p.1 p.2 := fun _ => rfl
  refine ⟨fun s hs => ?_, fun s b s' h => ?_⟩
  · rw [hbind]
    cases hp : x s with
    | error t => exact .error (hx.expected s hs t hp)
    | ok p =>
      refine (hf p.1).expected p.2 ?_
      rwa [hx.trouble s p.1 p.2 hp]
  · rw [hbind] at h
    cases hp : x s with
    | error t =>
      rw [hp] at h
      cases h
    | ok p =>
      rw [hp] at h
      exact ((hf p.1).trouble p.2 b s' h).trans (hx.trouble s p.1 p.2 hp)

@[grind ←]
theorem map {x : Build β} (f : β → γ) (hx : Steady x) : Steady (f <$> x) :=
  .bind hx fun a => .pure (f a)

end Steady

@[grind ←]
theorem steady_peek : Steady peek := by
  refine ⟨fun s hs => ?_, fun s a s' h => ?_⟩
  · rcases s with ⟨tokens, trouble, handles, nodes, anchors, depth⟩
    cases tokens with
    | nil => cases trouble with
      | none => exact .pure _
      | some t => exact .error (hs t rfl)
    | cons => exact .pure _
  · rcases s with ⟨tokens, trouble, handles, nodes, anchors, depth⟩
    cases tokens with
    | nil => cases trouble with
      | none => cases h; rfl
      | some t => cases h
    | cons => cases h; rfl

@[grind ←]
theorem steady_drop : Steady drop := .change fun _ => rfl

@[grind ←]
theorem steady_dropIf (t : Token) : Steady (dropIf t) := by grind [dropIf]

@[grind ←]
theorem steady_require (t : Token) : Steady (require t) := by grind [require]

@[grind ←]
theorem steady_nextIn (ts : List Token) : Steady (nextIn ts) := by grind [nextIn]

@[grind ←]
theorem steady_anchor : Steady anchor := by grind [anchor]

@[grind ←]
theorem steady_tag : Steady tag := by grind [tag]

@[grind ←]
theorem steady_marks : Steady marks := by grind [marks]

@[grind ←]
theorem steady_nameOf (t : Option TagText) : Steady (nameOf t) := by
  rcases t with - | ⟨handle, suffix⟩ | text <;> grind [nameOf]

@[grind ←]
theorem steady_properties : Steady properties := by grind [properties]

@[grind ←]
theorem steady_add (anchor : Option String) (n : Node) : Steady (add anchor n) := by
  have hadd : ∀ s, add anchor n s = if (anchor.bind (List.lookup · s.anchors)).isSome then
      .error .malformed else .ok (s.nodes.size, { s with
        nodes := s.nodes.push n
        anchors := (anchor.map (·, s.nodes.size)).toList ++ s.anchors }) := by
    intro s
    change (if (anchor.bind (List.lookup · s.anchors)).isSome then _ else _ : Build Nat) s = _
    split <;> rfl
  refine ⟨fun s _ => ?_, fun s a s' h => ?_⟩
  · rw [hadd]
    grind
  · rw [hadd] at h
    grind

@[grind ←]
theorem steady_nothing : Steady nothing := steady_add _ _

@[grind ←]
theorem steady_referred (name : String) : Steady (referred name) := by grind [referred]

@[grind ←]
theorem steady_absent (anchor tag : Option String) : Steady (absent anchor tag) := by grind [absent]

@[grind ←]
theorem steady_collect (anchor : Option String) (t : Tag) {x : Build Content} (h : Steady x) :
    Steady (collect anchor t x) := by
  have hrest : Steady (do
      let number ← add anchor ⟨t, .sequence []⟩
      modify fun s => { s with depth := s.depth + 1 }
      let content ← x
      modify fun s => { s with
        nodes := s.nodes.setIfInBounds number ⟨t, content⟩
        depth := s.depth - 1 }
      return number) := by
    refine .bind (steady_add _ _) fun number => .bind (.change fun _ => rfl) fun _ => ?_
    exact .bind h fun content => .bind (.change fun _ => rfl) fun _ => .pure _
  refine .bind .get fun s => ?_
  split
  · exact .bind (.throw rfl) fun _ => hrest
  · exact hrest

/-- The readers of nodes and of their parts, as far as they look for so many steps. -/
structure SteadyNodes (fuel : Nat) : Prop where
  node : ∀ block bare, Steady (node block bare fuel)
  content : ∀ block bare anchor tag, Steady (content block bare anchor tag fuel)
  nodeUnless : ∀ ts block bare, Steady (nodeUnless ts block bare fuel)
  blockItems : ∀ acc, Steady (blockItems fuel acc)
  bareItems : ∀ acc, Steady (bareItems fuel acc)
  blockEntries : ∀ acc, Steady (blockEntries fuel acc)
  flowItems : ∀ first acc, Steady (flowItems first fuel acc)
  flowPair : Steady (flowPair fuel)
  flowEntries : ∀ first acc, Steady (flowEntries first fuel acc)

theorem steadyNodes (fuel : Nat) : SteadyNodes fuel := by
  induction fuel with
  | zero => constructor <;> intros <;> exact .throw trivial
  | succ fuel ih =>
    obtain ⟨hnode, hcontent, hunless, hblockItems, hbareItems, hblockEntries, hflowItems, hflowPair,
      hflowEntries⟩ := ih
    constructor
    case node => grind [node]
    case content => grind [content]
    case nodeUnless => grind [nodeUnless]
    case blockItems => grind [blockItems]
    case bareItems => grind [bareItems]
    case blockEntries => grind [blockEntries]
    case flowItems => grind [flowItems]
    case flowPair => grind [flowPair]
    case flowEntries => grind [flowEntries]

@[grind ←]
theorem steady_directives (fuel versions : Nat) (handles : List (String × String)) :
    Steady (directives fuel versions handles) := by
  induction fuel generalizing versions handles with
  | zero => exact .throw trivial
  | succ fuel ih => grind [directives]

@[grind ←]
theorem steady_endMarks (fuel : Nat) : Steady (endMarks fuel) := by
  induction fuel with
  | zero => exact .pure _
  | succ fuel ih => grind [endMarks]

@[grind ←]
theorem steady_finish (fuel : Nat) : Steady (finish fuel) := by grind [finish]

theorem steady_document (fuel : Nat) : Steady (document fuel) := by
  have hnode := (steadyNodes fuel).node true false
  refine .bind steady_peek fun first? => ?_
  cases first? with
  | none => exact .pure _
  | some first =>
    dsimp only
    split
    case h_1 | h_2 =>
      rw [if_pos rfl]
      refine .bind (steady_directives _ _ _) fun _ => .bind (steady_require _) fun _ => ?_
      refine .bind steady_peek fun next? => ?_
      grind
    case h_3 =>
      rw [if_neg Bool.false_ne_true]
      refine .bind steady_peek fun next? => ?_
      grind

end Builder

theorem Nodes.expected_ofTokens (tokens : List Token) {trouble : Option Trouble}
    (h : ∀ t ∈ trouble, t.IsExpected) : Expected (Nodes.ofTokens tokens trouble) :=
  .bind ((Builder.steady_document _).expected _ h) fun _ => .pure _

namespace Merge

@[grind ←]
theorem tame_node (number : Nat) : Tame (node number) := by grind [node]

@[grind ←]
theorem tame_change (number : Nat) (f : Node → Node) : Tame (change number f) := .change _

@[grind ←]
theorem tame_hold (number : Nat) (l : List (Nat × Nat)) : Tame (hold number l) := tame_change _ _

@[grind ←]
theorem tame_entries (number : Nat) : Tame (entries number) := by grind [entries]

@[grind ←]
theorem tame_flattenFrom (fuel number : Nat) (merged : List (Nat × Nat)) :
    Tame (flattenFrom fuel number merged) := by
  induction fuel generalizing number merged with
  | zero => exact .throw trivial
  | succ fuel ih =>
    have hpart : ∀ k, Tame (do
        let _ ← entries k
        flattenFrom fuel k []
        entries k) := by grind
    refine .bind (tame_entries number) fun own => .bind .get fun nodes => ?_
    split
    · refine .bind (tame_node _) fun key => ?_
      split
      · grind
      · refine .bind (tame_hold _ _) fun _ => .bind (tame_node _) fun value => ?_
        split
        · exact .bind (.mapM hpart _) fun parts => ih _ _
        · exact .bind (hpart _) fun added => ih _ _
    · exact tame_hold _ _

theorem tame_flatten (number : Nat) : Tame (flatten number) := by grind [flatten]

end Merge

namespace Maker

@[grind ←]
theorem tame_node (number : Nat) : Tame (node number) := by grind [node]

@[grind ←]
theorem tame_scalarText (fuel number : Nat) : Tame (scalarText fuel number) := by
  induction fuel generalizing number with
  | zero => exact .throw rfl
  | succ fuel ih => grind [scalarText]

@[grind ←]
theorem tame_plainValue (number : Nat) : Tame (plainValue number) := by
  refine .bind (tame_node number) fun n => ?_
  grind [Fault.isLapse]

@[grind ←]
theorem tame_value (number : Nat) : Tame (value number) := by
  refine .bind .get fun s => ?_
  grind

@[grind ←]
theorem tame_items (number : Nat) : Tame (items number) := by grind [items]

@[grind ←]
theorem tame_entries (number : Nat) : Tame (entries number) := by
  refine .bind (tame_node number) fun n => ?_
  split
  · refine .bind .get fun s => .bind (.lift (Merge.tame_flatten number s.nodes)) fun r => ?_
    grind
  · exact .throw trivial

@[grind ←]
theorem tame_fields (l : List (Nat × Nat)) (acc : List (Datum × Made)) : Tame (fields l acc) := by
  induction l generalizing acc with
  | nil => exact .pure acc
  | cons e l ih => grind [fields]

@[grind ←]
theorem tame_pair (number : Nat) : Tame (pair number) := by grind [pair]

@[grind ←]
theorem tame_filling (number : Nat) : Tame (filling number) := by
  refine .bind (tame_node number) fun n => ?_
  have hpairs := Tame.mapM tame_pair
  have hvalues := Tame.mapM tame_value
  grind

@[grind ←]
theorem tame_next? : Tame next? := by grind [next?]

@[grind ←]
theorem tame_fill (fuel : Nat) : Tame (fill fuel) := by
  induction fuel with
  | zero => exact .pure _
  | succ fuel ih => grind [fill]

theorem tame_root (number : Nat) : Tame (root number) := by grind [root]

end Maker

/-- Reading a text comes to nothing but a value, a broken rule or a lapse. -/
theorem isLapse_of_read {text : String} {f : Fault} (h : read text = .error (.fault f)) :
    f.isLapse = true := by
  have hread : Expected (read text) := by
    refine .bind (Nodes.expected_ofTokens _ (Token.expected_ofText text)) fun p => ?_
    split
    · exact .pure _
    · exact .bind (Maker.tame_root _ _) fun _ => .pure _
  exact hread _ h

end Markup

end AssignmentSearch
