import AssignmentSearch.Markup.Value
import AssignmentSearch.Proofs.Markup.Layouts

/-!
# The values of the nodes of JSON text

Collections are filled after those met before them, until none is left. Then the value of a node is
the data that the node shows, as far down as values are read.
-/

namespace AssignmentSearch

namespace Markup

/-! ## What nodes make -/

def madeOf (nodes : Nodes) (n : Nat) : Made :=
  match nodes[n]? with
  | some ⟨tag, .scalar text⟩ => .plain ((tag.valueOf text).toOption.getD .null)
  | _ => .collection n

def plainOf (nodes : Nodes) (n : Nat) : Datum :=
  match madeOf nodes n with
  | .plain d => d
  | .collection _ => .null

def partsOf (nodes : Nodes) (n : Nat) : List Nat :=
  match nodes[n]? with
  | some ⟨_, .sequence numbers⟩ => numbers
  | some ⟨_, .mapping numbers⟩ => numbers.map (·.2)
  | _ => []

def fillingOf (nodes : Nodes) (n : Nat) : Filling :=
  match nodes[n]? with
  | some ⟨_, .mapping numbers⟩ => .dict (numbers.map fun e => (plainOf nodes e.1, madeOf nodes e.2))
  | _ => .list ((partsOf nodes n).map (madeOf nodes))

def IsShown (nodes : Nodes) (n : Nat) : Prop := ∃ d, Shows nodes 0 n d

namespace Maker

def madeAt (s : Maker) (n : Nat) : Option Made := s.made.getD n none

/-- How much is left to do: the nodes without a value, and the collections to fill. -/
def cost (s : Maker) : Nat := s.made.toList.countP Option.isNone + s.waiting.length + s.later.length

/-- The collection of a node is filled, and its parts are made. -/
structure IsFilled (nodes : Nodes) (s : Maker) (n : Nat) : Prop where
  filling : s.fillings.getD n none = some (fillingOf nodes n)
  parts : ∀ m ∈ partsOf nodes n, (s.madeAt m).isSome

/-- A maker that makes the values of `nodes`. A collection is filled unless it waits, or is one of
those in `opened`. -/
structure Makes (nodes : Nodes) (opened : List Nat) (s : Maker) : Prop where
  same : s.nodes = nodes
  size : s.made.size = nodes.size
  fillings : s.fillings.size = nodes.size
  made : ∀ n x, s.madeAt n = some x → x = madeOf nodes n
  shown : ∀ n ∈ s.waiting ++ s.later, IsShown nodes n ∧ madeOf nodes n = .collection n
  filled : ∀ n, s.madeAt n = some (.collection n) →
    n ∈ s.waiting ++ s.later ++ opened ∨ s.IsFilled nodes n

/-- A maker goes on from `s` to `s'` without filling a collection. -/
structure Goes (s s' : Maker) : Prop where
  waiting : s'.waiting = s.waiting
  later : ∀ n ∈ s.later, n ∈ s'.later
  fillings : s'.fillings = s.fillings
  made : ∀ n x, s.madeAt n = some x → s'.madeAt n = some x
  cost : s'.cost ≤ s.cost

theorem Goes.refl (s : Maker) : Goes s s :=
  ⟨rfl, fun _ h => h, rfl, fun _ _ h => h, Nat.le_refl _⟩

theorem Goes.trans {s s' s'' : Maker} (h : Goes s s') (h' : Goes s' s'') : Goes s s'' :=
  ⟨h'.waiting.trans h.waiting, fun n hn => h'.later n (h.later n hn), h'.fillings.trans h.fillings,
    fun n x hx => h'.made n x (h.made n x hx), h'.cost.trans h.cost⟩

theorem Goes.isSome {s s' : Maker} (h : Goes s s') {n : Nat} (hn : (s.madeAt n).isSome) :
    (s'.madeAt n).isSome := by
  obtain ⟨x, hx⟩ := Option.isSome_iff_exists.mp hn
  exact Option.isSome_iff_exists.mpr ⟨x, h.made n x hx⟩

/-! ## Scalars -/

theorem known_of_valueOf {tag : Tag} {text : String} {d : Datum} (h : tag.valueOf text = .ok d) :
    tag.isCollection = false ∧ tag ≠ .merge ∧ tag ≠ .value := by
  cases tag <;> first | exact ⟨rfl, by decide, by decide⟩ | cases h

theorem node_apply {s : Maker} {n : Nat} {x : Node} (h : s.nodes[n]? = some x) :
    node n s = .ok (x, s) := by
  rw [node, bind_apply, get_apply, ok_bind]
  simp only [h]
  rfl

theorem plainValue_apply {s : Maker} {n : Nat} {tag : Tag} {text : String} {d : Datum}
    (h : s.nodes[n]? = some ⟨tag, .scalar text⟩) (hvalue : tag.valueOf text = .ok d) :
    plainValue n s = .ok (d, s) := by
  have htext : scalarText (s.nodes.size + 1) n s = .ok (text, s) := by
    rw [scalarText, bind_apply, node_apply h, ok_bind]
    rfl
  rw [plainValue, bind_apply, node_apply h, ok_bind]
  cases tag <;> first
    | cases hvalue; done
    | (simp only [Bool.not_true, Bool.false_eq_true, if_false]
       rw [bind_apply, get_apply, ok_bind, bind_apply, htext, ok_bind]
       simp only [hvalue]
       rfl)

/-! ## Values -/

theorem kinds_of_isShown {nodes : Nodes} {n : Nat} (h : IsShown nodes n) :
    (∃ tag text d, nodes[n]? = some ⟨tag, .scalar text⟩ ∧ tag.valueOf text = .ok d ∧
      madeOf nodes n = .plain d) ∨
    ∃ node, nodes[n]? = some node ∧ node.tag.isCollection = true ∧ madeOf nodes n = .collection n := by
  obtain ⟨d, h⟩ := h
  cases h with
  | @scalar _ tag text _ value hlow hnode hvalue _ =>
    refine .inl ⟨tag, text, value, hnode, hvalue, ?_⟩
    simp only [madeOf, hnode, hvalue]
    rfl
  | list hlow hnode => exact .inr ⟨_, hnode, rfl, by simp only [madeOf, hnode]⟩
  | dict hlow hnode => exact .inr ⟨_, hnode, rfl, by simp only [madeOf, hnode]⟩

/-- A maker that has made the value of one more node; a collection is to be filled later. -/
def gain (s : Maker) (n : Nat) (x : Made) (isCollection : Bool) : Maker :=
  { s with
    made := s.made.setIfInBounds n (some x)
    later := if isCollection then n :: s.later else s.later }

theorem madeAt_gain {s : Maker} {n : Nat} (hn : n < s.made.size) (x : Made) (isCollection : Bool) (m : Nat) :
    (s.gain n x isCollection).madeAt m = if n = m then some x else s.madeAt m := by
  simp only [madeAt, gain, Array.getD_eq_getD_getElem?, Array.getElem?_setIfInBounds, hn, if_true]
  split <;> rfl

theorem cost_gain {s : Maker} {n : Nat} (hn : n < s.made.size) (hnone : s.madeAt n = none) (x : Made)
    (isCollection : Bool) : (s.gain n x isCollection).cost ≤ s.cost := by
  have hlist : n < s.made.toList.length := by simpa using hn
  have hisNone : (s.made.toList[n]).isNone = true := by
    rw [madeAt, Array.getD_eq_getD_getElem?, Array.getElem?_eq_getElem hn] at hnone
    simpa using hnone
  have hcount : 0 < s.made.toList.countP Option.isNone :=
    List.countP_pos_iff.mpr ⟨_, List.getElem_mem hlist, hisNone⟩
  have hlater : (s.gain n x isCollection).later.length ≤ s.later.length + 1 := by
    simp only [gain]
    split <;> simp
  have hmade : (s.gain n x isCollection).made.toList.countP Option.isNone + 1 =
      s.made.toList.countP Option.isNone := by
    simp only [gain, Array.toList_setIfInBounds, List.countP_set hlist, hisNone, if_true, Option.isNone_some,
      Bool.false_eq_true, if_false]
    omega
  have hwaiting : (s.gain n x isCollection).waiting = s.waiting := rfl
  rw [cost, cost, hwaiting]
  omega

theorem Goes.gain {s : Maker} {n : Nat} (hn : n < s.made.size) (hnone : s.madeAt n = none) (x : Made)
    (isCollection : Bool) : Goes s (s.gain n x isCollection) := by
  refine ⟨rfl, fun m hm => ?_, rfl, fun m y hy => ?_, cost_gain hn hnone x isCollection⟩
  · simp only [Maker.gain]
    split
    · exact List.mem_cons_of_mem _ hm
    · exact hm
  · have hne : n ≠ m := by
      rintro rfl
      rw [hnone] at hy
      cases hy
    rw [madeAt_gain hn, if_neg hne, hy]

theorem IsFilled.goes {nodes : Nodes} {s s' : Maker} {n : Nat} (h : s.IsFilled nodes n) (hgoes : Goes s s') :
    s'.IsFilled nodes n :=
  ⟨by rw [hgoes.fillings, h.filling], fun m hm => hgoes.isSome (h.parts m hm)⟩

theorem Makes.gain {nodes : Nodes} {opened : List Nat} {s : Maker} (h : Makes nodes opened s) {n : Nat}
    (hn : n < nodes.size) (hnone : s.madeAt n = none) {isCollection : Bool} (hshown : IsShown nodes n)
    (hkind : isCollection = true ↔ madeOf nodes n = .collection n) :
    Makes nodes opened (s.gain n (madeOf nodes n) isCollection) := by
  have hsize : n < s.made.size := h.size ▸ hn
  have hgoes := Goes.gain hsize hnone (madeOf nodes n) isCollection
  refine ⟨h.same, ?_, h.fillings, fun m x hx => ?_, fun m hm => ?_, fun m hm => ?_⟩
  · simp only [Maker.gain, Array.size_setIfInBounds, h.size]
  · rw [madeAt_gain hsize] at hx
    split at hx
    · next heq => cases hx; rw [heq]
    · exact h.made m x hx
  · rcases List.mem_append.mp hm with hm | hm
    · exact h.shown m (List.mem_append_left _ hm)
    · simp only [Maker.gain] at hm
      split at hm
      · rcases List.mem_cons.mp hm with rfl | hm
        · exact ⟨hshown, hkind.mp ‹_›⟩
        · exact h.shown m (List.mem_append_right _ hm)
      · exact h.shown m (List.mem_append_right _ hm)
  · rw [madeAt_gain hsize] at hm
    split at hm
    · next heq =>
      subst heq
      refine .inl (List.mem_append_left _ (List.mem_append_right _ ?_))
      simp only [Maker.gain, if_pos (hkind.mpr (Option.some.inj hm)), List.mem_cons_self]
    · rcases h.filled m hm with hin | hfilled
      · rw [List.mem_append, List.mem_append] at hin ⊢
        exact .inl (hin.imp_left (Or.imp_right (hgoes.later m)))
      · exact .inr (hfilled.goes hgoes)

theorem value_apply {nodes : Nodes} {opened : List Nat} {s : Maker} (h : Makes nodes opened s) {n : Nat}
    (hshown : IsShown nodes n) :
    ∃ s', value n s = .ok (madeOf nodes n, s') ∧ Makes nodes opened s' ∧ Goes s s' ∧
      (s'.madeAt n).isSome := by
  cases hmade : s.madeAt n with
  | some x =>
    refine ⟨s, ?_, h, .refl s, by rw [hmade]; rfl⟩
    rw [value, bind_apply, get_apply, ok_bind]
    rw [madeAt] at hmade
    simp only [hmade]
    rw [h.made n x hmade]
    rfl
  | none =>
    have hn : n < nodes.size := by
      rcases kinds_of_isShown hshown with ⟨_, _, _, hnode, -⟩ | ⟨_, hnode, -⟩ <;>
        exact lt_size_of_getElem? hnode
    have hsize : n < s.made.size := h.size ▸ hn
    have hgoes {isCollection : Bool} := Goes.gain hsize hmade (madeOf nodes n) isCollection
    have hsome {isCollection : Bool} : ((s.gain n (madeOf nodes n) isCollection).madeAt n).isSome := by
      rw [madeAt_gain hsize, if_pos rfl]
      rfl
    have hnone : s.made.getD n none = none := hmade
    rcases kinds_of_isShown hshown with ⟨tag, text, d, hnode, hvalue, hkind⟩ | ⟨node, hnode, htag, hkind⟩
    · refine ⟨s.gain n (madeOf nodes n) false, ?_, h.gain hn hmade hshown ?_, hgoes, hsome⟩
      · rw [← h.same] at hnode
        rw [value, bind_apply, get_apply, ok_bind]
        simp only [hnone]
        rw [bind_apply, node_apply hnode, ok_bind, hkind]
        simp only [(known_of_valueOf hvalue).1, Bool.false_eq_true, if_false]
        rw [bind_apply, map_apply Made.plain (plainValue_apply hnode hvalue), ok_bind]
        rfl
      · simp [hkind]
    · refine ⟨s.gain n (madeOf nodes n) true, ?_, h.gain hn hmade hshown ?_, hgoes, hsome⟩
      · rw [← h.same] at hnode
        rw [value, bind_apply, get_apply, ok_bind]
        simp only [hnone]
        rw [bind_apply, node_apply hnode, ok_bind, hkind]
        simp only [htag, if_true]
        rfl
      · simp [hkind]

/-! ## Fillings -/

theorem mapM_value_apply {nodes : Nodes} {opened : List Nat} {numbers : List Nat}
    (hshown : ∀ n ∈ numbers, IsShown nodes n) {s : Maker} (h : Makes nodes opened s) :
    ∃ s', numbers.mapM value s = .ok (numbers.map (madeOf nodes), s') ∧ Makes nodes opened s' ∧ Goes s s' ∧
      ∀ n ∈ numbers, (s'.madeAt n).isSome := by
  induction numbers generalizing s with
  | nil => exact ⟨s, rfl, h, .refl s, nofun⟩
  | cons n numbers ih =>
    rw [List.forall_mem_cons] at hshown
    obtain ⟨s₁, hvalue, hmakes, hgoes, hsome⟩ := value_apply h hshown.1
    obtain ⟨s₂, hvalues, hmakes', hgoes', hsomes⟩ := ih hshown.2 hmakes
    refine ⟨s₂, ?_, hmakes', hgoes.trans hgoes', List.forall_mem_cons.mpr ⟨hgoes'.isSome hsome, hsomes⟩⟩
    rw [List.mapM_cons, bind_apply, hvalue, ok_bind, bind_apply, hvalues, ok_bind]
    rfl

/-- A key of a mapping: a scalar whose value is a text. -/
def IsName (nodes : Nodes) (n : Nat) : Prop :=
  IsShown nodes n ∧ ∃ name, madeOf nodes n = .plain (.str name)

theorem plainOf_of_isName {nodes : Nodes} {n : Nat} (h : IsName nodes n) :
    ∃ name, plainOf nodes n = .str name ∧ madeOf nodes n = .plain (.str name) := by
  obtain ⟨-, name, hname⟩ := h
  exact ⟨name, by simp only [plainOf, hname], hname⟩

theorem sameKey_of_isName {nodes : Nodes} {m n : Nat} (hm : IsName nodes m) (hn : IsName nodes n)
    (hne : plainOf nodes m ≠ plainOf nodes n) : (plainOf nodes m).sameKey (plainOf nodes n) = false := by
  obtain ⟨name, hname, -⟩ := plainOf_of_isName hm
  obtain ⟨name', hname', -⟩ := plainOf_of_isName hn
  rw [hname, hname'] at hne ⊢
  simpa [Datum.sameKey] using hne

theorem fields_apply {nodes : Nodes} {opened : List Nat} {numbers : List (Nat × Nat)}
    (done : List (Nat × Nat)) (hnames : ∀ e ∈ done ++ numbers, IsName nodes e.1) (hvalues : ∀ e ∈ numbers, IsShown nodes e.2)
    (hdistinct : ((done ++ numbers).map fun e => plainOf nodes e.1).Nodup) {s : Maker}
    (h : Makes nodes opened s) :
    ∃ s', fields numbers (done.map fun e => (plainOf nodes e.1, madeOf nodes e.2)) s =
        .ok ((done ++ numbers).map fun e => (plainOf nodes e.1, madeOf nodes e.2), s') ∧
      Makes nodes opened s' ∧ Goes s s' ∧ ∀ e ∈ numbers, (s'.madeAt e.2).isSome := by
  induction numbers generalizing done s with
  | nil => exact ⟨s, by rw [List.append_nil]; rfl, h, .refl s, nofun⟩
  | cons e numbers ih =>
    obtain ⟨key, val⟩ := e
    rw [List.append_cons] at hnames hdistinct
    rw [List.forall_mem_cons] at hvalues
    have hkey : IsName nodes key :=
      hnames (key, val) (List.mem_append_left _ (List.mem_append_right _ (List.mem_singleton_self _)))
    obtain ⟨name, hplain, hname⟩ := plainOf_of_isName hkey
    obtain ⟨s₁, hvalue, hmakes, hgoes, -⟩ := value_apply h hkey.1
    obtain ⟨s₂, hvalue', hmakes', hgoes', hsome⟩ := value_apply hmakes hvalues.1
    obtain ⟨s₃, hfields, hmakes'', hgoes'', hsomes⟩ := ih _ hnames hvalues.2 hdistinct hmakes'
    have hput : Datum.put (done.map fun e => (plainOf nodes e.1, madeOf nodes e.2)) (.str name)
        (madeOf nodes val) = (done ++ [(key, val)]).map fun e => (plainOf nodes e.1, madeOf nodes e.2) := by
      rw [Datum.put_of_fresh, List.map_append, List.map_singleton, hplain]
      intro a ha
      obtain ⟨e, he, rfl⟩ := List.mem_map.mp ha
      rw [← hplain]
      refine sameKey_of_isName (hnames e (List.mem_append_left _ (List.mem_append_left _ he))) hkey ?_
      rw [List.map_append, List.map_append] at hdistinct
      exact (List.nodup_append.mp hdistinct.of_append_left).2.2 _ (List.mem_map_of_mem he) _
        (List.mem_singleton_self _)
    refine ⟨s₃, ?_, hmakes'', (hgoes.trans hgoes').trans hgoes'',
      List.forall_mem_cons.mpr ⟨hgoes''.isSome hsome, hsomes⟩⟩
    rw [fields, bind_apply, hvalue, ok_bind, hname]
    simp only
    rw [bind_apply, hvalue', ok_bind, hput, hfields, ← List.append_cons]

theorem flatten_apply {nodes : Nodes} {n : Nat} {tag : Tag} {numbers : List (Nat × Nat)}
    (hnode : nodes[n]? = some ⟨tag, .mapping numbers⟩)
    (hnames : ∀ e ∈ numbers, Merge.isSpecial nodes e.1 = false) :
    Merge.flatten n nodes = .ok ((), nodes) := by
  have hentries : Merge.entries n nodes = .ok (numbers, nodes) := by
    have hread : Merge.node n nodes = .ok (⟨tag, .mapping numbers⟩, nodes) := by
      rw [Merge.node, bind_apply, get_apply, ok_bind]
      simp only [hnode]
      rfl
    rw [Merge.entries, bind_apply, hread, ok_bind]
    rfl
  have hnone : numbers.findIdx? (fun e => Merge.isSpecial nodes e.1) = none := by
    rw [List.findIdx?_eq_none_iff]
    exact hnames
  have hsame : nodes.modify n (fun x => { x with content := .mapping numbers }) = nodes := by
    apply Array.ext_getElem?
    intro i
    rw [Array.getElem?_modify]
    split
    · next heq =>
      subst heq
      rw [hnode]
      rfl
    · rfl
  rw [Merge.flatten, bind_apply, get_apply, ok_bind, Merge.flattenFrom, bind_apply, hentries, ok_bind,
    bind_apply, get_apply, ok_bind]
  simp only [hnone]
  rw [Merge.hold, Merge.change, modify_apply, List.nil_append, hsame]

section

variable {β γ δ : Type} {xs : List β} {ys : List γ}

theorem exists_mem_zip (hlength : xs.length = ys.length) {x : β} (hx : x ∈ xs) :
    ∃ y, (x, y) ∈ xs.zip ys := by
  have hfst : (xs.zip ys).map Prod.fst = xs := List.map_fst_zip hlength.le
  rw [← hfst] at hx
  obtain ⟨p, hp, rfl⟩ := List.mem_map.mp hx
  exact ⟨p.2, hp⟩

theorem map_eq_map_of_zip (hlength : xs.length = ys.length) {f : β → δ} {g : γ → δ}
    (h : ∀ p ∈ xs.zip ys, f p.1 = g p.2) : xs.map f = ys.map g := by
  have hfst : (xs.zip ys).map Prod.fst = xs := List.map_fst_zip hlength.le
  have hsnd : (xs.zip ys).map Prod.snd = ys := List.map_snd_zip hlength.ge
  calc xs.map f = ((xs.zip ys).map Prod.fst).map f := by rw [hfst]
    _ = ((xs.zip ys).map Prod.snd).map g := by
      rw [List.map_map, List.map_map]
      exact List.map_congr_left h
    _ = ys.map g := by rw [hsnd]

end

theorem isName_of_shows {nodes : Nodes} {n : Nat} {name : String} (h : Shows nodes 0 n (.str name)) :
    IsName nodes n ∧ plainOf nodes n = .str name ∧ Merge.isSpecial nodes n = false := by
  refine ⟨⟨⟨_, h⟩, name, ?_⟩, ?_, ?_⟩ <;> cases h with
  | scalar _ hnode hvalue hseen =>
    have hname : Datum.str name = _ := hseen 0
    subst hname
    first
      | (simp only [madeOf, hnode, hvalue]; rfl)
      | (simp only [plainOf, madeOf, hnode, hvalue]; rfl)
      | simp [Merge.isSpecial, hnode, known_of_valueOf hvalue]

theorem filling_apply {nodes : Nodes} {opened : List Nat} {s : Maker} (h : Makes nodes opened s) {n : Nat}
    (hshown : IsShown nodes n) (hkind : madeOf nodes n = .collection n) :
    ∃ s', filling n s = .ok (fillingOf nodes n, s') ∧ Makes nodes opened s' ∧ Goes s s' ∧
      ∀ m ∈ partsOf nodes n, (s'.madeAt m).isSome := by
  obtain ⟨d, hshows⟩ := hshown
  cases hshows with
  | scalar _ hnode =>
    simp only [madeOf, hnode] at hkind
    cases hkind
  | @list _ numbers items _ hnode hlength hitems =>
    have hparts : partsOf nodes n = numbers := by simp only [partsOf, hnode]
    have hshown : ∀ m ∈ numbers, IsShown nodes m := by
      intro m hm
      obtain ⟨item, hitem⟩ := exists_mem_zip hlength hm
      exact ⟨item, hitems _ hitem⟩
    obtain ⟨s', hvalues, hmakes, hgoes, hsome⟩ := mapM_value_apply hshown h
    refine ⟨s', ?_, hmakes, hgoes, by rw [hparts]; exact hsome⟩
    have hnode' := hnode
    rw [← h.same] at hnode'
    have hread : Maker.items n s = .ok (numbers, s) := by
      rw [Maker.items, bind_apply, node_apply hnode', ok_bind]
      rfl
    rw [filling, bind_apply, node_apply hnode', ok_bind]
    simp only
    rw [bind_apply, hread, ok_bind, bind_apply, hvalues, ok_bind, fillingOf, hparts, hnode]
    rfl
  | @dict _ numbers fields _ hnode hlength hnames hdistinct hkeys hvalues =>
    have hparts : partsOf nodes n = numbers.map (·.2) := by simp only [partsOf, hnode]
    have hkey : ∀ p ∈ numbers.zip fields, IsName nodes p.1.1 ∧ plainOf nodes p.1.1 = p.2.1 ∧
        Merge.isSpecial nodes p.1.1 = false := by
      intro p hp
      obtain ⟨name, hname⟩ := hnames p.2 (List.of_mem_zip hp).2
      have hshows := hkeys p hp
      rw [hname] at hshows ⊢
      exact isName_of_shows hshows
    have hsame : (numbers.map fun e => plainOf nodes e.1) = fields.map fun e => e.1 :=
      map_eq_map_of_zip hlength fun p hp => (hkey p hp).2.1
    have hdifferent : (numbers.map fun e => plainOf nodes e.1).Nodup := by
      rw [hsame]
      exact List.Nodup.of_map Datum.plain (by rwa [List.map_map])
    have hname : ∀ e ∈ numbers, IsName nodes e.1 ∧ Merge.isSpecial nodes e.1 = false := by
      intro e he
      obtain ⟨x, hx⟩ := exists_mem_zip hlength he
      exact ⟨(hkey _ hx).1, (hkey _ hx).2.2⟩
    have hshown : ∀ e ∈ numbers, IsShown nodes e.2 := by
      intro e he
      obtain ⟨x, hx⟩ := exists_mem_zip hlength he
      exact ⟨_, hvalues _ hx⟩
    obtain ⟨s', hfields, hmakes, hgoes, hsome⟩ :=
      fields_apply [] (fun e he => (hname e he).1) hshown hdifferent h
    have hnode' := hnode
    rw [← h.same] at hnode'
    have hflat : Merge.flatten n s.nodes = .ok ((), s.nodes) := by
      rw [h.same]
      exact flatten_apply hnode fun e he => (hname e he).2
    have hread : entries n s = .ok (numbers, s) := by
      rw [entries, bind_apply, node_apply hnode', ok_bind]
      simp only
      rw [bind_apply, get_apply, ok_bind, StateT.run, hflat, bind_apply]
      change Except.bind (.ok (((), s.nodes), s)) _ = _
      rw [ok_bind, bind_apply, set_apply, ok_bind, bind_apply, node_apply hnode', ok_bind]
      rfl
    refine ⟨s', ?_, hmakes, hgoes, ?_⟩
    · rw [filling, bind_apply, node_apply hnode', ok_bind]
      simp only
      rw [bind_apply, hread, ok_bind, bind_apply]
      rw [List.map_nil, List.nil_append] at hfields
      rw [hfields, ok_bind, fillingOf, hnode]
      rfl
    · rw [hparts, List.forall_mem_map]
      exact hsome

/-! ## Filling -/

theorem next_apply {nodes : Nodes} {s : Maker} (h : Makes nodes [] s) :
    (next? s = .ok (none, s) ∧ s.waiting = [] ∧ s.later = []) ∨
    ∃ n s', next? s = .ok (some n, s') ∧ Makes nodes [n] s' ∧ IsShown nodes n ∧
      madeOf nodes n = .collection n ∧ s'.made = s.made ∧ s'.cost + 1 = s.cost := by
  -- whatever queue the collection comes from, the same ones are left
  have htake (n : Nat) (waiting later : List Nat) (hperm : (n :: (waiting ++ later)).Perm (s.waiting ++ s.later)) :
      Makes nodes [n] { s with waiting, later } ∧ IsShown nodes n ∧ madeOf nodes n = .collection n ∧
        Maker.cost { s with waiting, later } + 1 = s.cost := by
    have hmem {m : Nat} : m ∈ s.waiting ++ s.later ↔ m = n ∨ m ∈ waiting ++ later := by
      rw [← hperm.mem_iff, List.mem_cons]
    obtain ⟨hshown, hkind⟩ := h.shown n (hmem.mpr (.inl rfl))
    refine ⟨⟨h.same, h.size, h.fillings, h.made, fun m hm => h.shown m (hmem.mpr (.inr hm)), fun m hm => ?_⟩,
      hshown, hkind, ?_⟩
    · rcases h.filled m hm with hin | hfilled
      · rw [List.append_nil, hmem] at hin
        rw [List.mem_append, List.mem_singleton]
        exact .inl hin.symm
      · exact .inr ⟨hfilled.filling, hfilled.parts⟩
    · have hlength := hperm.length_eq
      simp only [List.length_cons, List.length_append] at hlength
      simp only [cost]
      omega
  cases hwaiting : s.waiting with
  | cons n rest =>
    have hnext : next? s = .ok (some n, { s with waiting := rest }) := by
      rw [next?, bind_apply, get_apply, ok_bind]
      simp only [hwaiting]
      rfl
    obtain ⟨hmakes, hshown, hkind, hcost⟩ := htake n rest s.later
      (by rw [hwaiting]; exact List.Perm.refl _)
    exact .inr ⟨n, _, hnext, hmakes, hshown, hkind, rfl, hcost⟩
  | nil =>
    cases hlater : s.later.reverse with
    | nil =>
      refine .inl ⟨?_, rfl, List.reverse_eq_nil_iff.mp hlater⟩
      rw [next?, bind_apply, get_apply, ok_bind]
      simp only [hwaiting, hlater]
      rfl
    | cons n rest =>
      have hnext : next? s = .ok (some n, { s with waiting := rest, later := [] }) := by
        rw [next?, bind_apply, get_apply, ok_bind]
        simp only [hwaiting, hlater]
        rfl
      obtain ⟨hmakes, hshown, hkind, hcost⟩ := htake n rest []
        (by rw [hwaiting, List.append_nil, ← hlater]; exact s.later.reverse_perm)
      exact .inr ⟨n, _, hnext, hmakes, hshown, hkind, rfl, hcost⟩

theorem Makes.fill {nodes : Nodes} {s : Maker} {n : Nat} (h : Makes nodes [n] s) (hn : n < nodes.size)
    (hparts : ∀ m ∈ partsOf nodes n, (s.madeAt m).isSome) :
    Makes nodes [] { s with fillings := s.fillings.setIfInBounds n (some (fillingOf nodes n)) } := by
  refine ⟨h.same, h.size, by simp only [Array.size_setIfInBounds, h.fillings], h.made, h.shown, fun m hm => ?_⟩
  by_cases heq : n = m
  · subst heq
    refine .inr ⟨?_, hparts⟩
    simp only [Array.getD_eq_getD_getElem?, Array.getElem?_setIfInBounds, h.fillings, hn, if_true,
      Option.getD_some]
  · rcases h.filled m hm with hin | hfilled
    · rw [List.mem_append, List.mem_singleton] at hin
      rw [List.append_nil]
      exact .inl (hin.resolve_right (Ne.symm heq))
    · refine .inr ⟨?_, hfilled.parts⟩
      rw [← hfilled.filling]
      simp only [Array.getD_eq_getD_getElem?, Array.getElem?_setIfInBounds_ne heq]

/-- All collections are filled in the end. -/
theorem fill_apply {nodes : Nodes} {fuel : Nat} {s : Maker} (h : Makes nodes [] s) (hfuel : s.cost < fuel) :
    ∃ s', fill fuel s = .ok ((), s') ∧ Makes nodes [] s' ∧ s'.waiting = [] ∧ s'.later = [] ∧
      ∀ n x, s.madeAt n = some x → s'.madeAt n = some x := by
  induction fuel generalizing s with
  | zero => omega
  | succ fuel ih =>
    rcases next_apply h with ⟨hnext, hwaiting, hlater⟩ | ⟨n, s₁, hnext, hmakes, hshown, hkind, hmade, hcost⟩
    · refine ⟨s, ?_, h, hwaiting, hlater, fun _ _ hx => hx⟩
      rw [fill, bind_apply, hnext, ok_bind]
      rfl
    · obtain ⟨s₂, hfilling, hmakes', hgoes, hparts⟩ := filling_apply hmakes hshown hkind
      have hn : n < nodes.size := by
        rcases kinds_of_isShown hshown with ⟨_, _, _, hnode, -⟩ | ⟨_, hnode, -⟩ <;>
          exact lt_size_of_getElem? hnode
      have hless : s₂.cost < fuel := by
        have := hgoes.cost
        omega
      obtain ⟨s', hfill, hmakes'', hwaiting, hlater, hkept⟩ := ih (hmakes'.fill hn hparts) hless
      refine ⟨s', ?_, hmakes'', hwaiting, hlater, fun m x hx => hkept m x (hgoes.made m x ?_)⟩
      · rw [fill, bind_apply, hnext, ok_bind]
        simp only
        rw [bind_apply, hfilling, ok_bind, bind_apply, modify_apply, ok_bind, hfill]
      · rw [madeAt, hmade]
        exact hx

/-! ## Values of documents -/

/-- When all collections are filled, the value of a node is the data that it shows. -/
theorem unfold_of_shows {nodes : Nodes} {s : Maker} (h : Makes nodes [] s) (hwaiting : s.waiting = [])
    (hlater : s.later = []) {depth n : Nat} {d : Datum} (hshows : Shows nodes 0 n d)
    (hsome : (s.madeAt n).isSome) :
    unfold s.fillings depth (madeOf nodes n) = Json.seen depth d := by
  have hfilled {m : Nat} (hm : (s.madeAt m).isSome) (hkind : madeOf nodes m = .collection m) :
      s.IsFilled nodes m := by
    obtain ⟨x, hx⟩ := Option.isSome_iff_exists.mp hm
    rw [h.made m x hx, hkind] at hx
    refine (h.filled m hx).resolve_left ?_
    simp [hwaiting, hlater]
  induction depth generalizing n d with
  | zero =>
    cases hshows with
    | scalar _ hnode hvalue hseen =>
      simp only [madeOf, hnode, hvalue, hseen]
      rfl
    | list _ hnode hlength hitems =>
      have hkind : madeOf nodes n = .collection n := by simp only [madeOf, hnode]
      rw [hkind, unfold, (hfilled hsome hkind).filling, fillingOf, hnode]
      rfl
    | dict _ hnode hlength hnames hdistinct hkeys hvalues =>
      have hkind : madeOf nodes n = .collection n := by simp only [madeOf, hnode]
      rw [hkind, unfold, (hfilled hsome hkind).filling, fillingOf, hnode]
      rfl
  | succ depth ih =>
    cases hshows with
    | scalar _ hnode hvalue hseen =>
      simp only [madeOf, hnode, hvalue, hseen]
      rfl
    | @list _ numbers items _ hnode hlength hitems =>
      have hkind : madeOf nodes n = .collection n := by simp only [madeOf, hnode]
      have hparts : partsOf nodes n = numbers := by simp only [partsOf, hnode]
      rw [hkind, unfold, (hfilled hsome hkind).filling, fillingOf, hnode]
      simp only [hparts, List.map_map, Json.seen]
      congr 1
      refine map_eq_map_of_zip hlength fun p hp => ih (hitems p hp) ?_
      exact (hfilled hsome hkind).parts p.1 (hparts ▸ (List.of_mem_zip hp).1)
    | @dict _ numbers fields _ hnode hlength hnames hdistinct hkeys hvalues =>
      have hkind : madeOf nodes n = .collection n := by simp only [madeOf, hnode]
      have hparts : partsOf nodes n = numbers.map (·.2) := by simp only [partsOf, hnode]
      rw [hkind, unfold, (hfilled hsome hkind).filling, fillingOf, hnode]
      simp only [List.map_map, Json.seen]
      congr 1
      refine map_eq_map_of_zip hlength fun p hp => ?_
      obtain ⟨name, hname⟩ := hnames p.2 (List.of_mem_zip hp).2
      have hkey := hkeys p hp
      rw [hname] at hkey
      have hvalue := ih (hvalues p hp) ((hfilled hsome hkind).parts p.1.2
        (hparts ▸ List.mem_map_of_mem (List.of_mem_zip hp).1))
      simp only [Function.comp_apply, (isName_of_shows hkey).2.1, hname, hvalue]

def start (nodes : Nodes) : Maker :=
  ⟨nodes, Array.replicate nodes.size none, [], [], Array.replicate nodes.size none⟩

theorem Makes.start (nodes : Nodes) : Makes nodes [] (start nodes) := by
  have hnone (n : Nat) : (Maker.start nodes).madeAt n = none := by
    simp only [madeAt, Maker.start, Array.getD_eq_getD_getElem?, Array.getElem?_replicate]
    split <;> rfl
  refine ⟨rfl, Array.size_replicate .., Array.size_replicate .., fun n x hx => ?_, nofun, fun n hn => ?_⟩
  · rw [hnone] at hx
    cases hx
  · rw [hnone] at hn
    cases hn

theorem root_apply {nodes : Nodes} {n : Nat} {d : Datum} (h : Shows nodes 0 n d) :
    ∃ s, root n (start nodes) = .ok (Json.seen maxDepth d, s) := by
  obtain ⟨s, hvalue, hmakes, hgoes, hsome⟩ := value_apply (.start nodes) ⟨d, h⟩
  have hcost : s.cost < s.nodes.size + 1 := by
    have hstart : (start nodes).cost ≤ nodes.size := by
      simp only [cost, start, Array.toList_replicate, List.length_nil, Nat.add_zero]
      exact List.countP_le_length.trans (List.length_replicate ..).le
    rw [hmakes.same]
    exact Nat.lt_succ_of_le (hgoes.cost.trans hstart)
  obtain ⟨s', hfill, hmakes', hwaiting, hlater, hkept⟩ := fill_apply hmakes hcost
  have hsome' : (s'.madeAt n).isSome := by
    obtain ⟨x, hx⟩ := Option.isSome_iff_exists.mp hsome
    exact Option.isSome_iff_exists.mpr ⟨x, hkept n x hx⟩
  refine ⟨s', ?_⟩
  rw [root, bind_apply, hvalue, ok_bind, bind_apply, get_apply, ok_bind, bind_apply, hfill, ok_bind,
    bind_apply, get_apply, ok_bind, unfold_of_shows hmakes' hwaiting hlater h hsome']
  rfl

end Maker

/-- What is read from the JSON text of an object: the object itself, as far down as values are read,
with the doubles that are written without a point as texts. -/
theorem read_asciiText {depth : Nat} {entries : List (Datum × Datum)}
    (h : Json.Fits depth (.dict entries)) (hdepth : depth ≤ Builder.maxDepth) :
    read (Json.asciiText (.dict entries)) = .ok (Json.seen Maker.maxDepth (.dict entries)) := by
  obtain ⟨nodes, root, hnodes, hshows⟩ := ofTokens_tokensOf h hdepth
  obtain ⟨s, hroot⟩ := Maker.root_apply hshows
  rw [read, ofText_asciiText h]
  simp only
  rw [hnodes]
  change (((Maker.root root).run (Maker.start nodes)).bind fun r => .ok r.1) = _
  rw [StateT.run, hroot]
  rfl

end Markup

end AssignmentSearch
