import AssignmentSearch.Proofs.Markup.AsciiJson

/-!
# The nodes of JSON text

The tokens of data in JSON text become nodes that show the data: a node for each value and each key,
the number of a collection before those of its parts.
-/

namespace AssignmentSearch

namespace Json

/-- Data as they are read from their JSON text, with their parts to a depth; further down collections
are empty. -/
def seen : Nat → Datum → Datum
  | _, .float x => Markup.readFloat x
  | 0, .list _ => .list []
  | 0, .dict _ => .dict []
  | depth + 1, .list items => .list (items.map (seen depth))
  | depth + 1, .dict entries => .dict (entries.map fun e => (e.1, seen depth e.2))
  | _, d => d

theorem seen_float (depth : Nat) (x : Float) : seen depth (.float x) = Markup.readFloat x := by
  cases depth <;> rfl

end Json

namespace Markup

/-! ## What nodes show -/

/-- Data are shown by the node of a number and by those it names, all of them from `low` on. -/
inductive Shows (nodes : Nodes) (low : Nat) : Nat → Datum → Prop where
  | scalar {n : Nat} {tag : Tag} {text : String} {d value : Datum} (hlow : low ≤ n)
    (hnode : nodes[n]? = some ⟨tag, .scalar text⟩) (hvalue : tag.valueOf text = .ok value)
    (hseen : ∀ depth, Json.seen depth d = value) : Shows nodes low n d
  | list {n : Nat} {numbers : List Nat} {items : List Datum} (hlow : low ≤ n)
    (hnode : nodes[n]? = some ⟨.sequence, .sequence numbers⟩) (hlength : numbers.length = items.length)
    (hitems : ∀ p ∈ numbers.zip items, Shows nodes low p.1 p.2) : Shows nodes low n (.list items)
  | dict {n : Nat} {numbers : List (Nat × Nat)} {entries : List (Datum × Datum)} (hlow : low ≤ n)
    (hnode : nodes[n]? = some ⟨.mapping, .mapping numbers⟩) (hlength : numbers.length = entries.length)
    (hnames : ∀ e ∈ entries, ∃ name, e.1 = .str name)
    (hdistinct : (entries.map fun e => e.1.plain).Nodup)
    (hkeys : ∀ p ∈ numbers.zip entries, Shows nodes low p.1.1 p.2.1)
    (hvalues : ∀ p ∈ numbers.zip entries, Shows nodes low p.1.2 p.2.2) :
    Shows nodes low n (.dict entries)

theorem lt_size_of_getElem? {nodes : Nodes} {n : Nat} {node : Node} (h : nodes[n]? = some node) :
    n < nodes.size := by
  obtain ⟨hn, -⟩ := Array.getElem?_eq_some_iff.mp h
  exact hn

theorem Shows.mono {nodes nodes' : Nodes} {low low' n : Nat} {d : Datum} (h : Shows nodes low n d)
    (hle : low' ≤ low) (hkept : ∀ i, low ≤ i → i < nodes.size → nodes'[i]? = nodes[i]?) :
    Shows nodes' low' n d := by
  have hsame {n : Nat} {node : Node} (hlow : low ≤ n) (hnode : nodes[n]? = some node) :
      nodes'[n]? = some node := (hkept n hlow (lt_size_of_getElem? hnode)).trans hnode
  induction h with
  | scalar hlow hnode hvalue hseen => exact .scalar (hle.trans hlow) (hsame hlow hnode) hvalue hseen
  | list hlow hnode hlength _ ih => exact .list (hle.trans hlow) (hsame hlow hnode) hlength ih
  | dict hlow hnode hlength hnames hdistinct _ _ ihkeys ihvalues =>
    exact .dict (hle.trans hlow) (hsame hlow hnode) hlength hnames hdistinct ihkeys ihvalues

/-! ## Tokens -/

def isOpening : Token → Bool
  | .scalar _ _ | .flowSequenceStart | .flowMappingStart => true
  | _ => false

theorem tokensOf_begins (d : Datum) : ∃ t ts, tokensOf d = t :: ts ∧ isOpening t = true := by
  cases d <;> exact ⟨_, _, rfl, rfl⟩

namespace Builder

theorem peek_apply {s : Builder} {t : Token} {rest : List Token} (h : s.tokens = t :: rest) :
    peek s = .ok (some t, s) := by
  rw [peek, bind_apply, get_apply, ok_bind, h]
  rfl

theorem peek_end {s : Builder} (h : s.tokens = []) (htrouble : s.trouble = none) :
    peek s = .ok (none, s) := by
  rw [peek, bind_apply, get_apply, ok_bind, h, htrouble]
  rfl

theorem drop_apply {s : Builder} {t : Token} {rest : List Token} (h : s.tokens = t :: rest) :
    drop s = .ok ((), { s with tokens := rest }) := by
  rw [drop, modify_apply, h]
  rfl

theorem dropIf_apply {s : Builder} {t : Token} {rest : List Token} (h : s.tokens = t :: rest) :
    dropIf t s = .ok (true, { s with tokens := rest }) := by
  rw [dropIf, bind_apply, peek_apply h, ok_bind, if_pos rfl, bind_apply, drop_apply h, ok_bind]
  rfl

theorem dropIf_of_ne {s : Builder} {t u : Token} {rest : List Token} (h : s.tokens = u :: rest)
    (hne : u ≠ t) : dropIf t s = .ok (false, s) := by
  rw [dropIf, bind_apply, peek_apply h, ok_bind, if_neg (by simpa using hne)]
  rfl

theorem require_apply {s : Builder} {t : Token} {rest : List Token} (h : s.tokens = t :: rest) :
    require t s = .ok ((), { s with tokens := rest }) := by
  rw [require, bind_apply, dropIf_apply h, ok_bind]
  rfl

theorem nextIn_apply {s : Builder} {t : Token} {rest ts : List Token} (h : s.tokens = t :: rest)
    (hnot : ts.contains t = false) : nextIn ts s = .ok (false, s) := by
  rw [nextIn, bind_apply, peek_apply h, ok_bind]
  simp only [Option.any_some, hnot]
  rfl

theorem properties_apply {s : Builder} {t : Token} {rest : List Token} (h : s.tokens = t :: rest)
    (ht : isOpening t = true) : properties s = .ok ((none, none), s) := by
  have hanchor : anchor s = .ok (none, s) := by
    rw [anchor, bind_apply, peek_apply h, ok_bind]
    cases t <;> first | rfl | cases ht
  have htag : tag s = .ok (none, s) := by
    rw [tag, bind_apply, peek_apply h, ok_bind]
    cases t <;> first | rfl | cases ht
  have hmarks : marks s = .ok ((none, none), s) := by
    rw [marks, bind_apply, hanchor, ok_bind]
    simp only
    rw [bind_apply, htag, ok_bind]
    rfl
  rw [properties, bind_apply, hmarks, ok_bind]
  rfl

theorem node_apply {s : Builder} {t : Token} {rest : List Token} (h : s.tokens = t :: rest)
    (ht : isOpening t = true) (block bare : Bool) (fuel : Nat) :
    node block bare (fuel + 1) s = content block bare none none fuel s := by
  rw [node, bind_apply, peek_apply h, ok_bind]
  cases t with
  | reference name => cases ht
  | _ =>
    simp only
    rw [bind_apply, properties_apply h ht, ok_bind]

theorem add_apply (s : Builder) (n : Node) :
    add none n s = .ok (s.nodes.size, { s with nodes := s.nodes.push n }) := by
  rw [add, bind_apply, get_apply, ok_bind]
  rfl

theorem content_scalar {s : Builder} {text : String} {plain : Bool} {rest : List Token}
    (h : s.tokens = .scalar text plain :: rest) (block bare : Bool) (fuel : Nat) :
    content block bare none none (fuel + 1) s = .ok (s.nodes.size,
      { s with tokens := rest, nodes := s.nodes.push ⟨.ofScalar none text plain, .scalar text⟩ }) := by
  rw [content, bind_apply, peek_apply h, ok_bind]
  simp only
  rw [bind_apply, drop_apply h, ok_bind, add_apply]

/-! ## Collections -/

/-- A reader of nodes that has just added a collection. -/
def opened (s : Builder) (t : Tag) : Builder :=
  { s with nodes := s.nodes.push ⟨t, .sequence []⟩, depth := s.depth + 1 }

/-- A reader of nodes that has read what a collection holds. -/
def closed (s : Builder) (number : Nat) (n : Node) : Builder :=
  { s with nodes := s.nodes.setIfInBounds number n, depth := s.depth - 1 }

theorem collect_apply {s s' : Builder} {t : Tag} {x : Build Content} {c : Content}
    (hdepth : s.depth < maxDepth) (hx : x (s.opened t) = .ok (c, s')) :
    collect none t x s = .ok (s.nodes.size, s'.closed s.nodes.size ⟨t, c⟩) := by
  have hadd : add none ⟨t, .sequence []⟩ s =
      .ok (s.nodes.size, { s with nodes := s.nodes.push ⟨t, .sequence []⟩ }) := add_apply s _
  rw [collect, bind_apply, get_apply, ok_bind, if_neg (Nat.not_le.mpr hdepth)]
  simp only
  rw [bind_apply, hadd, ok_bind, bind_apply, modify_apply, ok_bind, bind_apply]
  change (x (s.opened t)).bind _ = _
  rw [hx]
  rfl

theorem content_array {s s' : Builder} {rest : List Token} (h : s.tokens = .flowSequenceStart :: rest)
    (hdepth : s.depth < maxDepth) {fuel : Nat} {numbers : List Nat}
    (hitems : flowItems true fuel [] { s.opened .sequence with tokens := rest } = .ok (numbers, s'))
    (block bare : Bool) :
    content block bare none none (fuel + 1) s =
      .ok (s.nodes.size, s'.closed s.nodes.size ⟨.sequence, .sequence numbers⟩) := by
  rw [content, bind_apply, peek_apply h, ok_bind]
  refine collect_apply hdepth (map_apply Content.sequence ?_)
  rw [bind_apply, drop_apply (s := s.opened _) h, ok_bind]
  exact hitems

theorem content_object {s s' : Builder} {rest : List Token} (h : s.tokens = .flowMappingStart :: rest)
    (hdepth : s.depth < maxDepth) {fuel : Nat} {numbers : List (Nat × Nat)}
    (hentries : flowEntries true fuel [] { s.opened .mapping with tokens := rest } = .ok (numbers, s'))
    (block bare : Bool) :
    content block bare none none (fuel + 1) s =
      .ok (s.nodes.size, s'.closed s.nodes.size ⟨.mapping, .mapping numbers⟩) := by
  rw [content, bind_apply, peek_apply h, ok_bind]
  refine collect_apply hdepth (map_apply Content.mapping ?_)
  rw [bind_apply, drop_apply (s := s.opened _) h, ok_bind]
  exact hentries

/-- From `s` a reader of nodes comes to `s'`, with the tokens `rest` left and nodes added to those it
had. -/
structure Adds (s s' : Builder) (rest : List Token) : Prop where
  tokens : s'.tokens = rest
  trouble : s'.trouble = s.trouble
  depth : s'.depth = s.depth
  size : s.nodes.size ≤ s'.nodes.size
  kept : ∀ i < s.nodes.size, s'.nodes[i]? = s.nodes[i]?

theorem Adds.refl (s : Builder) (rest : List Token) : Adds s { s with tokens := rest } rest :=
  ⟨rfl, rfl, rfl, Nat.le_refl _, fun _ _ => rfl⟩

theorem Adds.trans {s s' s'' : Builder} {rest rest' : List Token} (h : Adds s s' rest)
    (h' : Adds s' s'' rest') : Adds s s'' rest' :=
  ⟨h'.tokens, h'.trouble.trans h.trouble, h'.depth.trans h.depth, h.size.trans h'.size,
    fun i hi => (h'.kept i (hi.trans_le h.size)).trans (h.kept i hi)⟩

theorem Adds.shows {s s' : Builder} {rest : List Token} (h : Adds s s' rest) {low n : Nat} {d : Datum}
    (hshows : Shows s.nodes low n d) : Shows s'.nodes low n d :=
  hshows.mono (Nat.le_refl _) fun i _ hi => h.kept i hi

theorem Adds.push (s : Builder) (rest : List Token) (n : Node) :
    Adds s { s with tokens := rest, nodes := s.nodes.push n } rest := by
  refine ⟨rfl, rfl, rfl, by simp, fun i hi => ?_⟩
  simp only [Array.getElem?_push, Nat.ne_of_lt hi, if_false]

theorem Adds.closed {s s' : Builder} {t : Tag} {before rest : List Token}
    (h : Adds { s.opened t with tokens := before } s' rest) (n : Node) :
    Adds s (s'.closed s.nodes.size n) rest := by
  have hsize := h.size
  simp only [opened, Array.size_push] at hsize
  refine ⟨h.tokens, h.trouble, ?_, ?_, fun i hi => ?_⟩
  · change s'.depth - 1 = s.depth
    rw [h.depth]
    rfl
  · simp only [Builder.closed, Array.size_setIfInBounds]
    omega
  · have hkept := h.kept i (by simp only [opened, Array.size_push]; omega)
    simp only [opened, Array.getElem?_push, Nat.ne_of_lt hi, if_false] at hkept
    simp only [Builder.closed, Array.getElem?_setIfInBounds_ne (Nat.ne_of_gt hi), hkept]

theorem Adds.node_closed {s s' : Builder} {t : Tag} {before rest : List Token}
    (h : Adds { s.opened t with tokens := before } s' rest) (n : Node) :
    (s'.closed s.nodes.size n).nodes[s.nodes.size]? = some n := by
  have hsize := h.size
  simp only [opened, Array.size_push] at hsize
  simp only [Builder.closed, Array.getElem?_setIfInBounds_self_of_lt (show s.nodes.size < s'.nodes.size by omega)]

/-- What a collection holds lies behind it, so it is still shown when the collection is complete. -/
theorem shows_closed {s s' : Builder} {t : Tag} {n : Node} {number : Nat} {d : Datum}
    (h : Shows s'.nodes (s.opened t).nodes.size number d) :
    Shows (s'.closed s.nodes.size n).nodes s.nodes.size number d := by
  have hsize : (s.opened t).nodes.size = s.nodes.size + 1 := Array.size_push _
  refine h.mono (by omega) fun i hi _ => ?_
  simp only [Builder.closed, Array.getElem?_setIfInBounds_ne (show s.nodes.size ≠ i by omega)]

/-! ## Data -/

def IsLaid (depth : Nat) (d : Datum) : Prop :=
  ∀ (s : Builder) (rest : List Token) (block bare : Bool) (fuel : Nat), s.tokens = tokensOf d ++ rest →
    s.depth + depth ≤ maxDepth → 2 * (tokensOf d).length ≤ fuel →
    ∃ n s', node block bare fuel s = .ok (n, s') ∧ Adds s s' rest ∧ Shows s'.nodes s.nodes.size n d

theorem isLaid_of_scalar {depth : Nat} {d value : Datum} {text : String} {plain : Bool}
    (htokens : tokensOf d = [.scalar text plain])
    (hvalue : (Tag.ofScalar none text plain).valueOf text = .ok value)
    (hseen : ∀ depth, Json.seen depth d = value) : IsLaid depth d := by
  intro s rest block bare fuel h _ hfuel
  rw [htokens] at h hfuel
  obtain ⟨fuel, rfl⟩ : ∃ n, fuel = n + 2 := ⟨fuel - 2, by simp at hfuel; omega⟩
  refine ⟨_, _, (node_apply h rfl block bare _).trans (content_scalar h block bare fuel),
    .push s rest _, ?_⟩
  exact .scalar (Nat.le_refl _) (by simp) hvalue hseen

theorem isLaid_str (depth : Nat) (text : String) : IsLaid depth (.str text) :=
  isLaid_of_scalar (by rw [tokensOf]) rfl fun depth => by cases depth <;> rfl

theorem ne_of_isOpening {t u : Token} (ht : isOpening t = true) (hu : isOpening u = false) : t ≠ u := by
  rintro rfl
  rw [ht] at hu
  cases hu

theorem comma_apply {β : Type} {first : Bool} {s : Builder} {rest : List Token}
    (h : s.tokens = commaUnless first ++ rest) (x : PUnit → Build β) :
    (if (!first) = true then require .flowEntry >>= x else x ()) s = x () { s with tokens := rest } := by
  cases first with
  | true =>
    have hsame : { s with tokens := rest } = s := by rw [show rest = s.tokens from h.symm]
    rw [hsame]
    rfl
  | false =>
    simp only [Bool.not_false, if_true]
    rw [bind_apply, require_apply h, ok_bind]
    rfl

theorem dropIf_member {first : Bool} {s : Builder} {t : Token} {rest : List Token}
    (h : s.tokens = commaUnless first ++ t :: rest) {closing : Token} (ht : t ≠ closing)
    (hclosing : closing ≠ .flowEntry) : dropIf closing s = .ok (false, s) := by
  cases first with
  | true => exact dropIf_of_ne h ht
  | false => exact dropIf_of_ne h hclosing.symm

theorem flowItems_cons {first : Bool} {s s' : Builder} {d : Datum} {rest : List Token} {fuel n : Nat}
    (acc : List Nat) (h : s.tokens = commaUnless first ++ (tokensOf d ++ rest))
    (hnode : node false false fuel { s with tokens := tokensOf d ++ rest } = .ok (n, s')) :
    flowItems first (fuel + 1) acc s = flowItems false fuel (n :: acc) s' := by
  obtain ⟨t, ts, htokens, ht⟩ := tokensOf_begins d
  have hnext : ({ s with tokens := tokensOf d ++ rest } : Builder).tokens = t :: (ts ++ rest) := by
    simp only [htokens, List.cons_append]
  have hmember : s.tokens = commaUnless first ++ t :: (ts ++ rest) := by rw [h, ← hnext]
  have hkey : [Token.key].contains t = false := by
    simp [ne_of_isOpening ht (u := .key) rfl]
  have hend : t ≠ .flowSequenceEnd := ne_of_isOpening ht rfl
  rw [flowItems, bind_apply, dropIf_member hmember hend nofun, ok_bind]
  simp only [Bool.false_eq_true, if_false]
  rw [comma_apply h, bind_apply, nextIn_apply hnext hkey, ok_bind]
  simp only [Bool.false_eq_true, if_false]
  rw [bind_apply, dropIf_of_ne hnext hend, ok_bind]
  simp only [Bool.false_eq_true, if_false]
  rw [bind_apply, hnode, ok_bind]

theorem nodeUnless_apply {s : Builder} {t : Token} {rest ts : List Token} (h : s.tokens = t :: rest)
    (hnot : ts.contains t = false) (block bare : Bool) (fuel : Nat) :
    nodeUnless ts block bare (fuel + 1) s = node block bare fuel s := by
  rw [nodeUnless, bind_apply, nextIn_apply h hnot, ok_bind]
  rfl

theorem flowEntries_cons {first : Bool} {s s' : Builder} {name : String} {d : Datum} {rest : List Token}
    {fuel n : Nat} (acc : List (Nat × Nat))
    (h : s.tokens = commaUnless first ++ (.key :: .scalar name false :: .value :: (tokensOf d ++ rest)))
    (hnode : node false false (fuel + 2)
      { s with tokens := tokensOf d ++ rest, nodes := s.nodes.push ⟨.str, .scalar name⟩ } = .ok (n, s')) :
    flowEntries first (fuel + 4) acc s = flowEntries false (fuel + 3) ((s.nodes.size, n) :: acc) s' := by
  obtain ⟨t, ts, htokens, ht⟩ := tokensOf_begins d
  have hvalue : tokensOf d ++ rest = t :: (ts ++ rest) := by rw [htokens, List.cons_append]
  have hnot : [Token.flowEntry, .flowMappingEnd].contains t = false := by
    simp [ne_of_isOpening ht (u := .flowEntry) rfl, ne_of_isOpening ht (u := .flowMappingEnd) rfl]
  have hopen : Token.key ≠ .flowMappingEnd := nofun
  rw [flowEntries, bind_apply, dropIf_member h hopen nofun, ok_bind]
  simp only [Bool.false_eq_true, if_false]
  rw [comma_apply h, bind_apply, dropIf_apply rfl, ok_bind]
  simp only [if_true]
  rw [bind_apply, nodeUnless_apply rfl rfl, node_apply rfl rfl, content_scalar rfl, ok_bind, bind_apply,
    dropIf_apply rfl, ok_bind]
  simp only [if_true]
  rw [bind_apply, nodeUnless_apply hvalue hnot]
  change (node false false (fuel + 2)
    { s with tokens := tokensOf d ++ rest, nodes := s.nodes.push ⟨.str, .scalar name⟩ }).bind _ = _
  rw [hnode, ok_bind]

theorem flowItems_of_laid {depth : Nat} {items : List Datum} (hitems : ∀ d ∈ items, IsLaid depth d)
    {first : Bool} {s : Builder} {rest : List Token} {fuel : Nat} (acc : List Nat)
    (h : s.tokens = itemTokens first items ++ .flowSequenceEnd :: rest)
    (hdepth : s.depth + depth ≤ maxDepth) (hfuel : 2 * (itemTokens first items).length + 1 ≤ fuel) :
    ∃ numbers s', flowItems first fuel acc s = .ok (acc.reverse ++ numbers, s') ∧ Adds s s' rest ∧
      numbers.length = items.length ∧ ∀ p ∈ numbers.zip items, Shows s'.nodes s.nodes.size p.1 p.2 := by
  induction items generalizing first s fuel acc with
  | nil =>
    obtain ⟨fuel, rfl⟩ : ∃ n, fuel = n + 1 := ⟨fuel - 1, by omega⟩
    refine ⟨[], _, ?_, .refl s rest, rfl, nofun⟩
    rw [flowItems, bind_apply, dropIf_apply h, ok_bind, List.append_nil]
    rfl
  | cons d items ih =>
    rw [List.forall_mem_cons] at hitems
    rw [itemTokens, List.append_assoc, List.append_assoc] at h
    rw [itemTokens, List.length_append, List.length_append] at hfuel
    obtain ⟨fuel, rfl⟩ : ∃ n, fuel = n + 1 := ⟨fuel - 1, by omega⟩
    obtain ⟨s₁, hs₁⟩ : ∃ s₁, s₁ = { s with
      tokens := tokensOf d ++ (itemTokens false items ++ Token.flowSequenceEnd :: rest) } := ⟨_, rfl⟩
    obtain ⟨n, s₂, hnode, hadds, hshows⟩ :=
      hitems.1 s₁ _ false false fuel (by rw [hs₁]) (by rw [hs₁]; exact hdepth) (by omega)
    have hpos : 0 < (tokensOf d).length := by
      obtain ⟨t, ts, htokens, -⟩ := tokensOf_begins d
      simp [htokens]
    have hall : Adds s s₂ (itemTokens false items ++ .flowSequenceEnd :: rest) := by
      rw [hs₁] at hadds
      exact (Adds.refl s _).trans hadds
    have hfuel' : 2 * (itemTokens false items).length + 1 ≤ fuel := by omega
    obtain ⟨numbers, s₃, hrest, hmore, hlength, hshown⟩ :=
      ih hitems.2 (n :: acc) hadds.tokens (by rw [hall.depth]; exact hdepth) hfuel'
    refine ⟨n :: numbers, s₃, ?_, hall.trans hmore, by simp [hlength], ?_⟩
    · rw [flowItems_cons acc h (hs₁ ▸ hnode), hrest, List.reverse_cons, List.append_assoc]
      rfl
    · rw [List.zip_cons_cons, List.forall_mem_cons]
      refine ⟨hmore.shows (by rw [hs₁] at hshows; exact hshows), fun p hp => ?_⟩
      exact (hshown p hp).mono hall.size fun _ _ _ => rfl

theorem flowEntries_of_laid {depth : Nat} {entries : List (Datum × Datum)}
    (hnames : ∀ e ∈ entries, ∃ name, e.1 = .str name) (hvalues : ∀ e ∈ entries, IsLaid depth e.2)
    {first : Bool} {s : Builder} {rest : List Token} {fuel : Nat} (acc : List (Nat × Nat))
    (h : s.tokens = entryTokens first entries ++ .flowMappingEnd :: rest)
    (hdepth : s.depth + depth ≤ maxDepth) (hfuel : 2 * (entryTokens first entries).length + 1 ≤ fuel) :
    ∃ numbers s', flowEntries first fuel acc s = .ok (acc.reverse ++ numbers, s') ∧ Adds s s' rest ∧
      numbers.length = entries.length ∧
      (∀ p ∈ numbers.zip entries, Shows s'.nodes s.nodes.size p.1.1 p.2.1) ∧
      ∀ p ∈ numbers.zip entries, Shows s'.nodes s.nodes.size p.1.2 p.2.2 := by
  induction entries generalizing first s fuel acc with
  | nil =>
    obtain ⟨fuel, rfl⟩ : ∃ n, fuel = n + 1 := ⟨fuel - 1, by omega⟩
    refine ⟨[], _, ?_, .refl s rest, rfl, nofun, nofun⟩
    rw [flowEntries, bind_apply, dropIf_apply h, ok_bind, List.append_nil]
    rfl
  | cons e entries ih =>
    obtain ⟨k, d⟩ := e
    rw [List.forall_mem_cons] at hnames hvalues
    obtain ⟨name, rfl⟩ : ∃ name, k = .str name := hnames.1
    rw [entryTokens, List.append_assoc, List.append_assoc, List.append_assoc] at h
    rw [entryTokens, List.length_append, List.length_append, List.length_append] at hfuel
    simp only [List.length_cons, List.length_nil] at hfuel
    obtain ⟨fuel, rfl⟩ : ∃ n, fuel = n + 4 := ⟨fuel - 4, by omega⟩
    obtain ⟨s₁, hs₁⟩ : ∃ s₁ : Builder, s₁ = { s with
      tokens := tokensOf d ++ (entryTokens false entries ++ Token.flowMappingEnd :: rest)
      nodes := s.nodes.push ⟨.str, .scalar name⟩ } := ⟨_, rfl⟩
    have hkey : Adds s s₁ s₁.tokens := by
      rw [hs₁]
      exact .push s _ _
    have hname : Shows s₁.nodes s.nodes.size s.nodes.size (.str name) := by
      have hnode : s₁.nodes[s.nodes.size]? = some ⟨.str, .scalar name⟩ := by simp [hs₁]
      refine .scalar (Nat.le_refl _) hnode rfl fun depth => ?_
      cases depth <;> rfl
    have hvalue : 2 * (tokensOf d).length ≤ fuel + 2 := by omega
    obtain ⟨n, s₂, hnode, hadds, hshows⟩ :=
      hvalues.1 s₁ _ false false (fuel + 2) (by rw [hs₁]) (by rw [hkey.depth]; exact hdepth) hvalue
    have hall := hkey.trans hadds
    have hfuel' : 2 * (entryTokens false entries).length + 1 ≤ fuel + 3 := by omega
    obtain ⟨numbers, s₃, hrest, hmore, hlength, hshownkeys, hshown⟩ :=
      ih hnames.2 hvalues.2 ((s.nodes.size, n) :: acc) hadds.tokens (by rw [hall.depth]; exact hdepth) hfuel'
    refine ⟨(s.nodes.size, n) :: numbers, s₃, ?_, hall.trans hmore, by simp [hlength], ?_, ?_⟩
    · rw [flowEntries_cons acc h (hs₁ ▸ hnode), hrest, List.reverse_cons, List.append_assoc]
      rfl
    · rw [List.zip_cons_cons, List.forall_mem_cons]
      exact ⟨hmore.shows (hadds.shows hname), fun p hp =>
        (hshownkeys p hp).mono hall.size fun _ _ _ => rfl⟩
    · rw [List.zip_cons_cons, List.forall_mem_cons]
      exact ⟨hmore.shows (hshows.mono hkey.size fun _ _ _ => rfl), fun p hp =>
        (hshown p hp).mono hall.size fun _ _ _ => rfl⟩

theorem isLaid_list {depth : Nat} {items : List Datum} (hitems : ∀ d ∈ items, IsLaid depth d) :
    IsLaid (depth + 1) (.list items) := by
  intro s rest block bare fuel h hdepth hfuel
  rw [tokensOf, List.cons_append, List.append_assoc] at h
  rw [tokensOf, List.length_cons, List.length_append, List.length_singleton] at hfuel
  obtain ⟨fuel, rfl⟩ : ∃ n, fuel = n + 2 := ⟨fuel - 2, by omega⟩
  have hdepth' : (s.opened .sequence).depth + depth ≤ maxDepth := by
    change s.depth + 1 + depth ≤ maxDepth
    omega
  have hfuel' : 2 * (itemTokens true items).length + 1 ≤ fuel := by omega
  obtain ⟨numbers, s', hread, hadds, hlength, hshown⟩ :=
    flowItems_of_laid (s := { s.opened .sequence with
      tokens := itemTokens true items ++ .flowSequenceEnd :: rest }) hitems [] rfl hdepth' hfuel'
  refine ⟨_, _, (node_apply h rfl block bare _).trans (content_array h (by omega) hread block bare),
    hadds.closed _, .list (Nat.le_refl _) (hadds.node_closed _) hlength fun p hp => ?_⟩
  exact shows_closed (hshown p hp)

theorem isLaid_dict {depth : Nat} {entries : List (Datum × Datum)}
    (hnames : ∀ e ∈ entries, ∃ name, e.1 = .str name)
    (hdistinct : (entries.map fun e => e.1.plain).Nodup) (hvalues : ∀ e ∈ entries, IsLaid depth e.2) :
    IsLaid (depth + 1) (.dict entries) := by
  intro s rest block bare fuel h hdepth hfuel
  rw [tokensOf, List.cons_append, List.append_assoc] at h
  rw [tokensOf, List.length_cons, List.length_append, List.length_singleton] at hfuel
  obtain ⟨fuel, rfl⟩ : ∃ n, fuel = n + 2 := ⟨fuel - 2, by omega⟩
  have hdepth' : (s.opened .mapping).depth + depth ≤ maxDepth := by
    change s.depth + 1 + depth ≤ maxDepth
    omega
  have hfuel' : 2 * (entryTokens true entries).length + 1 ≤ fuel := by omega
  obtain ⟨numbers, s', hread, hadds, hlength, hkeys, hshown⟩ :=
    flowEntries_of_laid (s := { s.opened .mapping with
      tokens := entryTokens true entries ++ .flowMappingEnd :: rest }) hnames hvalues [] rfl hdepth' hfuel'
  refine ⟨_, _, (node_apply h rfl block bare _).trans (content_object h (by omega) hread block bare),
    hadds.closed _, .dict (Nat.le_refl _) (hadds.node_closed _) hlength hnames hdistinct (fun p hp => ?_)
      fun p hp => ?_⟩
  · exact shows_closed (hkeys p hp)
  · exact shows_closed (hshown p hp)

theorem finish_apply {s : Builder} (h : s.tokens = []) (htrouble : s.trouble = none) (fuel : Nat) :
    finish fuel s = .ok ((), s) := by
  have hmarks : endMarks fuel s = .ok ((), s) := by
    cases fuel with
    | zero => rfl
    | succ fuel =>
      rw [endMarks, bind_apply, dropIf, bind_apply, peek_end h htrouble]
      rfl
  rw [finish, bind_apply, hmarks, ok_bind, bind_apply, peek_end h htrouble, ok_bind]
  rfl

theorem isLaid_of_fits {depth : Nat} {d : Datum} (h : Json.Fits depth d) : IsLaid depth d := by
  induction h with
  | null depth => exact isLaid_of_scalar rfl plainValue_null fun depth => by cases depth <;> rfl
  | bool depth b => exact isLaid_of_scalar rfl (plainValue_bool b) fun depth => by cases depth <;> rfl
  | int depth h => exact isLaid_of_scalar rfl (plainValue_int h) fun depth => by cases depth <;> rfl
  | float depth x => exact isLaid_of_scalar rfl (plainValue_float x) fun depth => Json.seen_float depth x
  | str depth text => exact isLaid_str depth text
  | list _ ih => exact isLaid_list ih
  | dict hkeys hdistinct _ ih =>
    exact isLaid_dict (fun e he => (hkeys e he).imp fun _ h => h.1) hdistinct ih

end Builder

/-- The tokens of an object become the nodes of a document, of which the first shows the object. -/
theorem ofTokens_tokensOf {depth : Nat} {entries : List (Datum × Datum)}
    (h : Json.Fits depth (.dict entries)) (hdepth : depth ≤ Builder.maxDepth) :
    ∃ nodes root, Nodes.ofTokens (tokensOf (.dict entries)) none = .ok (nodes, some root) ∧
      Shows nodes 0 root (.dict entries) := by
  obtain ⟨s, hs⟩ : ∃ s : Builder,
    s = ⟨tokensOf (.dict entries), none, Builder.usualHandles, #[], [], 0⟩ := ⟨_, rfl⟩
  obtain ⟨ts, hts⟩ : ∃ ts, tokensOf (.dict entries) = .flowMappingStart :: ts := ⟨_, rfl⟩
  obtain ⟨root, s', hnode, hadds, hshows⟩ := Builder.isLaid_of_fits h s [] true false
    (8 * (tokensOf (.dict entries)).length + 8) (by rw [hs, List.append_nil])
    (by rw [hs]; simpa using hdepth) (by omega)
  have hpeek := Builder.peek_apply (s := s) (by rw [hs, hts])
  have htrouble : s'.trouble = none := hadds.trouble.trans (by rw [hs])
  have hdocument : Builder.document (8 * (tokensOf (.dict entries)).length + 8) s = .ok (some root, s') := by
    rw [Builder.document, bind_apply, hpeek, ok_bind]
    simp only [Bool.false_eq_true, if_false]
    rw [bind_apply, hpeek, ok_bind]
    simp only [Bool.false_eq_true, if_false]
    rw [bind_apply, hnode, ok_bind, bind_apply, Builder.finish_apply hadds.tokens htrouble, ok_bind]
    rfl
  refine ⟨s'.nodes, root, ?_, ?_⟩
  · rw [Nodes.ofTokens, ← hs, StateT.run, hdocument]
    rfl
  · rw [hs] at hshows
    exact hshows

end Markup

end AssignmentSearch
