import AssignmentSearch.Proofs.Placement.Exchanges
import AssignmentSearch.Proofs.Random.Positions
import AssignmentSearch.Proofs.Search.Beginnings

/-!
# The first placement

A search for placements is given its machines and hosts at any time. The first placement is drawn
when it is asked for while there are both: one sample for each machine of the list, and a machine
that is listed again is bound again. From then on it is handed out, whatever the lists are.
-/

namespace AssignmentSearch

namespace Mapping

variable {τ ρ : Type} [BEq τ] [LawfulBEq τ]

omit [LawfulBEq τ] in
theorem ofPairs_concat (pairs : List (τ × ρ)) (t : τ) (r : ρ) :
    ofPairs (pairs ++ [(t, r)]) = (ofPairs pairs).bind t r := by
  rw [ofPairs, ofPairs, List.foldl_append]
  rfl

theorem tasks_ofPairs (pairs : List (τ × ρ)) :
    (ofPairs pairs).tasks = (pairs.map (·.1)).eraseDups := by
  induction pairs using List.reverseRecOn with
  | nil => rfl
  | append_singleton pairs p ih =>
    obtain ⟨t, r⟩ := p
    rw [ofPairs_concat, tasks_bind, ih, List.map_append, List.eraseDups_append]
    by_cases ht : t ∈ pairs.map (·.1)
    · rw [if_pos (List.mem_eraseDups.mpr ht)]
      simp [List.removeAll, ht]
    · rw [if_neg (by rwa [List.mem_eraseDups])]
      simp [List.removeAll, ht, List.eraseDups_cons]

theorem mem_entries_bind_self (m : Mapping τ ρ) (t : τ) (r : ρ) : (t, r) ∈ (m.bind t r).entries := by
  obtain ⟨entries⟩ := m
  rw [bind]
  dsimp only
  induction entries with
  | nil => exact List.mem_singleton_self _
  | cons e rest ih =>
    obtain ⟨u, q⟩ := e
    rw [bindEntry]
    split
    · rename_i hu
      rw [beq_iff_eq.mp hu]
      exact List.mem_cons_self
    · exact List.mem_cons_of_mem _ ih

theorem mem_entries_bind_of_ne {m : Mapping τ ρ} {t u : τ} {r q : ρ} (h : (t, r) ∈ m.entries)
    (hne : t ≠ u) : (t, r) ∈ (m.bind u q).entries := by
  obtain ⟨entries⟩ := m
  rw [bind]
  dsimp only at h ⊢
  induction entries with
  | nil => cases h
  | cons e rest ih =>
    rw [bindEntry]
    rcases List.mem_cons.mp h with rfl | h
    · rw [if_neg (by rwa [beq_iff_eq])]
      exact List.mem_cons_self
    · split
      · exact List.mem_cons_of_mem _ h
      · exact List.mem_cons_of_mem _ (ih h)

theorem mem_entries_ofPairs {earlier later : List (τ × ρ)} {t : τ} {r : ρ}
    (hlast : t ∉ later.map (·.1)) : (t, r) ∈ (ofPairs (earlier ++ (t, r) :: later)).entries := by
  induction later using List.reverseRecOn with
  | nil =>
    rw [ofPairs_concat]
    exact mem_entries_bind_self _ t r
  | append_singleton later p ih =>
    obtain ⟨u, q⟩ := p
    rw [List.map_append, List.mem_append, not_or] at hlast
    rw [← List.cons_append, ← List.append_assoc, ofPairs_concat]
    exact mem_entries_bind_of_ne (ih hlast.1) fun h => hlast.2 (by rw [h]; exact List.mem_cons_self)

end Mapping

def Source.skip {α : Type} [Quantity α] (s : Source α) : Nat → Source α
  | 0 => s
  | n + 1 => s.sample.2.skip n

namespace Source

variable {α : Type} [Quantity α]

theorem skip_succ (s : Source α) (n : Nat) : s.skip (n + 1) = s.sample.2.skip n := rfl

theorem drawn_skip (s : Source α) (n : Nat) : (s.skip n).drawn = s.drawn + n := by
  induction n generalizing s with
  | zero => rfl
  | succ n ih =>
    rw [skip_succ, ih, drawn_sample]
    omega

end Source

namespace Placement

variable {vms : List (Vm Int)} {hosts : List (Host Int)} {source : Source Float}

def Selects (hosts : List (Host Int)) (source : Source Float) (host : Host Int) : Prop :=
  ∃ i : Nat, Source.position hosts.length source.sample.1 = .ok i ∧ hosts[i]? = some host

theorem exists_selects (hne : hosts ≠ []) (hlength : hosts.length < 2 ^ 63) (hunit : source.InUnit) :
    ∃ host, Selects hosts source host := by
  obtain ⟨i, hi, hlt⟩ := Source.position_of_inUnit (List.length_pos_iff.mpr hne) hlength
    (Source.inUnit_sample hunit)
  exact ⟨hosts[i], i, hi, List.getElem?_eq_getElem hlt⟩

theorem Selects.start_randomHost {host : Host Int} (h : Selects hosts source host) :
    (randomHost hosts).start source = (.ok host, source.sample.2) := by
  obtain ⟨i, hi, hget⟩ := h
  have hpos : 0 < hosts.length := by
    obtain ⟨hlt, -⟩ := List.getElem?_eq_some_iff.mp hget
    omega
  have hindex : (Source.index hosts.length).start source = (.ok (i : Int), source.sample.2) := by
    rw [Source.start_index_of_pos (by omega), hi]
  have helement : elementAt hosts i = .ok host := by
    have hnot : ¬ ((i : Int) < 0) := by omega
    rw [elementAt, if_neg hnot, if_neg hnot, Int.toNat_natCast, hget]
  rw [randomHost, Attempt.start_bind_ok hindex, helement]
  rfl

/-- A placement of machines on hosts that samples have selected: each machine stands where it is
listed first, and is bound to the host of the sample for its last place in the list. -/
structure IsDrawn (vms : List (Vm Int)) (hosts : List (Host Int)) (source : Source Float)
    (m : Mapping (Vm Int) (Host Int)) : Prop where
  tasks : m.tasks = vms.eraseDups
  bound : ∀ j vm, vms[j]? = some vm → vm ∉ vms.drop (j + 1) →
    ∃ host, Selects hosts (source.skip j) host ∧ (vm, host) ∈ m.entries

theorem exists_start_bindAll (vms : List (Vm Int)) (hne : hosts ≠ [])
    (hlength : hosts.length < 2 ^ 63) (hunit : source.InUnit)
    (s : Solution Float (Vm Int) (Host Int)) :
    ∃ drawn : List (Host Int), ∃ t, drawn.length = vms.length ∧
      (∀ j host, drawn[j]? = some host → Selects hosts (source.skip j) host) ∧
      (bindAll hosts vms s).start source = (.ok t, source.skip vms.length) ∧
      t.mapping = (vms.zip drawn).foldl (fun m p => m.bind p.1 p.2) s.mapping := by
  induction vms generalizing s source with
  | nil => exact ⟨[], s, rfl, by simp, rfl, rfl⟩
  | cons vm rest ih =>
    obtain ⟨host, hhost⟩ := exists_selects hne hlength hunit
    obtain ⟨drawn, t, hsize, hdrawn, hstart, hmapping⟩ :=
      ih (Source.inUnit_next hunit) (s.bind vm host)
    refine ⟨host :: drawn, t, by rw [List.length_cons, hsize, List.length_cons], ?_, ?_, hmapping⟩
    · rintro (_ | j) found hfound
      · cases hfound
        exact hhost
      · exact hdrawn j found hfound
    · rw [bindAll, Attempt.start_bind_ok hhost.start_randomHost, permit_vm,
        Attempt.start_bind_ok (Attempt.start_lift _ _), hstart]
      rfl

/-- Machines that are bound one after the other to hosts drawn for them are placed by samples. -/
theorem isDrawn_ofPairs {drawn : List (Host Int)} (hsize : drawn.length = vms.length)
    (hdrawn : ∀ j host, drawn[j]? = some host → Selects hosts (source.skip j) host) :
    IsDrawn vms hosts source (.ofPairs (vms.zip drawn)) where
  tasks := by rw [Mapping.tasks_ofPairs, List.map_fst_zip hsize.ge]
  bound := by
    intro j vm hvm hlast
    obtain ⟨hj, hget⟩ := List.getElem?_eq_some_iff.mp hvm
    have hj' : j < drawn.length := by omega
    have hzip : j < (vms.zip drawn).length := by
      rw [List.length_zip]
      omega
    have hpair : (vms.zip drawn)[j] = (vm, drawn[j]) := by rw [List.getElem_zip, hget]
    have hsplit : vms.zip drawn =
        (vms.zip drawn).take j ++ (vm, drawn[j]) :: (vms.zip drawn).drop (j + 1) := by
      rw [← hpair, ← List.drop_eq_getElem_cons hzip, List.take_append_drop]
    refine ⟨drawn[j], hdrawn j _ (List.getElem?_eq_getElem hj'), ?_⟩
    rw [hsplit]
    refine Mapping.mem_entries_ofPairs fun hmem => hlast ?_
    rwa [List.map_drop, List.map_fst_zip hsize.ge] at hmem

variable {kept : Option (Solution Float (Vm Int) (Host Int))}

theorem exists_start_initial (hvms : vms ≠ []) (hhosts : hosts ≠ [])
    (hlength : hosts.length < 2 ^ 63) (hunit : source.InUnit)
    (hkept : (kept.getD nothing).mapping.isEmpty = true) :
    ∃ first, (initial vms hosts kept).start source = (.ok first, source.skip vms.length) ∧
      IsDrawn vms hosts source first.mapping := by
  obtain ⟨drawn, first, hsize, hdrawn, hstart, hmapping⟩ :=
    exists_start_bindAll vms hhosts hlength hunit nothing
  refine ⟨first, ?_, ?_⟩
  · rw [initial_of_ready hkept hvms hhosts, hstart]
  · rw [hmapping]
    exact isDrawn_ofPairs hsize hdrawn

structure Site (σ : Type) where
  vms : List (Vm Int)
  hosts : List (Host Int)
  search : Search Float σ (Vm Int) (Host Int)
  surroundings : Surroundings Float
  landscape_eq : search.landscape = landscape vms hosts

/-- What is done at a site: both lists are replaced, the initial solution is asked for, or the search
is called. -/
inductive Deed where
  | supply (vms : List (Vm Int)) (hosts : List (Host Int))
  | ask
  | call (c : Call)

variable {σ : Type}

namespace Site

def IsReady (x : Site σ) : Prop := x.vms ≠ [] ∧ x.hosts ≠ []

def fresh (vms : List (Vm Int)) (hosts : List (Host Int)) (strategy : σ) (source : Source Float)
    (searches : Datum) (recorder : Option Recorder) (w : Surroundings Float) : Site σ :=
  ⟨vms, hosts, .fresh strategy (landscape vms hosts) source searches recorder, w, rfl⟩

end Site

namespace Deed

variable [Strategy Float σ] [Acceptance Float σ (Solution Float (Vm Int) (Host Int))]

def run (x : Site σ) : Deed → Site σ
  | supply vms hosts =>
    ⟨vms, hosts, { x.search with landscape := landscape vms hosts }, x.surroundings, rfl⟩
  | ask =>
    ⟨x.vms, x.hosts, (Search.initial.start x.search).2, x.surroundings,
      (Search.landscape_initial x.search).trans x.landscape_eq⟩
  | call c =>
    let r := (c.run.start (x.search, x.surroundings)).2
    ⟨x.vms, x.hosts, r.1, r.2, (c.landscape_run _).trans x.landscape_eq⟩

theorem search_ask (x : Site σ) : (ask.run x).search = (Search.initial.start x.search).2 := rfl

def after : List Deed → Site σ → Site σ
  | [], x => x
  | d :: rest, x => after rest (d.run x)

/-- Whether a deed asks for the initial solution. A search that has not begun asks for it when it
is called. -/
def Asks (x : Site σ) : Deed → Prop
  | supply _ _ => False
  | ask => True
  | call _ => x.search.progress = .fresh

def HaveAsked : List Deed → Site σ → Prop
  | [], _ => False
  | d :: rest, x => d.Asks x ∧ x.IsReady ∨ HaveAsked rest (d.run x)

end Deed

namespace Site

structure IsBare (x : Site σ) : Prop where
  source : x.search.source.InUnit
  kept : (x.search.kept.getD nothing).mapping.isEmpty = true

/-- A placement has been handed out, and is kept; its cost may have been computed since. -/
def Keeps (x : Site σ) (first : Solution Float (Vm Int) (Host Int)) : Prop :=
  x.search.kept = some first ∨ x.search.kept = some first.evaluated

variable {x : Site σ} {first : Solution Float (Vm Int) (Host Int)}

theorem not_isReady_iff : ¬ x.IsReady ↔ x.vms = [] ∨ x.hosts = [] := by
  rw [IsReady, not_and_or, not_not, not_not]

theorem start_initial_of_kept
    (h : (x.search.kept.getD nothing).mapping.isEmpty = false ∨ ¬ x.IsReady) :
    Search.initial.start x.search = (.ok (x.search.kept.getD nothing),
      { x.search with kept := some (x.search.kept.getD nothing) }) := by
  refine Search.start_initial ?_
  rw [x.landscape_eq]
  change (initial x.vms x.hosts _).start _ = _
  rw [initial_of_kept (h.imp_right not_isReady_iff.mp), Attempt.start_pure]

theorem IsBare.start_initial (h : x.IsBare) (hready : x.IsReady)
    (hlength : x.hosts.length < 2 ^ 63) :
    ∃ first, Search.initial.start x.search = (.ok first, { x.search with
        source := x.search.source.skip x.vms.length, kept := some first }) ∧
      IsDrawn x.vms x.hosts x.search.source first.mapping := by
  obtain ⟨first, hstart, hdrawn⟩ :=
    exists_start_initial hready.1 hready.2 hlength h.source h.kept
  refine ⟨first, Search.start_initial ?_, hdrawn⟩
  rw [x.landscape_eq]
  exact hstart

theorem Keeps.start_initial (h : x.Keeps first) (hne : first.mapping.isEmpty = false) :
    ∃ again, Search.initial.start x.search = (.ok again, { x.search with kept := some again }) ∧
      (again = first ∨ again = first.evaluated) := by
  have hplaced : (x.search.kept.getD nothing).mapping.isEmpty = false := by
    rcases h with h | h <;> rw [h, Option.getD_some]
    · exact hne
    · rwa [first.mapping_evaluated]
  refine ⟨_, start_initial_of_kept (Or.inl hplaced), ?_⟩
  rcases h with h | h <;> rw [h, Option.getD_some]
  · exact Or.inl rfl
  · exact Or.inr rfl

variable [Strategy Float σ] [Acceptance Float σ (Solution Float (Vm Int) (Host Int))]

theorem IsBare.run (h : x.IsBare) {d : Deed} (hnot : ¬ (d.Asks x ∧ x.IsReady)) :
    (d.run x).IsBare := by
  cases d with
  | supply vms hosts => exact ⟨h.source, h.kept⟩
  | ask =>
    have hinitial := start_initial_of_kept (x := x) (Or.inr fun hready => hnot ⟨trivial, hready⟩)
    constructor <;> rw [Deed.search_ask, hinitial]
    · exact h.source
    · exact h.kept
  | call c =>
    constructor
    · have hlandscape : x.search.landscape.KeepsUnit :=
        x.landscape_eq ▸ keepsUnit_landscape x.vms x.hosts
      exact (kept_drawsUnit.enduring.attended.call c (l := []) (r := (x.search, x.surroundings))
        ⟨hlandscape, h.source, by simp⟩).source
    · -- A call asks only if the search has not begun, and then there is nothing to place.
      have hgiven := kept_given (σ := σ) (L := landscape x.vms x.hosts)
        (Q := fun kept => (kept.getD nothing).mapping.isEmpty = true) (C := ¬ x.IsReady)
        fun hempty kept source first source' hkept hfirst => by
          change (initial x.vms x.hosts kept).start source = _ at hfirst
          rw [initial_of_kept (Or.inr (not_isReady_iff.mp hempty)), Attempt.start_pure] at hfirst
          cases hfirst
          rwa [Option.getD_some, Solution.mapping_evaluated]
      exact (hgiven.enduring.attended.call c (l := []) (r := (x.search, x.surroundings))
        ⟨x.landscape_eq, h.kept, fun hfresh hready => hnot ⟨hfresh, hready⟩⟩).kept

theorem IsBare.after {deeds : List Deed} (h : x.IsBare) (hnot : ¬ Deed.HaveAsked deeds x) :
    (Deed.after deeds x).IsBare := by
  induction deeds generalizing x with
  | nil => exact h
  | cons d rest ih =>
    rw [Deed.HaveAsked, not_or] at hnot
    exact ih (h.run hnot.1) hnot.2

/-- A placement that is kept stays the one it is in all parts of a call. -/
theorem kept_keeps (vms : List (Vm Int)) (hosts : List (Host Int))
    (hne : first.mapping.isEmpty = false) :
    Kept fun (_ : List (Event Float (Vm Int) (Host Int))) (s : Search Float σ (Vm Int) (Host Int)) =>
      s.Given (landscape vms hosts)
        (fun kept => kept = some first ∨ kept = some first.evaluated) True := by
  refine kept_given fun _ kept source again source' hkept hagain => ?_
  have hplaced : (kept.getD nothing).mapping.isEmpty = false := by
    rcases hkept with rfl | rfl
    · exact hne
    · rwa [Option.getD_some, first.mapping_evaluated]
  change (initial vms hosts kept).start source = _ at hagain
  rw [initial_of_kept (Or.inl hplaced), Attempt.start_pure] at hagain
  cases hagain
  refine Or.inr ?_
  rcases hkept with rfl | rfl
  · rfl
  · rw [Option.getD_some, first.evaluated_evaluated]

theorem Keeps.run (h : x.Keeps first) (hne : first.mapping.isEmpty = false) (d : Deed) :
    (d.run x).Keeps first := by
  cases d with
  | supply vms hosts => exact h
  | ask =>
    obtain ⟨again, hinitial, hagain⟩ := h.start_initial hne
    rw [Keeps, Deed.search_ask, hinitial]
    rcases hagain with rfl | rfl
    · exact Or.inl rfl
    · exact Or.inr rfl
  | call c =>
    exact ((kept_keeps x.vms x.hosts hne).enduring.attended.call c (l := []) (r := (x.search, x.surroundings))
      ⟨x.landscape_eq, h, fun _ => trivial⟩).kept

theorem Keeps.after (h : x.Keeps first) (hne : first.mapping.isEmpty = false) (deeds : List Deed) :
    (Deed.after deeds x).Keeps first := by
  induction deeds generalizing x with
  | nil => exact h
  | cons d rest ih => exact ih (h.run hne d)

theorem keeps_of_asks {d : Deed} (hasks : d.Asks x) {t : Search Float σ (Vm Int) (Host Int)}
    (hfirst : Search.initial.start x.search = (.ok first, t))
    (hne : first.mapping.isEmpty = false) : (d.run x).Keeps first := by
  cases d with
  | supply vms hosts => exact hasks.elim
  | ask =>
    obtain ⟨source, -, rfl⟩ := Search.exists_of_start_initial hfirst
    rw [Keeps, Deed.search_ask, hfirst]
    exact Or.inl rfl
  | call c =>
    -- The search begins with what it is handed out, so all of the call runs with it.
    obtain ⟨source, hsource, -⟩ := Search.exists_of_start_initial hfirst
    have hkeeps := kept_keeps (σ := σ) x.vms x.hosts hne
    refine (hkeeps.call_of_start c
      (hkeeps.start_of_begin (r := (x.search, x.surroundings)) hasks ?_)).kept
    rw [Search.begin_of_ok hsource]
    exact ⟨x.landscape_eq, Or.inr rfl, fun _ => trivial⟩

end Site

/-- Whatever has been done at a site, the initial solution is handed out whenever it is asked for.
Before it has been asked for while there are machines and hosts, it is empty and nothing is drawn. The
first time there are both, no more hosts than a memory could hold, one sample is drawn for each machine
of the list, and the distinct machines, in the order of the list, are bound to the hosts of the samples
for their last places. Once a placement has been handed out it is handed out for good, and nothing is
drawn for it. -/
theorem first_placement_is_drawn_once [Strategy Float σ]
    [Acceptance Float σ (Solution Float (Vm Int) (Host Int))] {vms : List (Vm Int)}
    {hosts : List (Host Int)} (strategy : σ) {source : Source Float} (hsource : source.InUnit)
    (searches : Datum) (recorder : Option Recorder) (w : Surroundings Float) (deeds : List Deed)
    {x y : Site σ} (hx : x = .fresh vms hosts strategy source searches recorder w)
    (hy : y = Deed.after deeds x) :
    (¬ Deed.HaveAsked deeds x → ¬ y.IsReady → ∃ first,
      Search.initial.start y.search = (.ok first, { y.search with kept := some first }) ∧
        first.mapping = .empty) ∧
    (¬ Deed.HaveAsked deeds x → y.IsReady → y.hosts.length < 2 ^ 63 → ∃ first t,
      Search.initial.start y.search = (.ok first, t) ∧
        t = { y.search with
          source := y.search.source.skip y.vms.length, kept := some first } ∧
        t.source.drawn = y.search.source.drawn + y.vms.length ∧
        IsDrawn y.vms y.hosts y.search.source first.mapping) ∧
    ∀ d first t later, d.Asks y → Search.initial.start y.search = (.ok first, t) →
      first.mapping ≠ .empty → ∀ z, z = Deed.after (d :: later) y → ∃ again,
        Search.initial.start z.search = (.ok again, { z.search with kept := some again }) ∧
          (again = first ∨ again = first.evaluated) ∧ again.mapping = first.mapping := by
  subst hx hy
  have hbare : (Site.fresh vms hosts strategy source searches recorder w).IsBare := ⟨hsource, rfl⟩
  refine ⟨fun hnot hempty => ?_, fun hnot hready hlength => ?_, ?_⟩
  · have hnone := (hbare.after hnot).kept
    rw [Mapping.isEmpty, List.isEmpty_iff] at hnone
    exact ⟨_, Site.start_initial_of_kept (Or.inr hempty), congrArg Mapping.mk hnone⟩
  · obtain ⟨first, hfirst, hdrawn⟩ := (hbare.after hnot).start_initial hready hlength
    exact ⟨first, _, hfirst, rfl, Source.drawn_skip _ _, hdrawn⟩
  · rintro d first t later hasks hfirst hne z rfl
    have hplaced : first.mapping.isEmpty = false := by
      rw [Mapping.isEmpty, List.isEmpty_eq_false_iff]
      exact fun h => hne (congrArg Mapping.mk h)
    have hkeeps := (Site.keeps_of_asks hasks hfirst hplaced).after hplaced later
    obtain ⟨again, hagain, hsame⟩ := hkeeps.start_initial hplaced
    refine ⟨again, hagain, hsame, ?_⟩
    rcases hsame with rfl | rfl
    · rfl
    · exact first.mapping_evaluated

def vacantSite : Site (Plan Float) :=
  .fresh [] [] (.gravity ⟨⟨0, 4⟩⟩) (.repeating ([0.25, 0.75, 0.5].map .real)) (.int 1) none
    ⟨0, 0, .empty, []⟩

/-- The same site after it has been asked for a placement and has got three machines, one of them
twice, and two hosts. -/
def suppliedSite : Site (Plan Float) :=
  Deed.after [.ask, .supply [⟨1, 2⟩, ⟨2, 3⟩, ⟨1, 2⟩] [⟨1, 8⟩, ⟨2, 4⟩]] vacantSite

/-- Nothing is placed at first. Then the machine that is listed twice is bound to the host of the
third sample, and stays there when the search has begun and both lists are gone. -/
theorem first_placement_is_drawn_once_supplied :
    (∃ first, Search.initial.start vacantSite.search =
      (.ok first, { vacantSite.search with kept := some first }) ∧ first.mapping = .empty) ∧
    ∃ first, Search.initial.start suppliedSite.search = (.ok first, { suppliedSite.search with
      source := suppliedSite.search.source.skip 3, kept := some first }) ∧
    first.mapping.tasks = [⟨1, 2⟩, ⟨2, 3⟩] ∧ (⟨1, 2⟩, ⟨2, 4⟩) ∈ first.mapping.entries ∧
    ∀ y, y = Deed.after [.call .start, .supply [] [], .call .step, .ask] suppliedSite → ∃ again,
      Search.initial.start y.search = (.ok again, { y.search with kept := some again }) ∧
        again.mapping = first.mapping := by
  have hsource : (Source.repeating ([(0.25 : Float), 0.75, 0.5].map .real)).InUnit := by
    have hall : ∀ x ∈ [(0.25 : Float), 0.75, 0.5], 0 ≤ x ∧ x < 1 := by decide +kernel
    refine Source.inUnit_repeating (by simp) fun x hx => ?_
    obtain ⟨y, hy, rfl⟩ := List.mem_map.mp hx
    exact hall y hy
  have hnot : ¬ Deed.HaveAsked
      [.ask, .supply [⟨1, 2⟩, ⟨2, 3⟩, ⟨1, 2⟩] [⟨1, 8⟩, ⟨2, 4⟩]] vacantSite := by
    simp [Deed.HaveAsked, Deed.Asks, Site.IsReady, vacantSite, Site.fresh]
  have hready : suppliedSite.IsReady := ⟨List.cons_ne_nil _ _, List.cons_ne_nil _ _⟩
  obtain ⟨hnone, -, -⟩ := first_placement_is_drawn_once (x := vacantSite) (y := vacantSite)
    _ hsource _ _ _ [] rfl rfl
  refine ⟨hnone not_false fun hready => hready.1 rfl, ?_⟩
  obtain ⟨-, hdraws, hkeeps⟩ := first_placement_is_drawn_once (x := vacantSite)
    (y := suppliedSite) _ hsource _ _ _ _ rfl rfl
  obtain ⟨first, _, hfirst, rfl, -, hdrawn⟩ := hdraws hnot hready (by decide)
  have htasks : first.mapping.tasks = [⟨1, 2⟩, ⟨2, 3⟩] := hdrawn.tasks.trans (by decide)
  refine ⟨first, hfirst, htasks, ?_, fun y hy => ?_⟩
  · obtain ⟨host, ⟨i, hi, hget⟩, hmem⟩ := hdrawn.bound 2 ⟨1, 2⟩ rfl (by decide)
    have hone : (Source.position suppliedSite.hosts.length
        (suppliedSite.search.source.skip 2).sample.1).toOption = some 1 := by decide +kernel
    rw [hi] at hone
    obtain rfl : i = 1 := by
      have hsame : (i : Int) = 1 := Option.some.inj hone
      omega
    cases hget
    exact hmem
  · have hne : first.mapping ≠ .empty := by
      intro h
      rw [h] at htasks
      cases htasks
    obtain ⟨again, hagain, -, hsame⟩ :=
      hkeeps (.call .start) first _ [.supply [] [], .call .step, .ask] rfl hfirst hne y hy
    exact ⟨again, hagain, hsame⟩

end Placement
end AssignmentSearch
