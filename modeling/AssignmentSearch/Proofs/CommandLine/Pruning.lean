import AssignmentSearch.CommandLine.LogFolder
import AssignmentSearch.Proofs.Search.Clerical
import AssignmentSearch.Proofs.Storage.Deletions
import Mathlib.Data.List.Perm.Subperm

/-!
# Room for a log

When a log is opened the latest logs stay, as many as leave room for it, and the others are deleted. A
log that resists its deletion stays, but keeps no other log from being deleted. What is no log is not
touched.
-/

namespace AssignmentSearch

namespace LogFolder

open Files

variable {α : Type} {folder : FilePath} {f : Files} {name : String}

/-! ## The order of the logs -/

theorem isLater_trans (a b c : String × Int) (hab : decide (b.2 ≤ a.2) = true)
    (hbc : decide (c.2 ≤ b.2) = true) : decide (c.2 ≤ a.2) = true := by
  simp only [decide_eq_true_eq] at hab hbc ⊢
  omega

theorem isLater_total (a b : String × Int) : (decide (b.2 ≤ a.2) || decide (a.2 ≤ b.2)) = true := by
  simp only [Bool.or_eq_true, decide_eq_true_eq]
  omega

theorem perm_newestFirst (names : List (String × Int)) : (newestFirst names).Perm names :=
  List.mergeSort_perm names _

theorem pairwise_newestFirst (names : List (String × Int)) :
    (newestFirst names).Pairwise fun a b => b.2 ≤ a.2 := by
  refine (List.pairwise_mergeSort isLater_trans isLater_total names).imp ?_
  intro a b h
  simpa using h

theorem filter_newestFirst (names : List (String × Int)) (time : Int) :
    (newestFirst names).filter (fun e => e.2 = time) = names.filter fun e => e.2 = time := by
  have hsame : (names.filter fun e => e.2 = time).Pairwise fun a b => decide (b.2 ≤ a.2) = true := by
    rw [List.pairwise_filter]
    refine List.pairwise_of_forall ?_
    intro a b ha hb
    simp only [decide_eq_true_eq] at ha hb ⊢
    omega
  have hsub : (names.filter fun e => e.2 = time).Sublist (newestFirst names) :=
    List.sublist_mergeSort isLater_trans isLater_total hsame List.filter_sublist
  have hfiltered := hsub.filter fun e => decide (e.2 = time)
  rw [List.filter_filter] at hfiltered
  simp only [Bool.and_self] at hfiltered
  exact (hfiltered.eq_of_length ((perm_newestFirst names).symm.filter _).length_eq).symm

theorem newestFirst_of_pairwise {names : List (String × Int)}
    (h : names.Pairwise fun a b => b.2 ≤ a.2) : newestFirst names = names := by
  apply List.mergeSort_of_pairwise
  refine h.imp ?_
  intro a b hab
  simpa using hab

/-- No log that has to go is later than one that stays. -/
theorem le_of_kept {names : List (String × Int)} {a b : String × Int}
    (ha : a ∈ (newestFirst names).take (capacity - 1)) (hb : b ∈ surplus names) : b.2 ≤ a.2 := by
  have hsorted := pairwise_newestFirst names
  rw [← List.take_append_drop (capacity - 1) (newestFirst names), List.pairwise_append] at hsorted
  exact hsorted.2.2 a ha b hb

/-! ## Logs by name -/

theorem isLogName_logName (time : String) : isLogName (logName time) = true := by
  rw [isLogName, logName, String.toList_ofList, List.append_assoc, List.drop_left]
  simp

theorem isBase_of_isLogName (h : isLogName name = true) (place : List String) :
    FilePath.isBase (place ++ [name]) = false := by
  have hne : ∀ other : String, isLogName other = false → name ≠ other := by
    rintro other hother rfl
    rw [h] at hother
    cases hother
  have hslash := hne "/" (by decide)
  have hslashes := hne "//" (by decide)
  have hdots := hne ".." (by decide)
  rw [FilePath.isBase]
  simp [List.append_eq_cons_iff, hslash, hslashes, hdots]

theorem names_logs (folder : FilePath) (f : Files) :
    (logs folder f).map (·.1) = (f.namesIn folder.place).filter isLogName := by
  rw [logs, List.map_map]
  exact List.map_id _

theorem mem_logs :
    name ∈ (logs folder f).map (·.1) ↔
      isLogName name = true ∧ f.node? (folder.place ++ [name]) ≠ none := by
  rw [names_logs, List.mem_filter, and_comm, and_congr_right_iff]
  intro h
  exact mem_namesIn (isBase_of_isLogName h _)

theorem nodup_logs (h : f.Distinct) (folder : FilePath) : ((logs folder f).map (·.1)).Nodup := by
  rw [names_logs]
  exact (h.nodup_namesIn _).filter _

/-! ## Deleting -/

/-- The surroundings turn the deletion down, or what has the name of a log is a folder. -/
def Resists (folder : FilePath) (f : Files) (i : Nat) (name : String) : Prop :=
  f.refuses (f.accesses + i) = true ∨ f.node? (folder.place ++ [name]) = some .folder

instance (folder : FilePath) (f : Files) (i : Nat) (name : String) :
    Decidable (Resists folder f i name) :=
  inferInstanceAs (Decidable (_ ∨ _))

def deleteEach (folder : FilePath) : List (String × Int) → Attempt (Surroundings α) Unit
  | [] => pure ()
  | e :: rest => do
    let _ ← Surroundings.tryAccess (trouble (folder.join e.1)) (Files.delete (folder.join e.1))
    deleteEach folder rest

theorem prune_eq (folder : FilePath) : (prune folder : Attempt (Surroundings α) Unit) =
    get >>= fun s => deleteEach folder (surplus (logs folder s.files)) := by
  rw [prune]
  congr 1
  funext s
  dsimp only
  induction surplus (logs folder s.files) with
  | nil => simp [deleteEach]
  | cons e rest ih =>
    rw [deleteEach, ← ih]
    simp

structure Swept (folder : FilePath) (names : List String) (f g : Files) : Prop where
  refuses : g.refuses = f.refuses
  accesses : g.accesses = f.accesses + names.length
  distinct : f.Distinct → g.Distinct
  hasFolder : f.HasFolder folder → g.HasFolder folder
  others : ∀ place, (∀ name ∈ names, place ≠ folder.place ++ [name]) → g.node? place = f.node? place
  deleted : ∀ i name, names[i]? = some name → ¬ Resists folder f i name →
    g.node? (folder.place ++ [name]) = none
  stays : ∀ i name, names[i]? = some name → Resists folder f i name →
    g.node? (folder.place ++ [name]) = f.node? (folder.place ++ [name])

structure Holds (folder : FilePath) (f : Files) (name : String) : Prop where
  isLog : isLogName name = true
  admits : folder.Admits name
  present : f.node? (folder.place ++ [name]) ≠ none

namespace Swept

theorem nil (folder : FilePath) (f : Files) : Swept folder [] f f where
  refuses := rfl
  accesses := rfl
  distinct := id
  hasFolder := id
  others _ _ := rfl
  deleted i name h := by simp at h
  stays i name h := by simp at h

theorem of_resists (h : Resists folder f 0 name) : Swept folder [name] f f.counted where
  refuses := rfl
  accesses := rfl
  distinct := id
  hasFolder := (changes_counted (s := ∅) f).hasFolder
  others _ _ := rfl
  deleted i other hi hresists := by
    obtain ⟨rfl, rfl⟩ : i = 0 ∧ name = other := by
      cases i <;> simp_all
    exact absurd h hresists
  stays _ _ _ _ := rfl

theorem of_removed (h : Holds folder f name) (hresists : ¬ Resists folder f 0 name) :
    Swept folder [name] f (f.counted.remove (folder.place ++ [name])) where
  refuses := rfl
  accesses := rfl
  distinct hf := hf.counted.remove _
  hasFolder := by
    have hfile : f.counted.node? (folder.place ++ [name]) ≠ some .folder := fun hf =>
      hresists (Or.inr hf)
    exact ((changes_counted f).trans (Changes.remove hfile)).hasFolder
  others place hplace := node?_remove_of_ne _ (hplace name List.mem_cons_self)
  deleted i other hi _ := by
    obtain ⟨rfl, rfl⟩ : i = 0 ∧ name = other := by
      cases i <;> simp_all
    exact node?_remove_self _ (isBase_of_isLogName h.isLog _)
  stays i other hi hother := by
    obtain ⟨rfl, rfl⟩ : i = 0 ∧ name = other := by
      cases i <;> simp_all
    exact absurd hother hresists

theorem place_ne {names : List String} (hnew : name ∉ names) :
    ∀ n ∈ names, folder.place ++ [name] ≠ folder.place ++ [n] := by
  intro n hn heq
  simp only [List.append_cancel_left_eq, List.cons.injEq, and_true] at heq
  exact hnew (heq ▸ hn)

theorem resists_iff {g : Files} (h : Swept folder [name] f g) {other : String} (hne : other ≠ name)
    (i : Nat) : Resists folder g i other ↔ Resists folder f (i + 1) other := by
  have hplace : g.node? (folder.place ++ [other]) = f.node? (folder.place ++ [other]) :=
    h.others _ (by simpa using hne)
  have hcount : g.accesses + i = f.accesses + (i + 1) := by
    rw [h.accesses, List.length_singleton]
    omega
  rw [Resists, Resists, h.refuses, hplace, hcount]

theorem cons {g k : Files} {names : List String} (h : Swept folder [name] f g)
    (hrest : Swept folder names g k) (hnew : name ∉ names) : Swept folder (name :: names) f k where
  refuses := hrest.refuses.trans h.refuses
  accesses := by
    rw [hrest.accesses, h.accesses, List.length_singleton, List.length_cons]
    omega
  distinct hf := hrest.distinct (h.distinct hf)
  hasFolder hf := hrest.hasFolder (h.hasFolder hf)
  others place hplace := by
    rw [List.forall_mem_cons] at hplace
    rw [hrest.others place hplace.2, h.others place (by simpa using hplace.1)]
  deleted i other hi hresists := by
    cases i with
    | zero =>
      have hother : name = other := by simpa using hi
      subst hother
      rw [hrest.others _ (place_ne hnew)]
      exact h.deleted 0 name rfl hresists
    | succ i =>
      rw [List.getElem?_cons_succ] at hi
      have hne : other ≠ name := by
        rintro rfl
        exact hnew (List.mem_of_getElem? hi)
      exact hrest.deleted i other hi fun hr => hresists ((h.resists_iff hne i).mp hr)
  stays i other hi hresists := by
    cases i with
    | zero =>
      have hother : name = other := by simpa using hi
      subst hother
      rw [hrest.others _ (place_ne hnew)]
      exact h.stays 0 name rfl hresists
    | succ i =>
      rw [List.getElem?_cons_succ] at hi
      have hne : other ≠ name := by
        rintro rfl
        exact hnew (List.mem_of_getElem? hi)
      rw [hrest.stays i other hi ((h.resists_iff hne i).mpr hresists)]
      exact h.others _ (by simpa using hne)

end Swept

theorem swept_delete (hfolder : f.HasFolder folder) (h : Holds folder f name) :
    Swept folder [name] f (delete (folder.join name) f).2 := by
  have hlocate := h.admits.locate_join hfolder
  have hplace := h.admits.place_join
  by_cases hresists : Resists folder f 0 name
  · obtain ⟨d, hdenied⟩ := delete_of_resists hlocate (by rwa [hplace])
    rw [hdenied]
    exact .of_resists hresists
  · obtain ⟨n, hnode⟩ := Option.ne_none_iff_exists'.mp h.present
    have hfile : n ≠ .folder := by
      rintro rfl
      exact hresists (Or.inr hnode)
    have hopen : f.refuses f.accesses = false := by
      rw [Bool.eq_false_iff]
      exact fun hr => hresists (Or.inl hr)
    rw [delete_of_locate hopen hlocate (by rw [hplace, hnode]) hfile, hplace]
    exact .of_removed h hresists

theorem exists_swept (logs : List (String × Int)) {s : Surroundings α}
    (hfolder : s.files.HasFolder folder) (hdistinct : (logs.map (·.1)).Nodup)
    (h : ∀ e ∈ logs, Holds folder s.files e.1) :
    ∃ t, (deleteEach folder logs).start s = (.ok (), t) ∧
      Swept folder (logs.map (·.1)) s.files t.files := by
  induction logs generalizing s with
  | nil => exact ⟨s, rfl, .nil folder s.files⟩
  | cons e rest ih =>
    rw [List.forall_mem_cons] at h
    rw [List.map_cons, List.nodup_cons] at hdistinct
    have hone := swept_delete hfolder h.1
    have hplain := isTried_delete (h.1.admits.hasNull_join hfolder.hasNull)
    obtain ⟨done, u, hstart, hfiles⟩ : ∃ done u, (Surroundings.tryAccess (trouble (folder.join e.1))
        (Files.delete (folder.join e.1))).start s = (.ok done, u) ∧
          u.files = (delete (folder.join e.1) s.files).2 := by
      rw [Surroundings.start_tryAccess _ hplain]
      rcases delete (folder.join e.1) s.files with ⟨a, g⟩
      cases a <;> exact ⟨_, _, rfl, rfl⟩
    rw [← hfiles] at hone
    have hrest : ∀ e' ∈ rest, Holds folder u.files e'.1 := by
      intro e' he'
      have hne : e'.1 ≠ e.1 := by
        intro heq
        exact hdistinct.1 (heq ▸ List.mem_map_of_mem he')
      refine ⟨(h.2 e' he').isLog, (h.2 e' he').admits, ?_⟩
      rw [hone.others _ (by simpa using hne)]
      exact (h.2 e' he').present
    obtain ⟨t, hlater, hswept⟩ := ih (hone.hasFolder hfolder) hdistinct.2 hrest
    refine ⟨t, ?_, hone.cons hswept hdistinct.1⟩
    rw [deleteEach, Attempt.start_bind_ok hstart, hlater]

/-! ## Opening a log -/

/-- Files `g` in which a log has been opened, after room was made for it in files `f`. -/
structure Pruned (folder : FilePath) (latest : String) (f g : Files) : Prop where
  opened : g.node? (folder.place ++ [latest]) = some (.file "")
  deleted : ∀ i e, (surplus (logs folder f))[i]? = some e → ¬ Resists folder f i e.1 → e.1 ≠ latest →
    g.node? (folder.place ++ [e.1]) = none
  stays : ∀ i e, (surplus (logs folder f))[i]? = some e → Resists folder f i e.1 → e.1 ≠ latest →
    g.node? (folder.place ++ [e.1]) = f.node? (folder.place ++ [e.1])
  others : ∀ place, (∀ e ∈ surplus (logs folder f), place ≠ folder.place ++ [e.1]) →
    place ≠ folder.place ++ [latest] → g.node? place = f.node? place
  distinct : g.Distinct

theorem mem_surplus {e : String × Int} {names : List (String × Int)} (h : e ∈ surplus names) :
    e ∈ names :=
  (perm_newestFirst names).mem_iff.mp (List.mem_of_mem_drop h)

theorem mem_kept {e : String × Int} {names : List (String × Int)}
    (h : e ∈ (newestFirst names).take (capacity - 1)) : e ∈ names :=
  (perm_newestFirst names).mem_iff.mp (List.mem_of_mem_take h)

theorem nodup_newestFirst (h : f.Distinct) (folder : FilePath) :
    ((newestFirst (logs folder f)).map (·.1)).Nodup :=
  ((perm_newestFirst _).map _).nodup_iff.mpr (nodup_logs h folder)

namespace Pruned

variable {latest : String} {g : Files}

theorem kept (h : Pruned folder latest f g) (hdistinct : f.Distinct) {e : String × Int}
    (he : e ∈ (newestFirst (logs folder f)).take (capacity - 1)) (hne : e.1 ≠ latest) :
    g.node? (folder.place ++ [e.1]) = f.node? (folder.place ++ [e.1]) := by
  have hnodup := nodup_newestFirst hdistinct folder
  rw [← List.take_append_drop (capacity - 1) (newestFirst (logs folder f)), List.map_append,
    List.nodup_append] at hnodup
  refine h.others _ (fun e' he' heq => ?_) (by simpa using hne)
  exact hnodup.2.2 _ (List.mem_map_of_mem he) _ (List.mem_map_of_mem he') (by simpa using heq)

theorem untouched (h : Pruned folder latest f g) (hlatest : isLogName latest = true)
    {place : List String} (hplace : ∀ name, isLogName name = true → place ≠ folder.place ++ [name]) :
    g.node? place = f.node? place := by
  refine h.others place (fun e he => hplace e.1 ?_) (hplace latest hlatest)
  exact (mem_logs.mp (List.mem_map_of_mem (mem_surplus he))).1

theorem mem_logs_iff (h : Pruned folder latest f g) (hdistinct : f.Distinct)
    (hlatest : isLogName latest = true)
    (hnone : ∀ i e, (surplus (logs folder f))[i]? = some e → ¬ Resists folder f i e.1) :
    name ∈ (logs folder g).map (·.1) ↔
      name ∈ ((newestFirst (logs folder f)).take (capacity - 1)).map (·.1) ∨ name = latest := by
  by_cases hname : name = latest
  · simp only [hname, or_true, iff_true]
    exact mem_logs.mpr ⟨hlatest, by rw [h.opened]; simp⟩
  simp only [hname, or_false]
  constructor
  · intro hmem
    obtain ⟨hisLog, hpresent⟩ := mem_logs.mp hmem
    -- what is left was there before and has not been deleted
    have hgone : ∀ e ∈ surplus (logs folder f), folder.place ++ [name] ≠ folder.place ++ [e.1] := by
      intro e he heq
      have heq : name = e.1 := by simpa using heq
      subst heq
      obtain ⟨i, hi⟩ := List.mem_iff_getElem?.mp he
      exact hpresent (h.deleted i e hi (hnone i e hi) hname)
    rw [h.others _ hgone (by simpa using hname)] at hpresent
    obtain ⟨e, he, rfl⟩ := List.mem_map.mp (mem_logs.mpr ⟨hisLog, hpresent⟩)
    have hsplit := (perm_newestFirst _).mem_iff.mpr he
    rw [← List.take_append_drop (capacity - 1) (newestFirst (logs folder f)), List.mem_append] at hsplit
    rcases hsplit with hkept | hsurplus
    · exact List.mem_map_of_mem hkept
    · exact absurd rfl (hgone e hsurplus)
  · intro hmem
    obtain ⟨e, he, rfl⟩ := List.mem_map.mp hmem
    obtain ⟨hisLog, hpresent⟩ := mem_logs.mp (List.mem_map_of_mem (mem_kept he))
    refine mem_logs.mpr ⟨hisLog, ?_⟩
    rwa [h.kept hdistinct he hname]

theorem length_logs_le (h : Pruned folder latest f g) (hdistinct : f.Distinct)
    (hlatest : isLogName latest = true)
    (hnone : ∀ i e, (surplus (logs folder f))[i]? = some e → ¬ Resists folder f i e.1) :
    (logs folder g).length ≤ capacity := by
  have hsub : (logs folder g).map (·.1) ⊆
      latest :: ((newestFirst (logs folder f)).take (capacity - 1)).map (·.1) := by
    intro name hname
    rcases (h.mem_logs_iff hdistinct hlatest hnone).mp hname with hkept | rfl
    · exact List.mem_cons_of_mem _ hkept
    · exact List.mem_cons_self
  have hlength := (List.subperm_of_subset (nodup_logs h.distinct folder) hsub).length_le
  simp only [List.length_map, List.length_cons, List.length_take] at hlength
  have hroom : capacity - 1 + 1 = capacity := rfl
  omega

end Pruned

theorem start_access {x : Access Unit} {s : Surroundings α} {g : Files}
    (h : x s.files = (.ok (), g)) :
    (Surroundings.access x).start s = (.ok (), { s with files := g }) := by
  rw [Surroundings.access, Attempt.start_bind_ok (Attempt.start_get s), h]
  rfl

theorem exists_pruned {s : Surroundings α} {time : String} (threshold : Nat)
    (hmade : makeFolder folder s.files = (.ok (), f)) (hdistinct : f.Distinct)
    (hadmits : ∀ name, name ∈ (logs folder f).map (·.1) ∨ name = logName time → folder.Admits name)
    (hfile : f.node? (folder.place ++ [logName time]) ≠ some .folder)
    (hopens : f.refuses (f.accesses + (surplus (logs folder f)).length) = false)
    (hstores : f.refuses (f.accesses + (surplus (logs folder f)).length + 1) = false) :
    ∃ t, (openLog folder time threshold).start s =
        (.ok ⟨folder.join (logName time), threshold⟩, t) ∧
      Pruned folder (logName time) f t.files := by
  have hfolder := makeFolder_ok hmade
  have hholds : ∀ e ∈ surplus (logs folder f), Holds folder f e.1 := by
    intro e he
    have hmem := List.mem_map_of_mem (f := (·.1)) (mem_surplus he)
    obtain ⟨hisLog, hpresent⟩ := mem_logs.mp hmem
    exact ⟨hisLog, hadmits _ (Or.inl hmem), hpresent⟩
  have hnodup : ((surplus (logs folder f)).map (·.1)).Nodup :=
    (nodup_newestFirst hdistinct folder).sublist ((List.drop_sublist _ _).map _)
  obtain ⟨u, hstart, hswept⟩ := exists_swept (surplus (logs folder f)) (s := { s with files := f })
    hfolder hnodup hholds
  have hrefuses : u.files.refuses = f.refuses := hswept.refuses
  have hlatest := hadmits _ (Or.inr rfl)
  have hplace := hlatest.place_join
  have hfree : u.files.node? (folder.place ++ [logName time]) ≠ some .folder := by
    by_cases hmem : logName time ∈ (surplus (logs folder f)).map (·.1)
    · obtain ⟨i, hi⟩ := List.mem_iff_getElem?.mp hmem
      by_cases hresists : Resists folder f i (logName time)
      · rwa [hswept.stays i _ hi hresists]
      · simp [hswept.deleted i _ hi hresists]
    · rwa [hswept.others _ (Swept.place_ne hmem)]
  have hcount : u.files.accesses = f.accesses + (surplus (logs folder f)).length := by
    rw [hswept.accesses, List.length_map]
  rw [← hcount, ← hrefuses] at hopens hstores
  have hwrite := write_of_locate "" hopens hstores (hlatest.locate_join (hswept.hasFolder hfolder))
    (by rwa [hplace])
  rw [hplace] at hwrite
  obtain ⟨g, hg⟩ : ∃ g, g = (u.files.counted.set (folder.place ++ [logName time]) (.file "")).counted.set
    (folder.place ++ [logName time]) (.file "") := ⟨_, rfl⟩
  have hothers {place : List String} (hne : place ≠ folder.place ++ [logName time]) :
      g.node? place = u.files.node? place := by
    rw [hg, node?_set_of_ne _ _ hne, node?_counted, node?_set_of_ne _ _ hne, node?_counted]
  have hnamed {e : String × Int} (hne : e.1 ≠ logName time) :
      folder.place ++ [e.1] ≠ folder.place ++ [logName time] := by simpa using hne
  rw [← hg] at hwrite
  refine ⟨{ u with files := g }, ?_, {
    opened := by rw [hg, node?_written "" hfree]
    deleted := fun i e hi hresists hne => ?_
    stays := fun i e hi hresists hne => ?_
    others := fun place hplaces hne => ?_
    distinct := by
      rw [hg]
      exact (((hswept.distinct hdistinct).counted.set _ _).counted.set _ _) }⟩
  · have hpruned : (prune folder).start { s with files := f } = (.ok (), u) := by
      rw [prune_eq, Attempt.start_bind_ok (Attempt.start_get _)]
      exact hstart
    rw [openLog, Attempt.start_bind_ok (start_access hmade), Attempt.start_bind_ok hpruned,
      Attempt.start_bind_ok (start_access hwrite)]
    rfl
  · rw [hothers (hnamed hne)]
    exact hswept.deleted i e.1 (by simp [hi]) hresists
  · rw [hothers (hnamed hne)]
    exact hswept.stays i e.1 (by simp [hi]) hresists
  · rw [hothers hne]
    refine hswept.others place fun name hname => ?_
    obtain ⟨e, he, rfl⟩ := List.mem_map.mp hname
    exact hplaces e he

/-- When a log is opened, the logs that changed last are kept and the others are deleted. -/
theorem newest_logs_are_kept {α : Type} {s : Surroundings α} {f : Files} {folder : FilePath}
    {time : String} (threshold : Nat) (hmade : Files.makeFolder folder s.files = (.ok (), f))
    (hdistinct : f.Distinct)
    (hadmits : ∀ name, name ∈ (logs folder f).map (·.1) ∨ name = logName time → folder.Admits name)
    (hfile : f.node? (folder.place ++ [logName time]) ≠ some .folder)
    (hopens : f.refuses (f.accesses + (surplus (logs folder f)).length) = false)
    (hstores : f.refuses (f.accesses + (surplus (logs folder f)).length + 1) = false) :
    (∃ t, (openLog folder time threshold).start s = (.ok ⟨folder.join (logName time), threshold⟩, t) ∧
      Pruned folder (logName time) f t.files ∧
      (∀ e ∈ (newestFirst (logs folder f)).take (capacity - 1), e.1 ≠ logName time →
        t.files.node? (folder.place ++ [e.1]) = f.node? (folder.place ++ [e.1])) ∧
      (∀ place n, (∀ name, isLogName name = true → place ≠ folder.place ++ [name]) →
        s.files.node? place = some n → t.files.node? place = some n) ∧
      ((∀ i e, (surplus (logs folder f))[i]? = some e → ¬ Resists folder f i e.1) →
        (∀ name, name ∈ (logs folder t.files).map (·.1) ↔
          name ∈ ((newestFirst (logs folder f)).take (capacity - 1)).map (·.1) ∨
            name = logName time) ∧
        (logs folder t.files).length ≤ capacity)) ∧
    (newestFirst (logs folder f)).Perm (logs folder f) ∧
    (newestFirst (logs folder f)).Pairwise (fun a b => b.2 ≤ a.2) ∧
    (∀ m : Int, (newestFirst (logs folder f)).filter (fun e => e.2 = m) =
      (logs folder f).filter fun e => e.2 = m) ∧
    ∀ a ∈ (newestFirst (logs folder f)).take (capacity - 1), ∀ b ∈ surplus (logs folder f),
      b.2 ≤ a.2 := by
  obtain ⟨t, hstart, hpruned⟩ := exists_pruned threshold hmade hdistinct hadmits hfile hopens hstores
  have hlatest := isLogName_logName time
  refine ⟨⟨t, hstart, hpruned, ?_, ?_, ?_⟩, perm_newestFirst _, pairwise_newestFirst _,
    filter_newestFirst _, ?_⟩
  · intro e he hne
    exact hpruned.kept hdistinct he hne
  · intro place n hplace hn
    -- making the folder touches nothing that is there
    have hchanges := Files.alters_makeFolder (s := ∅) folder s.files
    rw [hmade] at hchanges
    rw [hpruned.untouched hlatest hplace]
    exact hchanges.node_of_file (Set.notMem_empty _) hn
  · intro hnone
    exact ⟨fun name => hpruned.mem_logs_iff hdistinct hlatest hnone,
      hpruned.length_logs_le hdistinct hlatest hnone⟩
  · intro a ha b hb
    exact le_of_kept ha hb

def crowded (refuses : Nat → Bool) : Surroundings Float where
  now := 0
  tick := 0
  files := {
    nodes := (["logs"], .folder) :: (["logs", "notes"], .file "") ::
      ["a", "b", "c", "d", "e", "f", "g", "h", "i", "j", "k"].map fun time =>
        (["logs", logName time], .file time)
    changed := fun place => if place = ["logs", logName "k"] then 1 else 5
    refuses := refuses
    accesses := 0 }
  journal := []

theorem logs_crowded (refuses : Nat → Bool) (n : Nat) :
    logs (FilePath.ofText "logs") { (crowded refuses).files with accesses := n } =
      (["a", "b", "c", "d", "e", "f", "g", "h", "i", "j"].map fun time => (logName time, 5)) ++
        [(logName "k", 1)] := rfl

theorem newestFirst_crowded (refuses : Nat → Bool) (n : Nat) :
    newestFirst (logs (FilePath.ofText "logs") { (crowded refuses).files with accesses := n }) =
      (["a", "b", "c", "d", "e", "f", "g", "h", "i", "j"].map fun time => (logName time, 5)) ++
        [(logName "k", 1)] := by
  rw [logs_crowded]
  exact newestFirst_of_pairwise (by decide +kernel)

theorem surplus_crowded (refuses : Nat → Bool) (n : Nat) :
    surplus (logs (FilePath.ofText "logs") { (crowded refuses).files with accesses := n }) =
      [(logName "j", 5), (logName "k", 1)] := by
  rw [surplus, newestFirst_crowded]
  rfl

/-- Of two logs that have to go one may be made anew, or one may resist and the other go. -/
theorem newest_logs_are_kept_in_crowd :
    (∃ t, (openLog (FilePath.ofText "logs") "j" 20).start (crowded fun _ => false) =
        (.ok ⟨(FilePath.ofText "logs").join (logName "j"), 20⟩, t) ∧
      ∀ name, name ∈ (logs (FilePath.ofText "logs") t.files).map (·.1) ↔
        name ∈ (["a", "b", "c", "d", "e", "f", "g", "h", "i", "j"].map logName)) ∧
    ∃ t, (openLog (FilePath.ofText "logs") "l" 20).start (crowded fun n => n = 2) =
        (.ok ⟨(FilePath.ofText "logs").join (logName "l"), 20⟩, t) ∧
      t.files.node? ["logs", logName "j"] = some (.file "j") ∧
      t.files.node? ["logs", logName "k"] = none := by
  let folder := FilePath.ofText "logs"
  let made (refuses : Nat → Bool) : Files := { (crowded refuses).files with accesses := 2 }
  have hmade (refuses : Nat → Bool) (hfirst : refuses 0 = false) (hsecond : refuses 1 = false) :
      Files.makeFolder folder (crowded refuses).files = (.ok (), made refuses) :=
    Files.makeFolder_of_hasFolder hfirst hsecond ⟨rfl, rfl⟩
  have hdistinct (refuses : Nat → Bool) : (made refuses).Distinct := by
    change ((crowded fun _ => false).files.nodes.map (·.1)).Nodup
    decide +kernel
  have hadmits (refuses : Nat → Bool) (time : String) (htime : folder.Admits (logName time)) :
      ∀ name, name ∈ (logs folder (made refuses)).map (·.1) ∨ name = logName time →
        folder.Admits name := by
    rintro name (h | rfl)
    · rw [logs_crowded] at h
      revert name
      decide +kernel
    · exact htime
  have hcount (refuses : Nat → Bool) : (surplus (logs folder (made refuses))).length = 2 := by
    rw [surplus_crowded]
    rfl
  constructor
  · obtain ⟨⟨t, hstart, -, -, -, hall⟩, -⟩ := newest_logs_are_kept 20 (hmade (fun _ => false) rfl rfl)
      (hdistinct _) (hadmits _ "j" (by decide +kernel)) (by decide +kernel) rfl rfl
    refine ⟨t, hstart, fun name => ?_⟩
    have hnone : ∀ i e, (surplus (logs folder (made fun _ => false)))[i]? = some e →
        ¬ Resists folder (made fun _ => false) i e.1 := by
      intro i e he
      rw [surplus_crowded] at he
      rcases i with _ | _ | i
      · cases he
        decide +kernel
      · cases he
        decide +kernel
      · cases he
    rw [(hall hnone).1 name, newestFirst_crowded]
    change name ∈ ["a", "b", "c", "d", "e", "f", "g", "h", "i"].map logName ∨ name = logName "j" ↔ _
    simp [or_assoc]
  · obtain ⟨⟨t, hstart, hpruned, -⟩, -⟩ := newest_logs_are_kept 20 (hmade (fun n => n = 2) rfl rfl)
      (hdistinct _) (hadmits _ "l" (by decide +kernel)) (by decide +kernel) (by rw [hcount]; rfl)
      (by rw [hcount]; rfl)
    refine ⟨t, hstart, ?_, ?_⟩
    · exact hpruned.stays 0 (logName "j", 5) (by rw [surplus_crowded]; rfl) (Or.inl rfl) (by decide)
    · refine hpruned.deleted 1 (logName "k", 1) (by rw [surplus_crowded]; rfl) ?_ (by decide)
      decide +kernel

end LogFolder
end AssignmentSearch
