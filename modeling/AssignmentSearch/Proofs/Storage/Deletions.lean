import Mathlib.Data.List.Nodup
import AssignmentSearch.Proofs.Storage.PlainPaths
import AssignmentSearch.Proofs.Storage.Records

/-!
# Deleting files

A file that is deleted is gone, and nothing else changes. What a folder holds is known by name.
-/

namespace AssignmentSearch
namespace Files

theorem node?_remove (f : Files) (place p : List String) :
    (f.remove place).node? p =
      if p = place ∧ FilePath.isBase p = false then none else f.node? p := by
  have hfind : (f.nodes.filter fun e => e.1 ≠ place).find? (fun e => e.1 = p) =
      if p = place then none else f.nodes.find? fun e => e.1 = p := by
    rw [List.find?_filter]
    by_cases hp : p = place
    · simp only [hp, if_true, List.find?_eq_none]
      simp
    · rw [if_neg hp]
      congr 1
      funext e
      by_cases he : e.1 = p
      · simp [he, hp]
      · simp [he]
  rw [node?, node?, remove, hfind]
  cases FilePath.isBase p with
  | true => simp
  | false => by_cases hp : p = place <;> simp [hp]

theorem node?_remove_of_ne (f : Files) {place p : List String} (h : p ≠ place) :
    (f.remove place).node? p = f.node? p := by
  rw [node?_remove, if_neg fun hp => h hp.1]

theorem node?_remove_self (f : Files) {place : List String} (h : FilePath.isBase place = false) :
    (f.remove place).node? place = none := by
  rw [node?_remove, if_pos ⟨rfl, h⟩]

theorem Changes.remove {f : Files} {place : List String} (hfile : f.node? place ≠ some .folder) :
    Changes {place} f (f.remove place) where
  refuses := rfl
  folder p hp := by
    have hne : p ≠ place := by
      rintro rfl
      exact hfile hp
    rw [node?_remove_of_ne f hne, hp]
  node p hp := Or.inl (node?_remove_of_ne f hp)

theorem delete_apply (path : FilePath) (f : Files) :
    delete path f =
      match enter path f with
      | (.error d, g) => (.error d, g)
      | (.ok place, g) =>
        match g.node? place with
        | none => (.error ⟨.missing, path⟩, g)
        | some .folder => (.error ⟨.isFolder, path⟩, g)
        | some _ => (.ok (), g.remove place) := by
  rw [delete, Access.bind_apply]
  rcases enter path f with ⟨a, g⟩
  cases a with
  | error d => rfl
  | ok place =>
    dsimp only
    rw [Access.bind_ok (show (get : Access Files) g = (.ok g, g) from rfl)]
    cases hnode : g.node? place with
    | none => rfl
    | some n => cases n <;> rfl

theorem delete_of_locate {path : FilePath} {f : Files} {n : Node}
    (hrefuses : f.refuses f.accesses = false) (h : f.locate path = .ok path.place)
    (hnode : f.node? path.place = some n) (hfile : n ≠ .folder) :
    delete path f = (.ok (), f.counted.remove path.place) := by
  rw [delete_apply, enter_of_locate hrefuses h]
  dsimp only
  rw [node?_counted, hnode]
  cases n with
  | folder => exact absurd rfl hfile
  | file content => rfl
  | bytes content => rfl

theorem delete_of_resists {path : FilePath} {f : Files} (h : f.locate path = .ok path.place)
    (hresists : f.refuses f.accesses = true ∨ f.node? path.place = some .folder) :
    ∃ d, delete path f = (.error d, f.counted) := by
  cases hrefused : f.refuses f.accesses with
  | true =>
    refine ⟨⟨.refused, path⟩, ?_⟩
    rw [delete_apply, enter_apply, hrefused]
    rfl
  | false =>
    have hfolder : f.node? path.place = some .folder := by simpa [hrefused] using hresists
    refine ⟨⟨.isFolder, path⟩, ?_⟩
    rw [delete_apply, enter_of_locate hrefused h]
    dsimp only
    rw [node?_counted, hfolder]

theorem isTried_delete {path : FilePath} (h : path.hasNull = false) : IsTried (delete path) := by
  refine (isTried_enter h).bind fun place => IsTried.get.bind fun f => ?_
  split
  · exact IsTried.throw (by simp)
  · exact IsTried.throw (by simp)
  · exact IsTried.modify _

/-! ## Names in a folder -/

/-- No place is listed twice. -/
def Distinct (f : Files) : Prop := (f.nodes.map (·.1)).Nodup

theorem Distinct.set {f : Files} (h : f.Distinct) (place : List String) (n : Node) :
    (f.set place n).Distinct := by
  have hplaces : ∀ nodes : List (List String × Node), (put place n nodes).map (·.1) =
      if place ∈ nodes.map (·.1) then nodes.map (·.1) else nodes.map (·.1) ++ [place] := by
    intro nodes
    induction nodes with
    | nil => rfl
    | cons e rest ih =>
      rw [put]
      by_cases he : e.1 = place
      · simp [he]
      · rw [if_neg he, List.map_cons, ih, List.map_cons]
        by_cases hmem : place ∈ rest.map (·.1)
        · rw [if_pos hmem, if_pos (List.mem_cons_of_mem _ hmem)]
        · rw [if_neg hmem, if_neg (by simp [Ne.symm he, hmem]), List.cons_append]
  rw [Distinct, Files.set, hplaces]
  split
  · exact h
  · rename_i hnew
    exact List.nodup_append.mpr ⟨h, by simp, by
      intro p hp q hq heq
      rw [List.mem_singleton.mp hq] at heq
      exact hnew (heq ▸ hp)⟩

theorem Distinct.remove {f : Files} (h : f.Distinct) (place : List String) :
    (f.remove place).Distinct :=
  List.Nodup.sublist (List.filter_sublist.map _) h

theorem Distinct.counted {f : Files} (h : f.Distinct) : f.counted.Distinct := h

def nameIn? (place p : List String) : Option String :=
  if p ≠ [] ∧ p.dropLast = place then p.getLast? else none

theorem namesIn_eq (f : Files) (place : List String) :
    f.namesIn place = (f.nodes.map (·.1)).filterMap (nameIn? place) := by
  rw [namesIn, List.filterMap_map]
  rfl

theorem nameIn?_eq_some {place p : List String} {name : String} :
    nameIn? place p = some name ↔ p = place ++ [name] := by
  rw [nameIn?]
  constructor
  · intro h
    split at h
    · rename_i hp
      rw [← hp.2, List.dropLast_append_getLast? _ h]
    · cases h
  · rintro rfl
    simp

theorem mem_namesIn {f : Files} {place : List String} {name : String}
    (h : FilePath.isBase (place ++ [name]) = false) :
    name ∈ f.namesIn place ↔ f.node? (place ++ [name]) ≠ none := by
  rw [namesIn_eq, List.mem_filterMap, node?, h, if_neg Bool.false_ne_true, ne_eq,
    Option.map_eq_none_iff, List.find?_eq_none]
  simp only [nameIn?_eq_some, exists_eq_right, List.mem_map]
  simp

theorem Distinct.nodup_namesIn {f : Files} (h : f.Distinct) (place : List String) :
    (f.namesIn place).Nodup := by
  rw [namesIn_eq]
  refine List.Nodup.filterMap (fun p q name hp hq => ?_) h
  rw [nameIn?_eq_some.mp hp, nameIn?_eq_some.mp hq]

/-! ## Names that can be followed -/

theorem follow_append {f : Files} {parts place there : List String} {name : String}
    (h : f.follow place parts = .ok there) (hfolder : f.node? there = some .folder)
    (hshort : name.utf8ByteSize ≤ nameLimit) (hdots : name ≠ "..") :
    f.follow place (parts ++ [name]) = .ok (there ++ [name]) := by
  induction parts generalizing place with
  | nil =>
    cases h
    rw [List.nil_append, follow, hfolder]
    dsimp only
    rw [if_neg (not_lt.mpr hshort), follow, FilePath.further, if_pos hdots]
  | cons part rest ih =>
    rw [List.cons_append, follow]
    rw [follow] at h
    cases hnode : f.node? place with
    | none =>
      rw [hnode] at h
      cases h
    | some n =>
      rw [hnode] at h
      cases n with
      | file content => cases h
      | bytes content => cases h
      | folder =>
        dsimp only at h ⊢
        split at h
        · cases h
        · rename_i hpart
          rw [if_neg hpart]
          exact ih h

theorem HasFolder.hasNull {f : Files} {path : FilePath} (h : f.HasFolder path) :
    path.hasNull = false := by
  obtain ⟨hlocate, -⟩ := h
  rw [locate] at hlocate
  split at hlocate
  · cases hlocate
  · rename_i hnull
    simpa using hnull

end Files

namespace FilePath

/-- A folder at a path can hold a file of a name, and the file has a path. -/
structure Admits (folder : FilePath) (name : String) : Prop where
  slash : '/' ∉ name.toList
  null : '\x00' ∉ name.toList
  blank : name ≠ "" ∧ name ≠ "." ∧ name ≠ ".."
  nameShort : name.utf8ByteSize ≤ Files.nameLimit
  pathShort : (folder.join name).text.utf8ByteSize < Files.pathLimit

instance (folder : FilePath) (name : String) : Decidable (folder.Admits name) :=
  decidable_of_iff ('/' ∉ name.toList ∧ '\x00' ∉ name.toList ∧
      (name ≠ "" ∧ name ≠ "." ∧ name ≠ "..") ∧ name.utf8ByteSize ≤ Files.nameLimit ∧
      (folder.join name).text.utf8ByteSize < Files.pathLimit)
    ⟨fun ⟨a, b, c, d, e⟩ => ⟨a, b, c, d, e⟩, fun ⟨a, b, c, d, e⟩ => ⟨a, b, c, d, e⟩⟩

namespace Admits

variable {folder : FilePath} {name : String}

theorem join_eq (h : folder.Admits name) : folder.join name = ⟨folder.root, folder.parts ++ [name]⟩ := by
  have hroot : rootOf name.toList = "" := by
    rw [rootOf]
    cases hcs : name.toList with
    | nil => rfl
    | cons c rest =>
      have hc : c ≠ '/' := by
        rintro rfl
        exact h.slash (by simp [hcs])
      simp [hc]
  have hkept : name.toList ≠ [] ∧ name.toList ≠ ['.'] := by
    constructor
    · intro hnil
      exact h.blank.1 (String.toList_inj.mp hnil)
    · intro hdot
      exact h.blank.2.1 (String.toList_inj.mp hdot)
  have hparts : (ofText name).parts = [name] := by
    rw [ofText, split_of_not_mem [] h.slash]
    simp [hkept]
  rw [join, show (ofText name).root = "" from hroot, hparts]
  rfl

theorem place_join (h : folder.Admits name) : (folder.join name).place = folder.place ++ [name] := by
  rw [h.join_eq, place, List.foldl_append]
  change further folder.place name = _
  rw [further, if_pos h.blank.2.2]

theorem hasNull_join (h : folder.Admits name) (hfolder : folder.hasNull = false) :
    (folder.join name).hasNull = false := by
  have hname : name.toList.contains '\x00' = false := by simpa using h.null
  rw [hasNull] at hfolder
  rw [h.join_eq, hasNull, List.any_append, hfolder, List.any_cons, hname]
  rfl

theorem locate_join (h : folder.Admits name) {f : Files} (hfolder : f.HasFolder folder) :
    f.locate (folder.join name) = .ok (folder.join name).place := by
  have hnull := hfolder.hasNull
  obtain ⟨hlocate, hnode⟩ := hfolder
  rw [Files.locate, hnull, if_neg Bool.false_ne_true] at hlocate
  split at hlocate
  · cases hlocate
  · rw [Files.locate, h.hasNull_join hnull, if_neg Bool.false_ne_true,
      if_neg (not_le.mpr h.pathShort), h.place_join, h.join_eq]
    exact Files.follow_append hlocate hnode h.nameShort h.blank.2.2

end Admits
end FilePath
end AssignmentSearch
