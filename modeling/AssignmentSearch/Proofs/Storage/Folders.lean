import AssignmentSearch.Proofs.Storage.Accesses

/-!
# Making folders

A folder that was made is there, and stays there whatever is written later. Making it once more is no
trouble then.
-/

namespace AssignmentSearch
namespace Files

def HasFolder (f : Files) (path : FilePath) : Prop :=
  f.locate path = .ok path.place ∧ f.node? path.place = some .folder

theorem Changes.hasFolder {s : Set (List String)} {f g : Files} {path : FilePath}
    (h : Changes s f g) (hf : f.HasFolder path) : g.HasFolder path :=
  ⟨h.locate hf.1, h.folder _ hf.2⟩

theorem look_of_locate {path : FilePath} {f : Files} {place : List String}
    (hrefuses : f.refuses f.accesses = false) (h : f.locate path = .ok place) :
    look path f = (.ok (f.node? place), f.counted) := by
  rw [look, Access.tryCatch_apply, Access.bind_ok (enter_of_locate hrefuses h)]
  rfl

theorem look_folder {path : FilePath} {f g : Files} (h : look path f = (.ok (some .folder), g)) :
    g.HasFolder path := by
  rw [look, Access.tryCatch_apply, Access.bind_apply] at h
  rcases hx : enter path f with ⟨a, u⟩
  rw [hx] at h
  cases a with
  | error d =>
    dsimp only at h
    cases hobstacle : d.obstacle <;> rw [hobstacle] at h <;> cases h
  | ok place =>
    obtain ⟨hlocate, rfl, rfl⟩ := enter_ok hx
    obtain ⟨hfound, rfl⟩ := Prod.mk.inj h
    exact ⟨(changes_counted (s := ∅) f).locate hlocate, Except.ok.inj hfound⟩

theorem makeOne_apply (path : FilePath) (f : Files) :
    makeOne path f =
      match enter path f with
      | (.error d, g) => (.error d, g)
      | (.ok place, g) =>
        if (g.node? place).isSome then (.error ⟨.taken, path⟩, g)
        else (.ok (), g.set place .folder) := by
  rw [makeOne, Access.bind_apply]
  rcases enter path f with ⟨a, g⟩
  cases a with
  | error d => rfl
  | ok place =>
    dsimp only
    rw [Access.bind_ok (show (get : Access Files) g = (.ok g, g) from rfl)]
    cases g.node? place <;> rfl

theorem makeOne_ok {path : FilePath} {f g : Files} (h : makeOne path f = (.ok (), g)) :
    g.HasFolder path := by
  rw [makeOne_apply] at h
  rcases hx : enter path f with ⟨a, u⟩
  rw [hx] at h
  cases a with
  | error d => cases h
  | ok place =>
    obtain ⟨hlocate, rfl, rfl⟩ := enter_ok hx
    dsimp only at h
    split at h
    · cases h
    · rename_i hnone
      rw [node?_counted, Option.not_isSome_iff_eq_none] at hnone
      cases h
      have hmade : Changes ∅ f (f.counted.set path.place .folder) :=
        (changes_counted f).trans (.set_folder hnone)
      refine ⟨hmade.locate hlocate, node?_set_self _ ?_⟩
      rw [node?_counted, hnone]
      simp

theorem unlessFolder_ok {path : FilePath} {d : Denial} {f g : Files}
    (h : unlessFolder path d f = (.ok (), g)) : g.HasFolder path := by
  have hlooked : ∀ u, (do if (← look path) ≠ some .folder then throw d : Access Unit) u =
      (.ok (), g) → g.HasFolder path := by
    intro u hu
    obtain ⟨found, v, hlook, hu⟩ := Access.exists_of_bind hu
    split at hu
    · cases hu
    · rename_i hfolder
      cases hu
      rw [not_not.mp hfolder] at hlook
      exact look_folder hlook
  rw [unlessFolder] at h
  split at h
  · cases h
  · exact hlooked f h

theorem unlessFolder_of_hasFolder {path : FilePath} {d : Denial} {f : Files}
    (hd : d.obstacle = .taken) (hrefuses : f.refuses f.accesses = false)
    (h : f.HasFolder path) : unlessFolder path d f = (.ok (), f.counted) := by
  rw [unlessFolder, if_neg (by simp [hd])]
  dsimp only
  rw [Access.bind_ok (look_of_locate hrefuses h.1), h.2]
  rfl

theorem makeFrom_ok {root : String} {names : List String} {f g : Files}
    (h : makeFrom root names f = (.ok (), g)) : g.HasFolder ⟨root, names.reverse⟩ := by
  have hmade : ∀ (path : FilePath) u, (tryCatch (makeOne path) (unlessFolder path) : Access Unit) u =
      (.ok (), g) → g.HasFolder path := by
    intro path u hu
    rw [Access.tryCatch_apply] at hu
    rcases hx : makeOne path u with ⟨a, v⟩
    rw [hx] at hu
    cases a with
    | error d => exact unlessFolder_ok hu
    | ok _ =>
      cases hu
      exact makeOne_ok hx
  cases names with
  | nil => exact hmade _ f h
  | cons last rest =>
    rw [makeFrom, Access.tryCatch_apply] at h
    rcases hx : makeOne ⟨root, (last :: rest).reverse⟩ f with ⟨a, u⟩
    rw [hx] at h
    cases a with
    | ok _ =>
      cases h
      exact makeOne_ok hx
    | error d =>
      dsimp only at h
      split at h
      · obtain ⟨_, v, -, h⟩ := Access.exists_of_bind h
        exact hmade _ v h
      · exact unlessFolder_ok h

theorem makeFolder_ok {path : FilePath} {f g : Files} (h : makeFolder path f = (.ok (), g)) :
    g.HasFolder path := by
  have hfolder := makeFrom_ok h
  rwa [List.reverse_reverse] at hfolder

theorem makeFolder_of_hasFolder {path : FilePath} {f : Files} (hmakes : f.refuses f.accesses = false)
    (hlooks : f.refuses (f.accesses + 1) = false) (h : f.HasFolder path) :
    makeFolder path f = (.ok (), f.counted.counted) := by
  have hone : makeOne path f = (.error ⟨.taken, path⟩, f.counted) := by
    rw [makeOne_apply, enter_of_locate hmakes h.1]
    dsimp only
    rw [node?_counted, h.2]
    rfl
  have hfound : unlessFolder path ⟨.taken, path⟩ f.counted = (.ok (), f.counted.counted) :=
    unlessFolder_of_hasFolder rfl hlooks ((changes_counted (s := ∅) f).hasFolder h)
  obtain ⟨root, parts⟩ := path
  rw [makeFolder]
  cases hparts : parts.reverse with
  | nil =>
    rw [List.reverse_eq_nil_iff.mp hparts] at hone hfound
    rw [makeFrom, Access.tryCatch_apply, hone]
    exact hfound
  | cons last rest =>
    have hback : (last :: rest).reverse = parts := by rw [← hparts, List.reverse_reverse]
    rw [makeFrom, hback, Access.tryCatch_apply, hone]
    exact hfound

end Files
end AssignmentSearch
