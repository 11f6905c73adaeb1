import AssignmentSearch.Storage.Files
import Mathlib.Data.Set.Basic

/-!
# What accesses do to files

Making a folder adds folders where nothing was. Apart from that, writing to a file changes nothing but
the node at its place. A folder stays one, so a path that leads somewhere keeps leading there.
-/

namespace AssignmentSearch

variable {β γ : Type}

namespace Access

theorem bind_apply (x : Access β) (k : β → Access γ) (f : Files) :
    (x >>= k) f = match x f with
      | (.ok a, g) => k a g
      | (.error d, g) => (.error d, g) := by
  simp only [Bind.bind, ExceptT.bind, ExceptT.mk, StateT.bind]
  rcases x f with ⟨a, g⟩
  cases a <;> rfl

theorem bind_ok {x : Access β} {k : β → Access γ} {f g : Files} {a : β} (h : x f = (.ok a, g)) :
    (x >>= k) f = k a g := by
  rw [bind_apply, h]

theorem exists_of_bind {x : Access β} {k : β → Access γ} {f g : Files} {c : γ}
    (h : (x >>= k) f = (.ok c, g)) : ∃ a u, x f = (.ok a, u) ∧ k a u = (.ok c, g) := by
  rw [bind_apply] at h
  rcases hx : x f with ⟨a, u⟩
  rw [hx] at h
  cases a with
  | error d => cases h
  | ok a => exact ⟨a, u, rfl, h⟩

theorem tryCatch_apply (x : Access β) (handle : Denial → Access β) (f : Files) :
    (tryCatch x handle : Access β) f = match x f with
      | (.ok a, g) => (.ok a, g)
      | (.error d, g) => handle d g := by
  simp only [MonadExcept.tryCatch, tryCatchThe, MonadExceptOf.tryCatch, ExceptT.tryCatch,
    ExceptT.mk, Bind.bind, StateT.bind]
  rcases x f with ⟨a, g⟩
  cases a <;> rfl

end Access

namespace Files

theorem find?_put (place p : List String) (n : Node) (nodes : List (List String × Node)) :
    ((put place n nodes).find? fun e => e.1 = p).map (·.2) =
      if p = place then some n else (nodes.find? fun e => e.1 = p).map (·.2) := by
  induction nodes with
  | nil =>
    by_cases hp : p = place
    · simp [put, hp]
    · simp [put, hp, Ne.symm hp]
  | cons e rest ih =>
    rw [put]
    by_cases he : e.1 = place
    · rw [if_pos he]
      by_cases hp : p = place
      · simp [hp]
      · simp [hp, Ne.symm hp, he]
    · rw [if_neg he, List.find?_cons, List.find?_cons]
      by_cases hp : e.1 = p
      · have hne : p ≠ place := by rwa [← hp]
        simp [hp, hne]
      · simpa [hp] using ih

theorem node?_set (f : Files) (place p : List String) (n : Node) :
    (f.set place n).node? p =
      if p = place ∧ FilePath.isBase p = false then some n else f.node? p := by
  rw [node?, node?, set, find?_put]
  cases FilePath.isBase p <;> simp

theorem node?_set_self {f : Files} {place : List String} (n : Node)
    (h : f.node? place ≠ some .folder) : (f.set place n).node? place = some n := by
  have hbase : FilePath.isBase place = false := by
    cases hb : FilePath.isBase place with
    | false => rfl
    | true =>
      rw [node?, hb] at h
      exact absurd rfl h
  rw [node?_set, if_pos ⟨rfl, hbase⟩]

theorem node?_set_of_ne (f : Files) {place p : List String} (n : Node) (h : p ≠ place) :
    (f.set place n).node? p = f.node? p := by
  rw [node?_set, if_neg fun hp => h hp.1]

/-- What may become of files while nothing but the nodes at the places of `s` is changed, apart from
folders made where nothing was. -/
structure Changes (s : Set (List String)) (f g : Files) : Prop where
  refuses : g.refuses = f.refuses
  folder : ∀ p, f.node? p = some .folder → g.node? p = some .folder
  node : ∀ p ∉ s, g.node? p = f.node? p ∨ f.node? p = none ∧ g.node? p = some .folder

namespace Changes

variable {s : Set (List String)} {f g h : Files}

theorem refl (f : Files) : Changes s f f := ⟨rfl, fun _ => id, fun _ _ => Or.inl rfl⟩

theorem trans (hfg : Changes s f g) (hgh : Changes s g h) : Changes s f h where
  refuses := hgh.refuses.trans hfg.refuses
  folder p hp := hgh.folder p (hfg.folder p hp)
  node p hp := by
    rcases hfg.node p hp with hsame | ⟨hnone, hmade⟩
    · rw [← hsame]
      exact hgh.node p hp
    · exact Or.inr ⟨hnone, hgh.folder p hmade⟩

theorem node_of_file (h : Changes s f g) {p : List String} {n : Node} (hp : p ∉ s)
    (hf : f.node? p = some n) : g.node? p = some n := by
  rcases h.node p hp with hsame | ⟨hnone, -⟩
  · rw [hsame, hf]
  · rw [hf] at hnone
    cases hnone

theorem node_of_ne (h : Changes s f g) {p : List String} (hp : p ∉ s)
    (hg : g.node? p ≠ some .folder) : g.node? p = f.node? p := by
  rcases h.node p hp with hsame | ⟨-, hmade⟩
  · exact hsame
  · exact absurd hmade hg

theorem set_folder {place : List String} (hnone : f.node? place = none) :
    Changes s f (f.set place .folder) where
  refuses := rfl
  folder p hp := by
    rw [node?_set]
    split
    · rfl
    · exact hp
  node p _ := by
    rw [node?_set]
    split
    · rename_i hplace
      rw [hplace.1]
      exact Or.inr ⟨hnone, rfl⟩
    · exact Or.inl rfl

theorem set_file {place : List String} (n : Node) (hfile : f.node? place ≠ some .folder) :
    Changes {place} f (f.set place n) where
  refuses := rfl
  folder p hp := by
    have hne : p ≠ place := by
      rintro rfl
      exact hfile hp
    rw [node?_set_of_ne f n hne, hp]
  node p hp := Or.inl (node?_set_of_ne f n hp)

theorem follow (h : Changes s f g) {parts place there : List String}
    (hf : f.follow place parts = .ok there) : g.follow place parts = .ok there := by
  induction parts generalizing place with
  | nil => exact hf
  | cons part rest ih =>
    rw [Files.follow] at hf ⊢
    cases hnode : f.node? place with
    | none =>
      rw [hnode] at hf
      cases hf
    | some n =>
      cases n with
      | file content =>
        rw [hnode] at hf
        cases hf
      | bytes content =>
        rw [hnode] at hf
        cases hf
      | folder =>
        rw [hnode] at hf
        rw [h.folder place hnode]
        dsimp only at hf ⊢
        split at hf
        · cases hf
        · rename_i hshort
          rw [if_neg hshort]
          exact ih hf

theorem locate (h : Changes s f g) {path : FilePath} {place : List String}
    (hf : f.locate path = .ok place) : g.locate path = .ok place := by
  rw [Files.locate] at hf ⊢
  split at hf
  · cases hf
  · split at hf
    · cases hf
    · rename_i hplain hshort
      rw [if_neg hplain, if_neg hshort]
      exact h.follow hf

end Changes

theorem locate_eq {f : Files} {path : FilePath} {place : List String}
    (h : f.locate path = .ok place) : place = path.place := by
  rw [locate] at h
  split at h
  · cases h
  · split at h
    · cases h
    · exact follow_eq h

def counted (f : Files) : Files := { f with accesses := f.accesses + 1 }

@[simp] theorem node?_counted (f : Files) (place : List String) :
    f.counted.node? place = f.node? place := rfl

theorem locate_counted (f : Files) (path : FilePath) {place : List String}
    (h : f.counted.locate path = .ok place) : f.locate path = .ok place := by
  have hback : Changes ∅ f.counted f := ⟨rfl, fun _ => id, fun _ _ => Or.inl rfl⟩
  exact hback.locate h

theorem changes_counted {s : Set (List String)} (f : Files) : Changes s f f.counted :=
  ⟨rfl, fun _ => id, fun _ _ => Or.inl rfl⟩

theorem enter_apply (path : FilePath) (f : Files) :
    enter path f =
      (if f.refuses f.accesses then .error ⟨.refused, path⟩
        else match f.locate path with
          | .ok place => .ok place
          | .error obstacle => .error ⟨obstacle, path⟩, f.counted) := by
  rw [enter, Access.bind_ok (show (get : Access Files) f = (.ok f, f) from rfl)]
  cases hrefused : f.refuses f.accesses with
  | true => rfl
  | false => cases hlocate : f.locate path <;> simp <;> rfl

theorem enter_ok {path : FilePath} {f g : Files} {place : List String}
    (h : enter path f = (.ok place, g)) :
    f.locate path = .ok place ∧ place = path.place ∧ g = f.counted := by
  rw [enter_apply, Prod.mk.injEq] at h
  obtain ⟨hanswer, hg⟩ := h
  cases hrefused : f.refuses f.accesses with
  | true =>
    rw [hrefused] at hanswer
    cases hanswer
  | false =>
    cases hlocate : f.locate path with
    | error obstacle =>
      rw [hrefused, hlocate] at hanswer
      cases hanswer
    | ok there =>
      rw [hrefused, hlocate] at hanswer
      cases hanswer
      exact ⟨rfl, locate_eq hlocate, hg.symm⟩

theorem enter_of_locate {path : FilePath} {f : Files} {place : List String}
    (hrefuses : f.refuses f.accesses = false) (h : f.locate path = .ok place) :
    enter path f = (.ok place, f.counted) := by
  rw [enter_apply, hrefuses, h]
  rfl

/-- An access that changes files at certain places at most, whether it is denied or not. -/
def Alters (s : Set (List String)) (x : Access β) : Prop := ∀ f, Changes s f (x f).2

namespace Alters

variable {s : Set (List String)}

theorem pure (a : β) : Alters s (Pure.pure a : Access β) := fun f => .refl f

theorem throw (d : Denial) : Alters s (MonadExcept.throw d : Access β) := fun f => .refl f

theorem get : Alters s (MonadState.get : Access Files) := fun f => .refl f

theorem bind {x : Access β} {k : β → Access γ} (hx : Alters s x) (hk : ∀ a, Alters s (k a)) :
    Alters s (x >>= k) := by
  intro f
  have hf := hx f
  rw [Access.bind_apply]
  rcases h : x f with ⟨a, g⟩
  rw [h] at hf
  cases a with
  | error d => exact hf
  | ok a => exact hf.trans (hk a g)

theorem tryCatch {x : Access β} {handle : Denial → Access β} (hx : Alters s x)
    (hhandle : ∀ d, Alters s (handle d)) : Alters s (MonadExcept.tryCatch x handle) := by
  intro f
  have hf := hx f
  rw [Access.tryCatch_apply]
  rcases h : x f with ⟨a, g⟩
  rw [h] at hf
  cases a with
  | error d => exact hf.trans (hhandle d g)
  | ok a => exact hf

end Alters

theorem alters_enter {s : Set (List String)} (path : FilePath) : Alters s (enter path) := by
  intro f
  rw [enter_apply]
  exact changes_counted f

theorem alters_look {s : Set (List String)} (path : FilePath) : Alters s (look path) := by
  refine Alters.tryCatch ((alters_enter path).bind fun place => Alters.get.bind fun f =>
    Alters.pure _) fun d => ?_
  cases d.obstacle with
  | missing => exact Alters.pure _
  | notFolder => exact Alters.pure _
  | nullByte => exact Alters.pure _
  | _ => exact Alters.throw d

theorem alters_makeOne {s : Set (List String)} (path : FilePath) : Alters s (makeOne path) := by
  refine (alters_enter path).bind fun place f => ?_
  rw [Access.bind_ok (show (get : Access Files) f = (.ok f, f) from rfl)]
  cases hnode : f.node? place with
  | some n => exact .refl f
  | none => exact .set_folder hnode

theorem alters_unlessFolder {s : Set (List String)} (path : FilePath) (d : Denial) :
    Alters s (unlessFolder path d) := by
  have hlooked : Alters s (do if (← look path) ≠ some .folder then MonadExcept.throw d : Access Unit) := by
    refine (alters_look path).bind fun found => ?_
    split
    · exact Alters.throw d
    · exact Alters.pure _
  rw [unlessFolder]
  split
  · exact (Alters.throw d).bind fun _ => hlooked
  · exact hlooked

theorem alters_makeFrom {s : Set (List String)} (root : String) (names : List String) :
    Alters s (makeFrom root names) := by
  induction names with
  | nil => exact (alters_makeOne _).tryCatch (alters_unlessFolder _)
  | cons last rest ih =>
    refine (alters_makeOne _).tryCatch fun d => ?_
    split
    · exact ih.bind fun _ => (alters_makeOne _).tryCatch (alters_unlessFolder _)
    · exact alters_unlessFolder _ d

theorem alters_makeFolder {s : Set (List String)} (path : FilePath) :
    Alters s (makeFolder path) :=
  alters_makeFrom _ _

theorem openFile_apply (path : FilePath) (f : Files) :
    openFile path f =
      match enter path f with
      | (.error d, g) => (.error d, g)
      | (.ok place, g) =>
        if g.node? place = some .folder then (.error ⟨.isFolder, path⟩, g)
        else (.ok (place, g.node? place), g) := by
  rw [openFile, Access.bind_apply]
  rcases enter path f with ⟨a, g⟩
  cases a with
  | error d => rfl
  | ok place =>
    dsimp only
    rw [Access.bind_ok (show (get : Access Files) g = (.ok g, g) from rfl)]
    cases hnode : g.node? place with
    | none => rfl
    | some n => cases n <;> simp <;> rfl

theorem openFile_ok {path : FilePath} {f g : Files} {place : List String} {found : Option Node}
    (h : openFile path f = (.ok (place, found), g)) :
    f.locate path = .ok place ∧ place = path.place ∧ found = f.node? place ∧
      f.node? place ≠ some .folder ∧ g = f.counted := by
  rw [openFile_apply] at h
  rcases hx : enter path f with ⟨a, u⟩
  rw [hx] at h
  cases a with
  | error d => cases h
  | ok there =>
    obtain ⟨hlocate, hplace, rfl⟩ := enter_ok hx
    dsimp only at h
    split at h
    · cases h
    · rename_i hfile
      cases h
      exact ⟨hlocate, hplace, rfl, hfile, rfl⟩

theorem openFile_of_locate {path : FilePath} {f : Files} {place : List String}
    (hrefuses : f.refuses f.accesses = false) (h : f.locate path = .ok place)
    (hfile : f.node? place ≠ some .folder) :
    openFile path f = (.ok (place, f.node? place), f.counted) := by
  rw [openFile_apply, enter_of_locate hrefuses h]
  dsimp only
  rw [node?_counted, if_neg hfile]

def extended (found : Option Node) (text : String) : Node :=
  match found with
  | some (.file content) => .file (content ++ text)
  | some (.bytes content) => .bytes (content ++ text.toUTF8.toList)
  | _ => .file text

theorem alters_openFile {s : Set (List String)} (path : FilePath) : Alters s (openFile path) := by
  refine (alters_enter path).bind fun place => Alters.get.bind fun f => ?_
  split
  · exact Alters.throw _
  · exact Alters.pure _

/-- The last part of writing to a file: an access to it, and the node that it has then. -/
def store (path : FilePath) (place : List String) (n : Node) : Access Unit := do
  let _ ← enter path
  modify fun f => f.set place n

theorem store_apply (path : FilePath) (place : List String) (n : Node) (f : Files) :
    store path place n f =
      match enter path f with
      | (.error d, g) => (.error d, g)
      | (.ok _, g) => (.ok (), g.set place n) := by
  rw [store, Access.bind_apply]
  rcases enter path f with ⟨a, g⟩
  cases a <;> rfl

theorem store_ok {path : FilePath} {place : List String} {n : Node} {f g : Files}
    (hfile : f.node? place ≠ some .folder) (h : store path place n f = (.ok (), g)) :
    g.node? place = some n := by
  rw [store_apply] at h
  rcases hx : enter path f with ⟨a, u⟩
  rw [hx] at h
  cases a with
  | error d => cases h
  | ok there =>
    obtain ⟨-, -, rfl⟩ := enter_ok hx
    cases h
    exact node?_set_self n hfile

theorem changes_store {place : List String} {f : Files} (path : FilePath) (n : Node)
    (hfile : f.node? place ≠ some .folder) : Changes {place} f (store path place n f).2 := by
  have hentered := alters_enter (s := {place}) path f
  rw [store_apply]
  rcases hx : enter path f with ⟨a, u⟩
  rw [hx] at hentered
  cases a with
  | error d => exact hentered
  | ok there =>
    obtain ⟨-, -, rfl⟩ := enter_ok hx
    exact hentered.trans (.set_file n hfile)

private theorem toList_loop_eq (bytes : ByteArray) (i : Nat) (done : List UInt8) :
    ByteArray.toList.loop bytes i done = done.reverse ++ bytes.data.toList.drop i := by
  induction i, done using ByteArray.toList.loop.induct bytes with
  | case1 i done hi ih =>
    have hlength : i < bytes.data.toList.length := by simpa using hi
    have hget : bytes.get! i = bytes.data.toList[i] := by
      rw [Array.getElem_toList]
      exact getElem!_pos bytes.data i (by simpa using hi)
    rw [ByteArray.toList.loop, if_pos hi, ih, List.drop_eq_getElem_cons hlength, hget]
    simp
  | case2 i done hi =>
    have hlength : bytes.data.toList.length ≤ i := by simpa using hi
    rw [ByteArray.toList.loop, if_neg hi, List.drop_eq_nil_of_le hlength, List.append_nil]

private theorem toList_eq (bytes : ByteArray) : bytes.toList = bytes.data.toList := by
  rw [ByteArray.toList, toList_loop_eq]
  rfl

theorem extended_extended (found : Option Node) (text more : String) :
    extended (some (extended found text)) more = extended found (text ++ more) := by
  have hbytes : ∀ content : List UInt8, content ++ text.toUTF8.toList ++ more.toUTF8.toList =
      content ++ (text ++ more).toUTF8.toList := by
    intro content
    rw [toList_eq, toList_eq, toList_eq, String.toUTF8, String.toUTF8, String.toUTF8,
      String.toByteArray_append, ByteArray.toList_data_append, List.append_assoc]
  cases found with
  | none => rfl
  | some n =>
    cases n with
    | folder => rfl
    | file content => simp only [extended, String.append_assoc]
    | bytes content => simp only [extended, hbytes]

def isBlankNode (found : Option Node) : Bool :=
  match found with
  | none => true
  | some (.file content) => content = ""
  | some (.bytes content) => content = []
  | some .folder => false

theorem isBlankNode_extended (found : Option Node) {text : String} (h : text ≠ "") :
    isBlankNode (some (extended found text)) = false := by
  have hbytes : text.toByteArray.toList ≠ [] := by
    rw [toList_eq]
    intro hnil
    apply h
    rw [← String.utf8ByteSize_eq_zero_iff]
    simpa using congrArg List.length hnil
  cases found with
  | none => simpa [extended, isBlankNode] using h
  | some n =>
    cases n with
    | folder => simpa [extended, isBlankNode] using h
    | file content => simp [extended, isBlankNode, h]
    | bytes content => simp [extended, isBlankNode, hbytes]

theorem append_apply (path : FilePath) (text : String) (f : Files) :
    append path text f =
      match openFile path f with
      | (.error d, g) => (.error d, g)
      | (.ok (place, found), g) =>
        store path place (extended found text)
          (if found = none then g.set place (.file "") else g) := by
  rw [append, Access.bind_apply]
  rcases openFile path f with ⟨a, g⟩
  cases a with
  | error d => rfl
  | ok opened =>
    obtain ⟨place, found⟩ := opened
    dsimp only
    cases found with
    | none => rfl
    | some n => cases n <;> rfl

theorem write_apply (path : FilePath) (text : String) (f : Files) :
    write path text f =
      match openFile path f with
      | (.error d, g) => (.error d, g)
      | (.ok (place, _), g) => store path place (.file text) (g.set place (.file "")) := by
  rw [write, Access.bind_apply]
  rcases openFile path f with ⟨a, g⟩
  cases a <;> rfl

theorem node?_emptied {f : Files} {place : List String} (c : Prop) [Decidable c]
    (hfile : f.node? place ≠ some .folder) :
    (if c then f.set place (.file "") else f).node? place ≠ some .folder := by
  split
  · rw [node?_set_self _ hfile]
    simp
  · exact hfile

theorem append_ok {path : FilePath} {text : String} {f g : Files}
    (h : append path text f = (.ok (), g)) :
    f.locate path = .ok path.place ∧ f.node? path.place ≠ some .folder ∧
      g.node? path.place = some (extended (f.node? path.place) text) := by
  rw [append_apply] at h
  rcases hx : openFile path f with ⟨a, u⟩
  rw [hx] at h
  cases a with
  | error d => cases h
  | ok opened =>
    obtain ⟨place, found⟩ := opened
    obtain ⟨hlocate, rfl, rfl, hfile, rfl⟩ := openFile_ok hx
    exact ⟨hlocate, hfile, store_ok (node?_emptied (f := f.counted) _ hfile) h⟩

theorem alters_append (path : FilePath) (text : String) :
    Alters {path.place} (append path text) := by
  intro f
  have hopened := alters_openFile (s := {path.place}) path f
  rw [append_apply]
  rcases hx : openFile path f with ⟨a, u⟩
  rw [hx] at hopened
  cases a with
  | error d => exact hopened
  | ok opened =>
    obtain ⟨place, found⟩ := opened
    obtain ⟨hlocate, rfl, rfl, hfile, rfl⟩ := openFile_ok hx
    refine (hopened.trans ?_).trans (changes_store path _ (node?_emptied _ hfile))
    split
    · exact .set_file _ hfile
    · exact .refl _

theorem alters_write (path : FilePath) (text : String) : Alters {path.place} (write path text) := by
  intro f
  have hopened := alters_openFile (s := {path.place}) path f
  rw [write_apply]
  rcases hx : openFile path f with ⟨a, u⟩
  rw [hx] at hopened
  cases a with
  | error d => exact hopened
  | ok opened =>
    obtain ⟨place, found⟩ := opened
    obtain ⟨hlocate, rfl, rfl, hfile, rfl⟩ := openFile_ok hx
    refine (hopened.trans (.set_file _ hfile)).trans (changes_store path _ ?_)
    exact node?_emptied True hfile

theorem openFile_snd (path : FilePath) (f : Files) : (openFile path f).2 = f.counted := by
  rw [openFile_apply, enter_apply]
  cases hrefused : f.refuses f.accesses with
  | true => rfl
  | false =>
    cases f.locate path with
    | error obstacle => rfl
    | ok place =>
      simp only [Bool.false_eq_true, if_false]
      split <;> rfl

theorem store_node? {path : FilePath} {place p : List String} (n : Node) (f : Files)
    (h : p ≠ place) : (store path place n f).2.node? p = f.node? p := by
  rw [store_apply]
  have hentered : (enter path f).2 = f.counted := by rw [enter_apply]
  rcases hx : enter path f with ⟨a, u⟩
  rw [hx] at hentered
  dsimp only at hentered
  rw [hentered]
  cases a with
  | error d => rfl
  | ok there => exact node?_set_of_ne _ n h

theorem append_node? {path : FilePath} {p : List String} (text : String) (f : Files)
    (h : p ≠ path.place) : (append path text f).2.node? p = f.node? p := by
  have hopened := openFile_snd path f
  rw [append_apply]
  rcases hx : openFile path f with ⟨a, u⟩
  rw [hx] at hopened
  cases a with
  | error d =>
    dsimp only at hopened ⊢
    rw [hopened, node?_counted]
  | ok opened =>
    obtain ⟨place, found⟩ := opened
    obtain ⟨-, rfl, -, -, rfl⟩ := openFile_ok hx
    dsimp only
    rw [store_node? _ _ h]
    split
    · exact node?_set_of_ne _ _ h
    · rfl

/-- A text can be written where a path leads and no folder is, if neither access is turned down. -/
theorem write_of_locate {path : FilePath} (text : String) {f : Files}
    (hopens : f.refuses f.accesses = false) (hstores : f.refuses (f.accesses + 1) = false)
    (hlocate : f.locate path = .ok path.place) (hfile : f.node? path.place ≠ some .folder) :
    write path text f = (.ok (),
      (f.counted.set path.place (.file "")).counted.set path.place (.file text)) := by
  have hset : Changes {path.place} f (f.counted.set path.place (.file "")) :=
    (changes_counted f).trans (.set_file _ hfile)
  have hstores' : (f.counted.set path.place (.file "")).refuses (f.accesses + 1) = false := hstores
  have hentered := enter_of_locate hstores' (hset.locate hlocate)
  rw [write_apply, openFile_of_locate hopens hlocate hfile]
  dsimp only
  rw [store_apply, hentered]

theorem node?_written {f : Files} {place : List String} (text : String)
    (hfile : f.node? place ≠ some .folder) :
    ((f.counted.set place (.file "")).counted.set place (.file text)).node? place =
      some (.file text) :=
  node?_set_self _ (node?_emptied (f := f.counted) True hfile)

theorem look_snd (path : FilePath) (f : Files) : (look path f).2 = f.counted := by
  rw [look, Access.tryCatch_apply, Access.bind_apply, enter_apply]
  cases hrefused : f.refuses f.accesses with
  | true => rfl
  | false =>
    cases f.locate path with
    | ok place => rfl
    | error obstacle => cases obstacle <;> rfl

theorem isBlankFile_snd (path : FilePath) (f : Files) : (isBlankFile path f).2 = f.counted := by
  have hlook := look_snd path f
  rw [isBlankFile, Access.bind_apply]
  rcases hx : look path f with ⟨a, g⟩
  rw [hx] at hlook
  cases a with
  | error d => exact hlook
  | ok found =>
    cases found with
    | none => exact hlook
    | some n => cases n <;> exact hlook

theorem isBlankFile_ok {path : FilePath} {f g : Files} {place : List String} {blank : Bool}
    (hlocate : f.locate path = .ok place) (h : isBlankFile path f = (.ok blank, g)) :
    blank = isBlankNode (f.node? place) := by
  obtain ⟨found, u, hlook, h⟩ := Access.exists_of_bind h
  have hfound : found = f.node? place := by
    rw [look, Access.tryCatch_apply, Access.bind_apply] at hlook
    cases hrefused : f.refuses f.accesses with
    | true =>
      rw [enter_apply, hrefused] at hlook
      cases hlook
    | false =>
      rw [enter_of_locate hrefused hlocate] at hlook
      cases hlook
      rfl
  rw [← hfound]
  cases found with
  | none => cases h; rfl
  | some n => cases n <;> cases h <;> rfl

end Files
end AssignmentSearch
