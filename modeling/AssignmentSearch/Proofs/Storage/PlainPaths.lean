import AssignmentSearch.Proofs.Storage.Accesses
import AssignmentSearch.Search.Recorder

/-!
# Plain paths

A path without a zero character can be tried: whatever stands in the way of an access to it, the zero
character does not. So a recorder with plain paths is never at fault for its paths.
-/

namespace AssignmentSearch

variable {α β γ : Type}

/-- An access that no zero character stands in the way of. -/
def IsTried (x : Access β) : Prop := ∀ f g d, x f = (.error d, g) → d.obstacle ≠ .nullByte

namespace IsTried

theorem pure (a : β) : IsTried (Pure.pure a : Access β) := by
  intro f g d h
  cases h

theorem get : IsTried (MonadState.get : Access Files) := by
  intro f g d h
  cases h

theorem modify (change : Files → Files) : IsTried (modify change : Access Unit) := by
  intro f g d h
  cases h

theorem throw {d : Denial} (hd : d.obstacle ≠ .nullByte) :
    IsTried (MonadExcept.throw d : Access β) := by
  intro f g d' h
  cases h
  exact hd

theorem bind {x : Access β} {k : β → Access γ} (hx : IsTried x) (hk : ∀ a, IsTried (k a)) :
    IsTried (x >>= k) := by
  intro f g d h
  rw [Access.bind_apply] at h
  rcases hs : x f with ⟨a, t⟩
  rw [hs] at h
  cases a with
  | error d' =>
    cases h
    exact hx f g d hs
  | ok a => exact hk a t g d h

/-- Only the denials of the access itself come to the handler. -/
theorem tryCatch {x : Access β} {handle : Denial → Access β} (hx : IsTried x)
    (hhandle : ∀ d, d.obstacle ≠ .nullByte → IsTried (handle d)) :
    IsTried (MonadExcept.tryCatch x handle) := by
  intro f g d h
  rw [Access.tryCatch_apply] at h
  rcases hs : x f with ⟨a, t⟩
  rw [hs] at h
  cases a with
  | ok a => cases h
  | error d' => exact hhandle d' (hx f t d' hs) t g d h

end IsTried

namespace Files

theorem follow_ne_nullByte {f : Files} {parts place : List String} :
    f.follow place parts ≠ .error .nullByte := by
  induction parts generalizing place with
  | nil => simp [follow]
  | cons part rest ih =>
    rw [follow]
    cases f.node? place with
    | none => simp
    | some n =>
      cases n with
      | folder =>
        by_cases hlong : nameLimit < part.utf8ByteSize
        · simp [hlong]
        · simpa [hlong] using ih
      | file content => simp
      | bytes content => simp

theorem isTried_enter {path : FilePath} (h : path.hasNull = false) : IsTried (enter path) := by
  refine IsTried.get.bind fun f => ?_
  refine (IsTried.modify fun _ => { f with accesses := f.accesses + 1 }).bind fun _ => ?_
  dsimp only
  cases f.refuses f.accesses with
  | true => exact IsTried.throw (by simp)
  | false =>
    cases hlocate : f.locate path with
    | ok place => exact IsTried.pure place
    | error obstacle =>
      refine IsTried.throw fun hnull => ?_
      dsimp only at hnull
      rw [hnull, locate, h] at hlocate
      simp only [Bool.false_eq_true, if_false] at hlocate
      split at hlocate
      · cases hlocate
      · exact follow_ne_nullByte hlocate

theorem isTried_look {path : FilePath} (h : path.hasNull = false) : IsTried (look path) := by
  refine IsTried.tryCatch ((isTried_enter h).bind fun place => IsTried.get.bind fun f =>
    IsTried.pure _) fun d hd => ?_
  cases hobstacle : d.obstacle with
  | nullByte => exact absurd hobstacle hd
  | missing => exact IsTried.pure _
  | notFolder => exact IsTried.pure _
  | _ => exact IsTried.throw hd

theorem isTried_makeOne {path : FilePath} (h : path.hasNull = false) : IsTried (makeOne path) := by
  refine (isTried_enter h).bind fun place => IsTried.get.bind fun f => ?_
  split
  · exact (IsTried.throw (by simp)).bind fun _ => IsTried.modify _
  · exact IsTried.modify _

theorem isTried_unlessFolder {path : FilePath} (h : path.hasNull = false) {d : Denial}
    (hd : d.obstacle ≠ .nullByte) : IsTried (unlessFolder path d) := by
  have hlooked : IsTried (do if (← look path) ≠ some .folder then MonadExcept.throw d : Access Unit) := by
    refine (isTried_look h).bind fun found => ?_
    split
    · exact IsTried.throw hd
    · exact IsTried.pure _
  rw [unlessFolder]
  split
  · exact (IsTried.throw hd).bind fun _ => hlooked
  · exact hlooked

theorem isTried_makeFrom (root : String) (names : List String)
    (h : ∀ name ∈ names, name.toList.contains '\x00' = false) : IsTried (makeFrom root names) := by
  induction names with
  | nil =>
    exact IsTried.tryCatch (isTried_makeOne rfl) fun d hd => isTried_unlessFolder rfl hd
  | cons last rest ih =>
    have hplain : FilePath.hasNull ⟨root, (last :: rest).reverse⟩ = false := by
      rw [FilePath.hasNull, List.any_eq_false]
      intro name hname
      simpa using h name (List.mem_reverse.mp hname)
    refine IsTried.tryCatch (isTried_makeOne hplain) fun d hd => ?_
    split
    · refine (ih fun name hname => h name (List.mem_cons_of_mem _ hname)).bind fun _ => ?_
      exact IsTried.tryCatch (isTried_makeOne hplain) fun d hd => isTried_unlessFolder hplain hd
    · exact isTried_unlessFolder hplain hd

theorem isTried_makeFolder {path : FilePath} (h : path.hasNull = false) :
    IsTried (makeFolder path) := by
  refine isTried_makeFrom _ _ fun name hname => ?_
  rw [FilePath.hasNull, List.any_eq_false] at h
  simpa using h name (List.mem_reverse.mp hname)

theorem isTried_isBlankFile {path : FilePath} (h : path.hasNull = false) :
    IsTried (isBlankFile path) := by
  refine (isTried_look h).bind fun found => ?_
  cases found with
  | none => exact IsTried.pure _
  | some n => cases n <;> exact IsTried.pure _

theorem isTried_openFile {path : FilePath} (h : path.hasNull = false) : IsTried (openFile path) := by
  refine (isTried_enter h).bind fun place => IsTried.get.bind fun f => ?_
  split
  · exact IsTried.throw (by simp)
  · exact IsTried.pure _

theorem isTried_append {path : FilePath} (h : path.hasNull = false) (text : String) :
    IsTried (append path text) := by
  refine (isTried_openFile h).bind fun opened => ?_
  obtain ⟨place, found⟩ := opened
  have hwritten : ∀ change : Files → Files, IsTried (do
      let _ ← enter path
      modify change) := fun change => (isTried_enter h).bind fun _ => IsTried.modify change
  dsimp only
  split
  · exact (IsTried.modify _).bind fun _ => hwritten _
  · exact hwritten _

theorem isTried_write {path : FilePath} (h : path.hasNull = false) (text : String) :
    IsTried (write path text) :=
  (isTried_openFile h).bind fun _ => (IsTried.modify _).bind fun _ =>
    (isTried_enter h).bind fun _ => IsTried.modify _

end Files

namespace Recorder

structure IsPlain (r : Recorder) : Prop where
  folder : r.folder.hasNull = false
  history : r.historyPath.hasNull = false
  best : r.bestPath.hasNull = false

variable [Printed α] {r : Recorder}

theorem IsPlain.isTried_appendStep (h : r.IsPlain) (state : List (String × Datum))
    (o : Outcome α) : IsTried (r.appendStep state o) :=
  (Files.isTried_makeFolder h.folder).bind fun _ => (Files.isTried_isBlankFile h.history).bind
    fun _ => Files.isTried_append h.history _

theorem IsPlain.isTried_writeBest (h : r.IsPlain) (result : List (String × Datum)) :
    IsTried (r.writeBest result) :=
  Files.isTried_write h.best _

end Recorder
end AssignmentSearch
