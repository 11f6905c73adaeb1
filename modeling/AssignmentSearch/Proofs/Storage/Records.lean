import AssignmentSearch.Proofs.Storage.CsvReading
import AssignmentSearch.Proofs.Storage.Folders
import AssignmentSearch.Search.Recorder

/-!
# What a recorder writes

A step that is recorded adds its row to the table of steps, below the names of the columns if the table
was empty. The best result stands at another place.
-/

namespace AssignmentSearch

namespace FilePath

theorem split_of_not_mem (acc : List Char) {cs : List Char} (h : '/' ∉ cs) :
    split acc cs = [acc.reverse ++ cs] := by
  induction cs generalizing acc with
  | nil => rw [split, List.append_nil]
  | cons c rest ih =>
    simp only [List.mem_cons, not_or] at h
    rw [split, if_neg (Ne.symm h.1), ih (c :: acc) h.2, List.reverse_cons, List.append_assoc]
    rfl

theorem split_append (acc cs : List Char) {ending : List Char} (h : '/' ∉ ending) :
    ∃ init last, split acc (cs ++ ending) = init ++ [last ++ ending] := by
  induction cs generalizing acc with
  | nil => exact ⟨[], acc.reverse, split_of_not_mem acc h⟩
  | cons c cs ih =>
    rw [List.cons_append, split]
    split
    · obtain ⟨init, last, hsplit⟩ := ih []
      exact ⟨acc.reverse :: init, last, by rw [hsplit, List.cons_append]⟩
    · exact ih (c :: acc)

/-- A path whose text has an ending without a slash, longer than two dots, leads to a place whose name
has that ending. -/
theorem exists_place_join (p : FilePath) (s ending : String) (hslash : '/' ∉ ending.toList)
    (hlong : 2 < ending.toList.length) :
    ∃ above last, (p.join (s ++ ending)).place =
      above ++ [String.ofList (last ++ ending.toList)] := by
  obtain ⟨init, last, hsplit⟩ := split_append [] s.toList hslash
  have hlength : 2 < (last ++ ending.toList).length := by
    rw [List.length_append]
    omega
  have hkept : last ++ ending.toList ≠ [] ∧ last ++ ending.toList ≠ ['.'] := by
    constructor <;> intro heq <;> rw [heq] at hlength <;> simp at hlength
  have hparts : ∃ names, (ofText (s ++ ending)).parts =
      names ++ [String.ofList (last ++ ending.toList)] := by
    rw [ofText, String.toList_append, hsplit, List.filter_append, List.map_append]
    exact ⟨_, by rw [List.filter_singleton, decide_eq_true hkept]; rfl⟩
  have hname : String.ofList (last ++ ending.toList) ≠ ".." := by
    intro heq
    rw [← String.toList_inj, String.toList_ofList] at heq
    rw [heq] at hlength
    simp at hlength
  obtain ⟨names, hnames⟩ := hparts
  have hjoined : ∃ more, (p.join (s ++ ending)).parts =
      more ++ [String.ofList (last ++ ending.toList)] := by
    rw [join]
    split
    · exact ⟨p.parts ++ names, by rw [hnames, List.append_assoc]⟩
    · exact ⟨names, hnames⟩
  obtain ⟨more, hmore⟩ := hjoined
  exact ⟨_, last, by rw [place, hmore, List.foldl_append, List.foldl_cons, List.foldl_nil, further,
    if_pos hname]⟩

end FilePath

namespace Recorder

theorem historyPath_place_ne (r : Recorder) : r.historyPath.place ≠ r.bestPath.place := by
  obtain ⟨above, last, hplace⟩ := FilePath.exists_place_join r.folder r.id "_history.csv"
    (by decide) (by decide)
  obtain ⟨above', last', hplace'⟩ := FilePath.exists_place_join r.folder r.id "_best.json"
    (by decide) (by decide)
  rw [historyPath, bestPath, hplace, hplace']
  intro heq
  have hnames := (List.append_inj' heq rfl).2
  rw [List.cons.injEq, String.ofList_inj] at hnames
  have hends := congrArg List.getLast? hnames.1
  simp at hends

open Files

variable {α : Type} [Printed α] {r : Recorder} {state : List (String × Datum)} {o : Outcome α}

/-- The rows that come with a step: the names of the columns come first in an empty table. -/
def rowsFor (found : Option Node) (rows : List (List String)) : List (List String) :=
  (if isBlankNode found then [header] else []) ++ rows

theorem appendStep_ok {f g : Files} (h : r.appendStep state o f = (.ok (), g)) :
    f.node? r.historyPath.place ≠ some .folder ∧
      g.node? r.historyPath.place = some (extended (f.node? r.historyPath.place)
        (Csv.table (rowsFor (f.node? r.historyPath.place) [columns state o]))) := by
  obtain ⟨_, u, hmake, h⟩ := Access.exists_of_bind h
  obtain ⟨blank, v, hblank, h⟩ := Access.exists_of_bind h
  obtain ⟨hlocate, hfile, hadded⟩ := append_ok h
  have hmade := alters_makeFolder (s := ∅) r.folder f
  have hlooked := isBlankFile_snd r.historyPath u
  rw [hmake] at hmade
  rw [hblank] at hlooked
  dsimp only at hmade hlooked
  rw [hlooked] at hlocate hfile hadded
  rw [node?_counted] at hfile hadded
  have hsame := hmade.node_of_ne (Set.notMem_empty _) hfile
  have hanswer := isBlankFile_ok (locate_counted u r.historyPath hlocate) hblank
  rw [hsame] at hfile hadded hanswer
  refine ⟨hfile, ?_⟩
  rw [hadded, hanswer, rowsFor, Csv.table]
  cases isBlankNode (f.node? r.historyPath.place) <;> simp [String.join]

/-- Once the folder has been made, a step changes its own table only. -/
theorem appendStep_of_made (state : List (String × Datum)) (o : Outcome α) {f g : Files}
    (hmake : makeFolder r.folder f = (.ok (), g)) :
    Changes {r.historyPath.place} g (r.appendStep state o f).2 ∧
      ∀ p, p ≠ r.historyPath.place → (r.appendStep state o f).2.node? p = g.node? p := by
  have hblank := isBlankFile_snd r.historyPath g
  rw [appendStep, Access.bind_ok hmake, Access.bind_apply]
  rcases hx : isBlankFile r.historyPath g with ⟨a, u⟩
  rw [hx] at hblank
  dsimp only at hblank
  rw [hblank]
  cases a with
  | error d => exact ⟨changes_counted g, fun _ _ => rfl⟩
  | ok blank => exact ⟨(changes_counted g).trans (alters_append _ _ _), fun p hp =>
      append_node? _ _ hp⟩

/-- Files that work for a recorder: no access is turned down, its folder can be made, and then the best
result can be written where nothing is yet. -/
structure Works (r : Recorder) (f : Files) : Prop where
  refuses : ∀ n, f.refuses n = false
  makes : ∃ g, makeFolder r.folder f = (.ok (), g) ∧
    g.locate r.bestPath = .ok r.bestPath.place ∧ g.node? r.bestPath.place = none

namespace Works

theorem absent {f : Files} (h : r.Works f) : f.node? r.bestPath.place = none := by
  obtain ⟨g, hmake, -, hnone⟩ := h.makes
  have hmade := alters_makeFolder (s := ∅) r.folder f
  rw [hmake] at hmade
  rw [← hmade.node_of_ne (Set.notMem_empty _) (by simp [hnone]), hnone]

theorem appendStep {f : Files} (h : r.Works f) (state : List (String × Datum)) (o : Outcome α) :
    r.Works (r.appendStep state o f).2 := by
  obtain ⟨g, hmake, hlocate, hnone⟩ := h.makes
  have hmade := alters_makeFolder (s := ∅) r.folder f
  rw [hmake] at hmade
  obtain ⟨hchanges, hothers⟩ := appendStep_of_made state o hmake
  have hrefuses : ∀ n, (r.appendStep state o f).2.refuses n = false := by
    rw [hchanges.refuses, hmade.refuses]
    exact h.refuses
  refine ⟨hrefuses, _, makeFolder_of_hasFolder (hrefuses _) (hrefuses _)
      (hchanges.hasFolder (makeFolder_ok hmake)),
    (changes_counted (s := ∅) _).locate ((changes_counted (s := ∅) _).locate
      (hchanges.locate hlocate)), ?_⟩
  rw [node?_counted, node?_counted, hothers _ (historyPath_place_ne r).symm, hnone]

end Works
end Recorder
end AssignmentSearch
