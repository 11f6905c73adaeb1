import AssignmentSearch.Placement.Assembly

/-!
# Sessions

A session is a search with an identifier. The registry holds the sessions that can be called on; an
identifier names one session at most.
-/

namespace AssignmentSearch

/-- A search that callers drive by its identifier. -/
structure Session where
  id : String
  algorithm : String
  metadata : List (String × Datum)
  vms : List (Vm Int)
  hosts : List (Host Int)
  search : PlacementSearch

abbrev Registry := List Session

namespace Registry

def get? (r : Registry) (id : String) : Option Session := r.find? fun s => s.id = id

/-- Registers a session in place of one with its identifier. -/
def put : Registry → Session → Registry
  | [], s => [s]
  | t :: rest, s => if t.id = s.id then s :: rest else t :: put rest s

def remove (r : Registry) (id : String) : Registry := r.filter fun s => s.id ≠ id

def ids (r : Registry) : List String := r.map (·.id)

theorem get?_put_self (r : Registry) (s : Session) : (put r s).get? s.id = some s := by
  induction r with
  | nil => simp [put, get?]
  | cons t rest ih =>
    by_cases h : t.id = s.id
    · simp [put, get?, h]
    · simpa [put, get?, h] using ih

theorem get?_of_eq_put {r t : Registry} {s : Session} (h : t = put r s) : t.get? s.id = some s := by
  rw [h, get?_put_self]

theorem get?_put_of_ne (r : Registry) (s : Session) {id : String} (h : id ≠ s.id) :
    (put r s).get? id = r.get? id := by
  induction r with
  | nil => simp [put, get?, Ne.symm h]
  | cons t rest ih =>
    by_cases ht : t.id = s.id
    · have hs : s.id ≠ id := Ne.symm h
      simp [put, get?, ht, hs]
    · by_cases hi : t.id = id
      · simp [put, get?, hi, h]
      · simpa [put, get?, ht, hi] using ih

theorem get?_remove_self (r : Registry) (id : String) : (r.remove id).get? id = none := by
  simp [remove, get?]

theorem get?_remove_of_ne (r : Registry) {id other : String} (h : other ≠ id) :
    (r.remove id).get? other = r.get? other := by
  induction r with
  | nil => rfl
  | cons t rest ih =>
    have ih' : List.find? (fun s => decide (s.id = other))
          (List.filter (fun s => decide (s.id ≠ id)) rest) =
        List.find? (fun s => decide (s.id = other)) rest := ih
    by_cases ht : t.id = id
    · have ho : t.id ≠ other := fun e => h (e.symm.trans ht)
      simp only [remove, get?, List.filter_cons, ht, ne_eq, not_true, decide_false,
        Bool.false_eq_true, if_false, List.find?_cons]
      rw [← ht] at ih' ⊢
      simpa [ho] using ih'
    · by_cases ho : t.id = other
      · simp [remove, get?, ho, h]
      · simpa [remove, get?, ht, ho] using ih'

theorem id_of_get? {r : Registry} {id : String} {s : Session} (h : r.get? id = some s) :
    s.id = id := by
  have hfound := List.find?_some h
  simpa using hfound

theorem mem_of_get? {r : Registry} {id : String} {s : Session} (h : r.get? id = some s) : s ∈ r :=
  List.mem_of_find?_eq_some h

theorem mem_ids_of_get? {r : Registry} {id : String} {s : Session} (h : r.get? id = some s) :
    id ∈ r.ids :=
  List.mem_map.mpr ⟨s, mem_of_get? h, id_of_get? h⟩

theorem get?_eq_none_iff {r : Registry} {id : String} : r.get? id = none ↔ id ∉ r.ids := by
  simp [get?, ids]

theorem put_put (r : Registry) {s t : Session} (h : s.id = t.id) : (r.put s).put t = r.put t := by
  induction r with
  | nil => simp [put, h]
  | cons u rest ih =>
    by_cases hu : u.id = t.id
    · simp [put, h, hu]
    · simp [put, h, hu, ih]

theorem put_of_notMem {r : Registry} {s : Session} (h : s.id ∉ r.ids) : r.put s = r ++ [s] := by
  induction r with
  | nil => rfl
  | cons t rest ih =>
    simp only [ids, List.map_cons, List.mem_cons, not_or] at h
    simp [put, Ne.symm h.1, ih h.2]

theorem ids_put_of_mem {r : Registry} {s : Session} (h : s.id ∈ r.ids) : (r.put s).ids = r.ids := by
  induction r with
  | nil => cases h
  | cons t rest ih =>
    by_cases ht : t.id = s.id
    · simp [put, ids, ht]
    · have hrest : s.id ∈ ids rest := by simpa [ids, Ne.symm ht] using h
      simpa [put, ids, ht] using ih hrest

theorem ids_remove (r : Registry) (id : String) :
    (r.remove id).ids = r.ids.filter fun other => other ≠ id := by
  simp [remove, ids, List.filter_map, Function.comp_def]

theorem remove_of_notMem {r : Registry} {id : String} (h : id ∉ r.ids) : r.remove id = r := by
  rw [remove, List.filter_eq_self]
  intro s hs
  have hne : s.id ≠ id := fun heq => h (List.mem_map.mpr ⟨s, hs, heq⟩)
  simpa using hne

theorem remove_put (r : Registry) (s : Session) : (r.put s).remove s.id = r.remove s.id := by
  induction r with
  | nil => simp [put, remove]
  | cons t rest ih =>
    by_cases ht : t.id = s.id
    · simp [put, remove, ht]
    · have ih' : List.filter (fun u => decide (u.id ≠ s.id)) (put rest s) =
          List.filter (fun u => decide (u.id ≠ s.id)) rest := ih
      simp only [put, remove, ht, if_false, List.filter_cons, ih']

end Registry

end AssignmentSearch
