import AssignmentSearch.Proofs.Solution.Operations
import AssignmentSearch.Solution.Store

/-!
# Stores refine families

An operation writes cells in place, a family holds values. The two answer alike, since no two names
ever come to refer to one cell: a copy is made with new cells.
-/

namespace AssignmentSearch
namespace Store

variable {α τ ρ β γ δ ι : Type} {s : Store α τ ρ} {f : Family α τ ρ} {name : String}

/-- The cells of one kind: those referred to are there, and two names never share one. -/
structure KeepsApart (cell : Handle α τ ρ → Nat) (size : Nat)
    (names : String → Option (Handle α τ ρ)) : Prop where
  lt : ∀ {n h}, names n = some h → cell h < size
  ne : ∀ {n m h k}, names n = some h → names m = some k → n ≠ m → cell h ≠ cell k

structure IsApart (s : Store α τ ρ) : Prop where
  mappings : KeepsApart Handle.mapping s.mappings.length s.names
  caches : KeepsApart Handle.cache s.caches.length s.names

theorem isApart_empty : (empty : Store α τ ρ).IsApart :=
  ⟨⟨nofun, nofun⟩, ⟨nofun, nofun⟩⟩

theorem names_rename {name n : String} {new h : Handle α τ ρ}
    (hn : (s.rename name new).names n = some h) :
    (n = name ∧ h = new) ∨ (n ≠ name ∧ s.names n = some h) := by
  by_cases he : n = name
  · simp only [rename, if_pos he, Option.some_inj] at hn
    exact .inl ⟨he, hn.symm⟩
  · simp only [rename, if_neg he] at hn
    exact .inr ⟨he, hn⟩

theorem KeepsApart.rename {cell : Handle α τ ρ → Nat} {size : Nat}
    (hs : KeepsApart cell size s.names) (name : String) {new : Handle α τ ρ}
    (hnew : cell new = size) : KeepsApart cell (size + 1) (s.rename name new).names := by
  constructor
  · intro n h hn
    rcases names_rename hn with ⟨-, rfl⟩ | ⟨-, hn⟩
    · omega
    · have hlt := hs.lt hn
      omega
  · intro n m h k hnamed hnamed' hne
    rcases names_rename hnamed with ⟨rfl, rfl⟩ | ⟨-, hn⟩ <;>
      rcases names_rename hnamed' with ⟨rfl, rfl⟩ | ⟨-, hm⟩
    · exact absurd rfl hne
    · exact hnew ▸ Nat.ne_of_gt (hs.lt hm)
    · exact hnew ▸ Nat.ne_of_lt (hs.lt hn)
    · exact hs.ne hn hm hne

theorem IsApart.make (hs : s.IsApart) (name : String) (t : Solution α τ ρ) :
    (s.make name t).IsApart where
  mappings := by
    rw [Store.make, Store.rename, List.length_append]
    exact hs.mappings.rename name rfl
  caches := by
    rw [Store.make, Store.rename, List.length_append]
    exact hs.caches.rename name rfl

theorem IsApart.write (hs : s.IsApart) (h : Handle α τ ρ) (t : Solution α τ ρ) :
    (s.write h t).IsApart where
  mappings := by
    rw [Store.write, List.length_set]
    exact hs.mappings
  caches := by
    rw [Store.write, List.length_set]
    exact hs.caches

variable [Quantity α]

theorem get?_make (hs : s.IsApart) (name n : String) (t : Solution α τ ρ) :
    (s.make name t).get? n = if n = name then some t else s.get? n := by
  by_cases he : n = name
  · simp [get?, make, rename, read, he]
  · rw [if_neg he, get?, get?]
    simp only [make, rename, if_neg he]
    cases hn : s.names n with
    | none => rfl
    | some h =>
      simp only [Option.map_some, read, List.getD_eq_getElem?_getD,
        List.getElem?_append_left (hs.mappings.lt hn), List.getElem?_append_left (hs.caches.lt hn)]

theorem get?_write (hs : s.IsApart) {h : Handle α τ ρ} (hname : s.names name = some h) (n : String)
    {t : Solution α τ ρ} (ht : t.model = h.model) :
    (s.write h t).get? n = if n = name then some t else s.get? n := by
  by_cases he : n = name
  · subst he
    rw [if_pos rfl, get?]
    simp only [write, hname, Option.map_some, read, List.getD_eq_getElem?_getD,
      List.getElem?_set_self (hs.mappings.lt hname), List.getElem?_set_self (hs.caches.lt hname),
      Option.getD_some, ← ht]
  · rw [if_neg he, get?, get?]
    simp only [write]
    cases hn : s.names n with
    | none => rfl
    | some k =>
      simp only [Option.map_some, read, List.getD_eq_getElem?_getD,
        List.getElem?_set_ne (hs.mappings.ne hname hn (Ne.symm he)),
        List.getElem?_set_ne (hs.caches.ne hname hn (Ne.symm he))]

/-- Each name reads in the store what it reads in the family, from cells of its own. -/
structure Refines (s : Store α τ ρ) (f : Family α τ ρ) : Prop where
  apart : s.IsApart
  same : ∀ n, s.get? n = f.get? n

theorem refines_empty : (empty : Store α τ ρ).Refines [] := ⟨isApart_empty, fun _ => rfl⟩

theorem Refines.make (hs : s.Refines f) (name : String) (t : Solution α τ ρ) :
    (s.make name t).Refines (f.put name t) :=
  ⟨hs.apart.make name t, fun n => by rw [get?_make hs.apart, Family.get?_put, hs.same]⟩

theorem Refines.write (hs : s.Refines f) {h : Handle α τ ρ} (hname : s.names name = some h)
    {t : Solution α τ ρ} (ht : t.model = h.model) : (s.write h t).Refines (f.put name t) :=
  ⟨hs.apart.write h t, fun n => by rw [get?_write hs.apart hname n ht, Family.get?_put, hs.same]⟩

/-- From a store that refines a family the two answer alike, and the store goes on refining. -/
def Simulates (x : Attempt (Store α τ ρ) β) (y : Attempt (Family α τ ρ) β) : Prop :=
  ∀ ⦃s f⦄, s.Refines f → (x.start s).1 = (y.start f).1 ∧ (x.start s).2.Refines (y.start f).2

theorem simulates_lift (r : Except Fault β) :
    Simulates (α := α) (τ := τ) (ρ := ρ) (Attempt.lift r) (Attempt.lift r) :=
  fun _ _ hs => ⟨rfl, hs⟩

theorem Simulates.bind {x : Attempt (Store α τ ρ) β} {y : Attempt (Family α τ ρ) β}
    {k : β → Attempt (Store α τ ρ) γ} {l : β → Attempt (Family α τ ρ) γ} (hxy : Simulates x y)
    (hkl : ∀ b, Simulates (k b) (l b)) : Simulates (x >>= k) (y >>= l) := by
  intro s f hs
  obtain ⟨hanswer, hstate⟩ := hxy hs
  rw [Attempt.start_bind, Attempt.start_bind]
  rcases hx : x.start s with ⟨r, t⟩
  rcases hy : y.start f with ⟨r', g⟩
  rw [hx, hy] at hanswer hstate
  cases hanswer
  cases r with
  | error e => exact ⟨rfl, hstate⟩
  | ok b => exact hkl b hstate

theorem Simulates.map (k : β → γ) {x : Attempt (Store α τ ρ) β} {y : Attempt (Family α τ ρ) β}
    (hxy : Simulates x y) : Simulates (k <$> x) (k <$> y) := by
  intro s f hs
  rw [Attempt.start_map, Attempt.start_map, (hxy hs).1]
  exact ⟨rfl, (hxy hs).2⟩

/-- What keeps the model is done to the cells of one object as to the value of one member. -/
theorem simulates_on (fresh : Solution α τ ρ) (name : String) {x : Attempt (Solution α τ ρ) β}
    (hx : ∀ t, (x.start t).2.model = t.model) :
    Simulates (on fresh name x) (Family.on fresh name x) := by
  intro s f hs
  have hsame := hs.same name
  rw [on, Attempt.start_of, Family.start_on]
  cases hname : s.names name with
  | none =>
    rw [get?, hname, Option.map_none] at hsame
    rw [← hsame, Option.getD_none]
    exact ⟨rfl, hs.make name _⟩
  | some h =>
    rw [get?, hname, Option.map_some] at hsame
    rw [← hsame, Option.getD_some]
    exact ⟨rfl, hs.write hname (hx _)⟩

theorem simulates_on_cost (fresh : Solution α τ ρ) (name : String) :
    Simulates (on fresh name Solution.cost) (Family.on fresh name Solution.cost) :=
  simulates_on fresh name Solution.model_evaluated

theorem simulates_compare (fresh : Solution α τ ρ) (first second : String) :
    Simulates (compare fresh first second) (Family.compare fresh first second) :=
  (simulates_on_cost fresh first).bind fun _ =>
    (simulates_on_cost fresh second).bind fun _ => simulates_lift (.ok _)

theorem simulates_clone (fresh : Solution α τ ρ) (name twin : String) :
    Simulates (modify fun s => clone fresh name twin s)
      (modify fun f => Family.clone fresh name twin f) := by
  intro s f hs
  rw [Attempt.start_modify, Attempt.start_modify, clone, Family.clone, hs.same]
  exact ⟨rfl, hs.make twin _⟩

variable [Draw ι] [BEq τ] [Key τ]

def perform (model : CostModel α τ ρ) :
    Family.Operation α τ ρ δ ι → Attempt (Store α τ ρ) (Family.Reply α)
  | .construct name own pairs => do
    let m ← Attempt.lift (Mapping.ofKeyedPairs pairs)
    modify fun s => s.make name (.of own m)
    return .done
  | .bind name task resource => do
    Attempt.lift (Key.permit task)
    on (.of model .empty) name (modify fun s => s.bind task resource)
    return .done
  | .swap name index draws => .swapped <$> on (.of model .empty) name (Family.exchange index draws)
  | .cost name => .cost <$> on (.of model .empty) name Solution.cost
  | .freshCost name => .cost <$> on (.of model .empty) name Solution.freshCost
  | .compare first second => .order <$> compare (.of model .empty) first second
  | .clone name twin => do
    modify fun s => clone (.of model .empty) name twin s
    return .done

def after (model : CostModel α τ ρ) (ops : List (Family.Operation α τ ρ δ ι)) (s : Store α τ ρ) :
    Store α τ ρ :=
  ops.foldl (fun s op => ((perform model op).start s).2) s

variable (model : CostModel α τ ρ)

theorem simulates_perform (op : Family.Operation α τ ρ δ ι) :
    Simulates (perform model op) (Family.perform model op) := by
  cases op with
  | construct name own pairs =>
    exact (simulates_lift _).bind fun m =>
      Simulates.bind (fun s f hs => ⟨rfl, hs.make name (.of own m)⟩) fun _ => simulates_lift (.ok _)
  | bind name task resource =>
    exact (simulates_lift _).bind fun _ =>
      (simulates_on _ name fun _ => rfl).bind fun _ => simulates_lift (.ok _)
  | swap name index draws => exact (simulates_on _ name (Family.model_exchange index draws)).map _
  | cost name => exact (simulates_on_cost _ name).map _
  | freshCost name =>
    refine (simulates_on _ name fun t => ?_).map _
    rw [Solution.start_freshCost]
    exact Solution.model_evaluated t.stale
  | compare first second => exact (simulates_compare _ first second).map _
  | clone name twin =>
    exact (simulates_clone _ name twin).bind fun _ => simulates_lift (.ok _)

theorem Refines.after (hs : s.Refines f) (ops : List (Family.Operation α τ ρ δ ι)) :
    (Store.after model ops s).Refines (Family.after model ops f) := by
  induction ops generalizing s f with
  | nil => exact hs
  | cons op ops ih => exact ih (simulates_perform model op hs).2

/-- Whatever was done to a store, no two names share a cell, and each operation answers as it does
over solutions that are values; so a copy keeps apart from what it was copied from. -/
theorem store_answers_as_family (ops : List (Family.Operation α τ ρ δ ι))
    (op : Family.Operation α τ ρ δ ι) :
    (after model ops empty).IsApart ∧
      (∀ name, (after model ops empty).get? name = (Family.after model ops []).get? name) ∧
      ((perform model op).start (after model ops empty)).1 =
        ((Family.perform model op).start (Family.after model ops [])).1 := by
  have hs := refines_empty.after model ops
  exact ⟨hs.apart, hs.same, (simulates_perform model op hs).1⟩

end Store
end AssignmentSearch
