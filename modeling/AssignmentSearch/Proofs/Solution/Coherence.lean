import AssignmentSearch.Proofs.Mapping.Entries
import AssignmentSearch.Proofs.Solution.Costs
import AssignmentSearch.Solution.Family

/-!
# Coherent caches

A valid cache holds the cost of the mapping beside it. Whatever is done with a family of solutions
keeps that, and changes none but the solutions that it is done to.
-/

namespace AssignmentSearch

variable {α τ ρ : Type}

namespace Solution

/-- If the cost is known, it is what the model charges for the mapping. -/
def IsCoherent (s : Solution α τ ρ) : Prop :=
  s.cache.valid = true → s.model.total s.mapping = .ok s.cache.value

theorem isCoherent_of_stale {s : Solution α τ ρ} (h : s.cache.valid = false) : s.IsCoherent := by
  intro hv
  rw [h] at hv
  cases hv

theorem IsCoherent.costValue_eq_total {s : Solution α τ ρ} (h : s.IsCoherent) :
    s.costValue = s.model.total s.mapping := by
  rw [costValue_eq]
  split
  · rename_i hv
    exact (h hv).symm
  · rfl

theorem IsCoherent.evaluated {s : Solution α τ ρ} (h : s.IsCoherent) : s.evaluated.IsCoherent := by
  rw [Solution.evaluated, start_cost]
  split
  · exact h
  · rename_i hv
    cases ht : s.model.total s.mapping with
    | error e => exact h
    | ok c =>
      intro _
      exact ht

theorem IsCoherent.stale_of_error {s : Solution α τ ρ} (h : s.IsCoherent) {e : Fault}
    (he : s.model.total s.mapping = .error e) : s.cache.valid = false := by
  cases hv : s.cache.valid with
  | false => rfl
  | true => cases he.symm.trans (h hv)

/-- The second solution is the first one, but that its cost may have been filled in. -/
structure FilledIn (s t : Solution α τ ρ) : Prop where
  model : t.model = s.model
  mapping : t.mapping = s.mapping
  cache : t.cache = s.cache ∨
    s.cache.valid = false ∧ ∃ c, s.model.total s.mapping = .ok c ∧ t.cache = .store c

theorem FilledIn.refl (s : Solution α τ ρ) : s.FilledIn s := ⟨rfl, rfl, .inl rfl⟩

theorem FilledIn.trans {s t u : Solution α τ ρ} (hst : s.FilledIn t) (htu : t.FilledIn u) :
    s.FilledIn u := by
  refine ⟨htu.model.trans hst.model, htu.mapping.trans hst.mapping, ?_⟩
  rcases htu.cache with hu | ⟨ht, c, hc, hu⟩
  · rw [hu]
    exact hst.cache
  · rcases hst.cache with hs | ⟨-, d, -, hs⟩
    · rw [hs] at ht
      rw [hst.model, hst.mapping] at hc
      exact .inr ⟨ht, c, hc, hu⟩
    · rw [hs] at ht
      cases ht

theorem filledIn_evaluated (s : Solution α τ ρ) : s.FilledIn s.evaluated := by
  refine ⟨model_evaluated s, mapping_evaluated s, ?_⟩
  rw [Solution.evaluated, start_cost]
  split
  · exact .inl rfl
  · rename_i hv
    cases ht : s.model.total s.mapping with
    | error e => exact .inl rfl
    | ok c => exact .inr ⟨Bool.not_eq_true _ ▸ hv, c, rfl, rfl⟩

def stale (s : Solution α τ ρ) : Solution α τ ρ := { s with cache := s.cache.invalidate }

theorem isCoherent_stale (s : Solution α τ ρ) : s.stale.IsCoherent :=
  isCoherent_of_stale rfl

theorem start_freshCost (s : Solution α τ ρ) : freshCost.start s = cost.start s.stale := by
  rw [freshCost, Attempt.start_bind, Attempt.start_modify]
  rfl

/-- A swap leaves the solution as it is or exchanges two entries and makes the cost stale. -/
theorem swap_cases {σ ι : Type} [Draw ι] {index : Int → Attempt σ ι} {s t : Solution α τ ρ}
    {b : Bool} {d d' : σ} (h : (s.swap index).start d = (.ok (b, t), d')) :
    (b = false ∧ t = s) ∨
      (b = true ∧ ∃ i j, t = ⟨s.model, s.mapping.swapAt i j, s.cache.invalidate⟩) := by
  obtain ⟨m, u, hdrawn, hm⟩ := Attempt.exists_of_start_bind h
  cases m with
  | none =>
    rw [Attempt.start_pure] at hm
    cases hm
    exact Or.inl ⟨rfl, rfl⟩
  | some m =>
    rw [Attempt.start_pure] at hm
    cases hm
    obtain ⟨i, j, rfl⟩ := Mapping.exists_swapAt_of_swapDrawn hdrawn
    exact Or.inr ⟨rfl, i, j, rfl⟩

theorem isCoherent_of_start_swap {σ ι : Type} [Draw ι] {index : Int → Attempt σ ι}
    {s t : Solution α τ ρ} {b : Bool} {d d' : σ} (h : s.IsCoherent)
    (hs : (s.swap index).start d = (.ok (b, t), d')) : t.IsCoherent := by
  rcases swap_cases hs with ⟨-, rfl⟩ | ⟨-, i, j, rfl⟩
  · exact h
  · exact isCoherent_of_stale rfl

end Solution

namespace Family

def IsCoherent (f : Family α τ ρ) : Prop :=
  ∀ name s, f.get? name = some s → s.IsCoherent

theorem isCoherent_nil : IsCoherent ([] : Family α τ ρ) := by
  intro name s h
  cases h

theorem IsCoherent.put {f : Family α τ ρ} (hf : f.IsCoherent) {s : Solution α τ ρ}
    (hs : s.IsCoherent) (name : String) : (f.put name s).IsCoherent := by
  intro other t ht
  by_cases hname : other = name
  · rw [hname, get?_put_self] at ht
    cases ht
    exact hs
  · rw [get?_put_of_ne f hname] at ht
    exact hf other t ht

theorem IsCoherent.getD {f : Family α τ ρ} (hf : f.IsCoherent) {fresh : Solution α τ ρ}
    (hs : fresh.IsCoherent) (name : String) : ((f.get? name).getD fresh).IsCoherent := by
  cases h : f.get? name with
  | none => exact hs
  | some s => exact hf name s h

section

variable {β : Type} (fresh : Solution α τ ρ) (x : Attempt (Solution α τ ρ) β) (f : Family α τ ρ)

theorem start_on (name : String) : (on fresh name x).start f =
    ((x.start ((f.get? name).getD fresh)).1, f.put name (x.start ((f.get? name).getD fresh)).2) :=
  rfl

theorem get?_on_of_ne {name other : String} (h : other ≠ name) :
    ((on fresh name x).start f).2.get? other = f.get? other := by
  rw [start_on]
  exact get?_put_of_ne f h _

variable {fresh x f}

theorem start_on_some {name : String} {s : Solution α τ ρ} (h : f.get? name = some s) :
    (on fresh name x).start f = ((x.start s).1, f.put name (x.start s).2) := by
  rw [start_on, h, Option.getD_some]

theorem IsCoherent.on (hf : f.IsCoherent) (hfresh : fresh.IsCoherent) (name : String)
    (hx : ∀ s, s.IsCoherent → (x.start s).2.IsCoherent) :
    ((on fresh name x).start f).2.IsCoherent := by
  rw [start_on]
  exact hf.put (hx _ (hf.getD hfresh name)) name

end

end Family

end AssignmentSearch
