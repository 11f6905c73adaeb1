import AssignmentSearch.Attempt

/-!
# What attempts answer

Each building block of an attempt by its answer and by the state after it.
-/

namespace AssignmentSearch

theorem exists_of_bind_ok {β γ : Type} {x : Except Fault β} {f : β → Except Fault γ} {c : γ}
    (h : x >>= f = .ok c) : ∃ a, x = .ok a ∧ f a = .ok c := by
  cases x with
  | error e => cases h
  | ok a => exact ⟨a, rfl, h⟩

namespace Attempt

variable {σ τ β γ : Type}

@[simp] theorem start_get (s : σ) : (get : Attempt σ σ).start s = (.ok s, s) := rfl

@[simp] theorem start_modify (f : σ → σ) (s : σ) :
    (modify f : Attempt σ Unit).start s = (.ok (), f s) := rfl

@[simp] theorem start_throw (e : Fault) (s : σ) :
    (throw e : Attempt σ β).start s = (.error e, s) := rfl

@[simp] theorem start_zoom (get : σ → τ) (set : τ → σ → σ) (x : Attempt τ β) (s : σ) :
    (zoom get set x).start s = ((x.start (get s)).1, set (x.start (get s)).2 s) := rfl

@[simp] theorem start_outcome (x : Attempt σ β) (s : σ) :
    (outcome x).start s = (.ok (x.start s).1, (x.start s).2) := rfl

theorem start_map (f : β → γ) (x : Attempt σ β) (s : σ) :
    (f <$> x).start s = ((x.start s).1.map f, (x.start s).2) := by
  rw [map_eq_pure_bind, start_bind]
  rcases x.start s with ⟨r, t⟩
  cases r <;> rfl

theorem start_bind_ok {x : Attempt σ β} {f : β → Attempt σ γ} {s t : σ} {a : β}
    (h : x.start s = (.ok a, t)) : (x >>= f).start s = (f a).start t := by
  rw [start_bind, h]

theorem start_bind_error {x : Attempt σ β} {f : β → Attempt σ γ} {s t : σ} {e : Fault}
    (h : x.start s = (.error e, t)) : (x >>= f).start s = (.error e, t) := by
  rw [start_bind, h]

theorem exists_of_start_bind {x : Attempt σ β} {f : β → Attempt σ γ} {s u : σ} {c : γ}
    (h : (x >>= f).start s = (.ok c, u)) :
    ∃ a t, x.start s = (.ok a, t) ∧ (f a).start t = (.ok c, u) := by
  rw [start_bind] at h
  rcases hx : x.start s with ⟨r, t⟩
  rw [hx] at h
  cases r with
  | error e => cases h
  | ok a => exact ⟨a, t, rfl, h⟩

theorem fault_of_start_bind {x : Attempt σ β} {f : β → Attempt σ γ} {s u : σ} {e : Fault}
    (h : (x >>= f).start s = (.error e, u)) :
    x.start s = (.error e, u) ∨ ∃ a t, x.start s = (.ok a, t) ∧ (f a).start t = (.error e, u) := by
  rw [start_bind] at h
  rcases hx : x.start s with ⟨r, t⟩
  rw [hx] at h
  cases r with
  | error e' =>
    cases h
    exact Or.inl rfl
  | ok a => exact Or.inr ⟨a, t, rfl, h⟩

theorem exists_of_start_lift_bind {r : Except Fault β} {f : β → Attempt σ γ} {s u : σ} {c : γ}
    (h : (lift r >>= f).start s = (.ok c, u)) : ∃ a, r = .ok a ∧ (f a).start s = (.ok c, u) := by
  obtain ⟨a, t, ha, h⟩ := exists_of_start_bind h
  rw [start_lift, Prod.mk.injEq] at ha
  obtain ⟨ha, rfl⟩ := ha
  exact ⟨a, ha, h⟩

theorem fault_of_start_lift_bind {r : Except Fault β} {f : β → Attempt σ γ} {s u : σ} {e : Fault}
    (h : (lift r >>= f).start s = (.error e, u)) :
    r = .error e ∧ u = s ∨ ∃ a, r = .ok a ∧ (f a).start s = (.error e, u) := by
  rcases fault_of_start_bind h with h | ⟨a, t, ha, h⟩
  · rw [start_lift, Prod.mk.injEq] at h
    exact Or.inl ⟨h.1, h.2.symm⟩
  · rw [start_lift, Prod.mk.injEq] at ha
    obtain ⟨ha, rfl⟩ := ha
    exact Or.inr ⟨a, ha, h⟩

theorem error_of_bind {x : Attempt σ β} {f : β → Attempt σ γ} {s : σ} {e : Fault}
    (h : (x.start s).1 = .error e) : ((x >>= f).start s).1 = .error e := by
  rw [start_bind_error (Prod.ext h rfl)]

end Attempt
end AssignmentSearch
