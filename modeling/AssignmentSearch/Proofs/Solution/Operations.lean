import AssignmentSearch.Placement.Machine
import AssignmentSearch.Proofs.Solution.Coherence

/-!
# Operations on families

Solutions are made, changed, evaluated, compared and copied in any order. In every state reached the
caches are coherent, so a cost is always the one that would be computed afresh.
-/

namespace AssignmentSearch
namespace Family

/-- What can be done with the solutions of a family. The draws of a swap come from any provider. -/
inductive Operation (α τ ρ δ ι : Type) where
  | construct (name : String) (model : CostModel α τ ρ) (pairs : List (τ × ρ))
  | bind (name : String) (task : τ) (resource : ρ)
  | swap (name : String) (index : Int → Attempt δ ι) (draws : δ)
  | cost (name : String)
  | freshCost (name : String)
  | compare (first second : String)
  | clone (name twin : String)

inductive Reply (α : Type) where
  | done
  | swapped (changed : Bool)
  | cost (value : α)
  | order (sign : Int)

def Operation.targets {α τ ρ δ ι : Type} : Operation α τ ρ δ ι → List String
  | .construct name _ _ | .bind name _ _ | .swap name _ _ | .cost name | .freshCost name => [name]
  | .compare first second => [first, second]
  | .clone _ twin => [twin]

variable {α τ ρ δ ι : Type}

/-- Exchanges two drawn entries in place. A fault among the draws leaves the solution alone. -/
def exchange [Draw ι] (index : Int → Attempt δ ι) (draws : δ) : Attempt (Solution α τ ρ) Bool :=
  Attempt.of fun s => match (s.swap index).start draws with
    | (.ok (changed, t), _) => (.ok changed, t)
    | (.error e, _) => (.error e, s)

theorem isCoherent_exchange [Draw ι] (index : Int → Attempt δ ι) (draws : δ) {s : Solution α τ ρ}
    (h : s.IsCoherent) : ((exchange index draws).start s).2.IsCoherent := by
  rw [exchange, Attempt.start_of]
  rcases hs : (s.swap index).start draws with ⟨_ | ⟨changed, t⟩, d⟩
  · exact h
  · exact Solution.isCoherent_of_start_swap h hs

theorem model_exchange [Draw ι] (index : Int → Attempt δ ι) (draws : δ)
    (t : Solution α τ ρ) : ((exchange index draws).start t).2.model = t.model := by
  rw [exchange, Attempt.start_of]
  rcases h : (t.swap index).start draws with ⟨_ | ⟨b, u⟩, d⟩
  · rfl
  · rcases Solution.swap_cases h with ⟨-, rfl⟩ | ⟨-, i, j, rfl⟩ <;> rfl

section Compare

variable (fresh : Solution α τ ρ) (f : Family α τ ρ) (first second : String)

theorem start_on_cost : (on fresh first Solution.cost).start f =
    (((f.get? first).getD fresh).costValue, f.put first ((f.get? first).getD fresh).evaluated) :=
  rfl

theorem filledIn_on_cost {name : String} {s : Solution α τ ρ} (h : f.get? name = some s) :
    ∃ t, ((on fresh first Solution.cost).start f).2.get? name = some t ∧ s.FilledIn t := by
  by_cases hname : name = first
  · subst hname
    rw [start_on_some h, get?_put_self]
    exact ⟨s.evaluated, rfl, s.filledIn_evaluated⟩
  · rw [get?_on_of_ne fresh Solution.cost f hname]
    exact ⟨s, h, .refl s⟩

variable [Quantity α]

/-- A comparison computes the second cost only after the first one. -/
theorem start_compare_state : ∃ g, g = ((on fresh first Solution.cost).start f).2 ∧
    (((compare fresh first second).start f).2 = g ∨
      ((compare fresh first second).start f).2 = ((on fresh second Solution.cost).start g).2) := by
  refine ⟨_, rfl, ?_⟩
  rw [compare, Attempt.start_bind]
  rcases (on fresh first Solution.cost).start f with ⟨_ | x, g⟩
  · exact .inl rfl
  · right
    simp only
    rw [Attempt.start_bind]
    rcases (on fresh second Solution.cost).start g with ⟨_ | y, u⟩ <;> rfl

theorem filledIn_compare {name : String} {s : Solution α τ ρ} (h : f.get? name = some s) :
    ∃ t, ((compare fresh first second).start f).2.get? name = some t ∧ s.FilledIn t := by
  obtain ⟨g, hg, hstate | hstate⟩ := start_compare_state fresh f first second
  · rw [hstate, hg]
    exact filledIn_on_cost fresh f first h
  · obtain ⟨t, ht, hst⟩ := filledIn_on_cost fresh f first h
    rw [← hg] at ht
    obtain ⟨u, hu, htu⟩ := filledIn_on_cost fresh g second ht
    rw [hstate]
    exact ⟨u, hu, hst.trans htu⟩

theorem start_compare_answer {fresh : Solution α τ ρ} {f : Family α τ ρ} {first second : String}
    {s t : Solution α τ ρ} (hs : f.get? first = some s) (ht : f.get? second = some t) :
    ((compare fresh first second).start f).1 = s.compare t := by
  have hsecond : (((f.put first s.evaluated).get? second).getD fresh).costValue = t.costValue := by
    by_cases hname : second = first
    · subst hname
      rw [hs] at ht
      cases ht
      rw [get?_put_self, Option.getD_some, Solution.costValue_evaluated]
    · rw [get?_put_of_ne f hname, ht, Option.getD_some]
  rw [compare, Attempt.start_bind, start_on_cost, hs, Option.getD_some, Solution.compare]
  cases s.costValue with
  | error e => rfl
  | ok x =>
    simp only
    rw [Attempt.start_bind, start_on_cost, hsecond]
    cases t.costValue <;> rfl

end Compare

variable [Quantity α] [BEq τ] [Key τ] [Draw ι]

/-- Carries an operation out. A name that nothing was made for stands for an empty solution. -/
def perform (model : CostModel α τ ρ) :
    Operation α τ ρ δ ι → Attempt (Family α τ ρ) (Reply α)
  | .construct name own pairs => do
    let m ← Attempt.lift (Mapping.ofKeyedPairs pairs)
    modify fun f => f.put name (.of own m)
    return .done
  | .bind name task resource => do
    Attempt.lift (Key.permit task)
    on (.of model .empty) name (modify fun s => s.bind task resource)
    return .done
  | .swap name index draws => .swapped <$> on (.of model .empty) name (exchange index draws)
  | .cost name => .cost <$> on (.of model .empty) name Solution.cost
  | .freshCost name => .cost <$> on (.of model .empty) name Solution.freshCost
  | .compare first second => .order <$> compare (.of model .empty) first second
  | .clone name twin => do
    modify fun f => clone (.of model .empty) name twin f
    return .done

/-- The family after some operations; one that fails leaves what it has reached. -/
def after (model : CostModel α τ ρ) (ops : List (Operation α τ ρ δ ι)) (f : Family α τ ρ) :
    Family α τ ρ :=
  ops.foldl (fun f op => ((perform model op).start f).2) f

variable (model : CostModel α τ ρ) {f : Family α τ ρ}

theorem IsCoherent.perform (hf : f.IsCoherent) (op : Operation α τ ρ δ ι) :
    ((perform model op).start f).2.IsCoherent := by
  have hfresh : (Solution.of model .empty).IsCoherent := Solution.isCoherent_of_stale rfl
  cases op with
  | construct name own pairs =>
    rw [Family.perform, Attempt.start_bind, Attempt.start_lift]
    cases Mapping.ofKeyedPairs pairs with
    | error e => exact hf
    | ok m => exact hf.put (Solution.isCoherent_of_stale rfl) name
  | bind name task resource =>
    rw [Family.perform, Attempt.start_bind, Attempt.start_lift]
    cases Key.permit task with
    | error e => exact hf
    | ok _ => exact hf.put (Solution.isCoherent_of_stale rfl) name
  | swap name index draws =>
    rw [Family.perform, Attempt.start_map]
    exact hf.on hfresh name fun s hs => isCoherent_exchange index draws hs
  | cost name =>
    rw [Family.perform, Attempt.start_map]
    exact hf.on hfresh name fun s hs => hs.evaluated
  | freshCost name =>
    rw [Family.perform, Attempt.start_map]
    refine hf.on (x := Solution.freshCost) hfresh name fun s _ => ?_
    rw [Solution.start_freshCost]
    exact s.isCoherent_stale.evaluated
  | compare first second =>
    rw [Family.perform, Attempt.start_map]
    obtain ⟨g, hg, hstate⟩ := start_compare_state (.of model .empty) f first second
    have hfirst : g.IsCoherent := by
      rw [hg]
      exact hf.on hfresh first fun s hs => hs.evaluated
    rcases hstate with hstate | hstate
    · rw [hstate]
      exact hfirst
    · rw [hstate]
      exact hfirst.on hfresh second fun s hs => hs.evaluated
  | clone name twin => exact hf.put (hf.getD hfresh name) twin

theorem IsCoherent.after (hf : f.IsCoherent) (ops : List (Operation α τ ρ δ ι)) :
    (after model ops f).IsCoherent := by
  induction ops generalizing f with
  | nil => exact hf
  | cons op ops ih => exact ih (hf.perform model op)

theorem get?_perform_of_notMem (op : Operation α τ ρ δ ι) {other : String}
    (h : other ∉ op.targets) : ((perform model op).start f).2.get? other = f.get? other := by
  cases op with
  | construct name own pairs =>
    rw [Family.perform, Attempt.start_bind, Attempt.start_lift]
    cases Mapping.ofKeyedPairs pairs with
    | error e => rfl
    | ok m => exact get?_put_of_ne f (List.ne_of_not_mem_cons h) _
  | bind name task resource =>
    rw [Family.perform, Attempt.start_bind, Attempt.start_lift]
    cases Key.permit task with
    | error e => rfl
    | ok _ => exact get?_put_of_ne f (List.ne_of_not_mem_cons h) _
  | swap name index draws =>
    rw [Family.perform, Attempt.start_map]
    exact get?_on_of_ne _ (exchange index draws) f (List.ne_of_not_mem_cons h)
  | cost name =>
    rw [Family.perform, Attempt.start_map]
    exact get?_on_of_ne _ Solution.cost f (List.ne_of_not_mem_cons h)
  | freshCost name =>
    rw [Family.perform, Attempt.start_map]
    exact get?_on_of_ne _ Solution.freshCost f (List.ne_of_not_mem_cons h)
  | compare first second =>
    have hfirst : other ≠ first := List.ne_of_not_mem_cons h
    have hsecond : other ≠ second := List.ne_of_not_mem_cons (List.not_mem_of_not_mem_cons h)
    rw [Family.perform, Attempt.start_map]
    obtain ⟨g, hg, hstate | hstate⟩ := start_compare_state (.of model .empty) f first second
    · rw [hstate, hg]
      exact get?_on_of_ne _ _ f hfirst
    · rw [hstate, get?_on_of_ne _ _ g hsecond, hg]
      exact get?_on_of_ne _ _ f hfirst
  | clone name twin => exact get?_put_of_ne f (List.ne_of_not_mem_cons h) _

theorem start_perform_cost {name : String} {s : Solution α τ ρ} (h : f.get? name = some s) :
    (perform model (.cost name : Operation α τ ρ δ ι)).start f =
      (s.costValue.map .cost, f.put name s.evaluated) := by
  rw [perform, Attempt.start_map, start_on_some h]
  rfl

theorem start_perform_freshCost {name : String} {s : Solution α τ ρ} (h : f.get? name = some s) :
    (perform model (.freshCost name : Operation α τ ρ δ ι)).start f =
      (s.stale.costValue.map .cost, f.put name s.stale.evaluated) := by
  rw [perform, Attempt.start_map, start_on_some h, Solution.start_freshCost]
  rfl

/-- What is asked for a cost answers what the model charges; a fault leaves the solution stale. -/
theorem start_cost_operation (hf : f.IsCoherent) {name : String} {s : Solution α τ ρ}
    (h : f.get? name = some s) {op : Operation α τ ρ δ ι}
    (hop : op ∈ [Operation.cost name, Operation.freshCost name]) :
    ((perform model op).start f).1 = (s.model.total s.mapping).map Reply.cost ∧
      ∀ e, s.model.total s.mapping = .error e →
        ∃ t, ((perform model op).start f).2.get? name = some t ∧
          t.mapping = s.mapping ∧ t.cache.valid = false := by
  have hs : s.IsCoherent := hf name s h
  simp only [List.mem_cons, List.not_mem_nil, or_false] at hop
  rcases hop with rfl | rfl
  · rw [start_perform_cost model h, hs.costValue_eq_total]
    refine ⟨rfl, fun e he => ⟨s.evaluated, get?_put_self f name _, s.mapping_evaluated, ?_⟩⟩
    rw [Solution.evaluated_of_error (hs.costValue_eq_total.trans he)]
    exact hs.stale_of_error he
  · have htotal := s.isCoherent_stale.costValue_eq_total
    rw [start_perform_freshCost model h, htotal]
    refine ⟨rfl, fun e he => ⟨s.stale.evaluated, get?_put_self f name _,
      s.stale.mapping_evaluated, ?_⟩⟩
    rw [Solution.evaluated_of_error (htotal.trans he)]
    rfl

/-- Whatever was done with a family, a valid cache holds what its solution would cost if it were
computed afresh. So costs and comparisons answer as if there were no caches, a cost that is a fault
leaves its solution stale with the same mapping, and each operation leaves all solutions alone that
it is not done to; a comparison only fills caches in. -/
theorem caches_stay_coherent (ops : List (Operation α τ ρ δ ι)) :
    (after model ops []).IsCoherent ∧
    (∀ name s, (after model ops []).get? name = some s →
      ∀ op ∈ ([.cost name, .freshCost name] : List (Operation α τ ρ δ ι)),
        ((perform model op).start (after model ops [])).1 =
            (s.model.total s.mapping).map Reply.cost ∧
          ∀ e, s.model.total s.mapping = .error e →
            ∃ t, ((perform model op).start (after model ops [])).2.get? name = some t ∧
              t.mapping = s.mapping ∧ t.cache.valid = false) ∧
    (∀ first second s t, (after model ops []).get? first = some s →
      (after model ops []).get? second = some t →
        ((perform model (.compare first second : Operation α τ ρ δ ι)).start
            (after model ops [])).1 = do
          let x ← s.model.total s.mapping
          let y ← t.model.total t.mapping
          return .order (Solution.compareCosts x y)) ∧
    (∀ first second name s, (after model ops []).get? name = some s →
      ∃ t, ((perform model (.compare first second : Operation α τ ρ δ ι)).start
          (after model ops [])).2.get? name = some t ∧ s.FilledIn t) ∧
    ∀ (op : Operation α τ ρ δ ι) (other : String), other ∉ op.targets →
      ((perform model op).start (after model ops [])).2.get? other =
        (after model ops []).get? other := by
  have hf : (after model ops []).IsCoherent := isCoherent_nil.after model ops
  refine ⟨hf, fun name s h op hop => start_cost_operation model hf h hop, ?_, ?_,
    fun op other h => get?_perform_of_notMem model op h⟩
  · intro first second s t hs ht
    rw [perform, Attempt.start_map, start_compare_answer hs ht, Solution.compare,
      (hf first s hs).costValue_eq_total, (hf second t ht).costValue_eq_total]
    cases s.model.total s.mapping with
    | error e => rfl
    | ok x => cases t.model.total t.mapping <;> rfl
  · intro first second name s h
    rw [perform, Attempt.start_map]
    exact filledIn_compare _ _ first second h

/-- Two machines on two hosts, and a copy of that with the hosts exchanged. -/
def exchangedTwin : List (Operation Float (Vm Int) (Host Int) Unit Int) :=
  [.construct "first" Placement.costModel [(⟨1, 2⟩, ⟨1, 8⟩), (⟨2, 3⟩, ⟨2, 4⟩)],
    .cost "first", .clone "first" "twin", .swap "twin" (fun _ => pure 0) ()]

theorem caches_stay_coherent_exchangedTwin :
    ((after Placement.costModel exchangedTwin []).get? "first").map (·.isStale) = some false ∧
    ((after Placement.costModel exchangedTwin []).get? "twin").map (·.isStale) = some true ∧
    ((perform Placement.costModel (.cost "twin" : Operation _ _ _ Unit Int)).start
      (after Placement.costModel exchangedTwin [])).1 = .ok (.cost 7) := by
  obtain ⟨s, hs⟩ : ∃ s, (after Placement.costModel exchangedTwin []).get? "twin" = some s :=
    Option.isSome_iff_exists.mp (by decide +kernel)
  have htotal : ((after Placement.costModel exchangedTwin []).get? "twin").map
      (fun s => (s.model.total s.mapping).toOption) = some (some 7) := by
    decide +kernel
  rw [hs, Option.map_some, Option.some_inj] at htotal
  have hrun := caches_stay_coherent Placement.costModel exchangedTwin
  refine ⟨by decide +kernel, by decide +kernel, ?_⟩
  rw [(hrun.2.1 "twin" s hs (.cost "twin") (List.mem_cons_self ..)).1]
  cases hc : s.model.total s.mapping with
  | error e =>
    rw [hc] at htotal
    cases htotal
  | ok c =>
    rw [hc] at htotal
    cases htotal
    rfl

end Family
end AssignmentSearch
