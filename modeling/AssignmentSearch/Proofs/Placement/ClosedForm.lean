import AssignmentSearch.Proofs.Placement.Exchanges
import AssignmentSearch.Proofs.Quantity.Reals
import AssignmentSearch.Proofs.Solution.Summands

/-!
# The cost in closed form

The usual cost is a sum of sums over groups. In exact arithmetic it is what the resources in use
offer, each one counted once, less what all tasks ask for. So neither resources without tasks nor
the order of the entries matter.
-/

namespace AssignmentSearch

namespace EquivAmong

variable {ρ : Type} [BEq ρ] {qs rs : List ρ}

theorem nodup_eraseDups (h : EquivAmong rs) : rs.eraseDups.Nodup := by
  refine (pairwise_eraseDups rs).imp_of_mem fun {q r} hq _ hne heq => ?_
  subst heq
  exact hne (h.refl (eraseDups_subset rs hq))

theorem exists_perm_eraseDups (h : EquivAmong rs) (hperm : qs.Perm rs) :
    ∃ first : ρ → ρ, (qs.eraseDups.map first).Perm rs.eraseDups ∧
      ∀ q ∈ rs, first q ∈ rs ∧ q == first q := by
  have hqs : EquivAmong qs := h.mono hperm.subset
  have hmem : ∀ {q}, q ∈ qs.eraseDups → q ∈ rs := fun hq => hperm.subset (eraseDups_subset qs hq)
  choose! first hfirst heq using fun q (hq : q ∈ rs) => h.exists_eraseDups hq
  have hin : ∀ {q}, q ∈ rs → first q ∈ rs := fun hq => eraseDups_subset rs (hfirst _ hq)
  refine ⟨first, (List.perm_ext_iff_of_nodup ?_ h.nodup_eraseDups).mpr fun r => ?_,
    fun q hq => ⟨hin hq, heq q hq⟩⟩
  · refine hqs.nodup_eraseDups.map_on fun q hq p hp hsame => ?_
    have hfp := h.symm (hmem hp) (hin (hmem hp)) (heq p (hmem hp))
    rw [← hsame] at hfp
    exact hqs.eq_of_eraseDups hq hp
      (h.trans (hmem hq) (hin (hmem hq)) (hmem hp) (heq q (hmem hq)) hfp)
  · rw [List.mem_map]
    constructor
    · rintro ⟨q, hq, rfl⟩
      exact hfirst q (hmem hq)
    · intro hr
      have hrs := eraseDups_subset rs hr
      obtain ⟨q, hq, hrq⟩ := hqs.exists_eraseDups (hperm.symm.subset hrs)
      have hrf := h.trans hrs (hmem hq) (hin (hmem hq)) hrq (heq q (hmem hq))
      exact ⟨q, hq, (h.eq_of_eraseDups hr (hfirst q (hmem hq)) hrf).symm⟩

end EquivAmong

/-- What the resources in use offer, each one counted once, less what all tasks ask for. -/
def Mapping.balance {τ ρ G : Type} [BEq ρ] [AddCommGroup G] (m : Mapping τ ρ) (demand : τ → G)
    (capacity : ρ → G) : G :=
  (m.used.map capacity).sum - (m.tasks.map demand).sum

theorem Mapping.cast_balance {τ ρ : Type} [BEq ρ] (m : Mapping τ ρ) (demand : τ → Int)
    (capacity : ρ → Int) :
    ((m.balance demand capacity : Int) : ℝ) =
      m.balance (fun t => (demand t : ℝ)) fun r => (capacity r : ℝ) := by
  have hcast : ∀ {β : Type} (n : β → Int) (xs : List β),
      (((xs.map n).sum : Int) : ℝ) = (xs.map fun x => (n x : ℝ)).sum := by
    intro β n xs
    rw [Int.cast_list_sum, List.map_map]
    rfl
  rw [balance, balance, Int.cast_sub, hcast, hcast]

namespace CostModel

variable {β τ ρ : Type}

theorem sum_real {amount : β → Except Fault ℝ} {n : β → ℝ} {xs : List β}
    (h : ∀ x ∈ xs, amount x = .ok (n x)) (acc : ℝ) :
    CostModel.sum amount acc xs = .ok (acc + (xs.map n).sum) := by
  induction xs generalizing acc with
  | nil => rw [CostModel.sum, List.map_nil, List.sum_nil, add_zero]
  | cons x rest ih =>
    obtain ⟨hx, hrest⟩ := List.forall_mem_cons.mp h
    rw [CostModel.sum, hx, List.map_cons, List.sum_cons, ← add_assoc]
    exact ih hrest (acc + n x)

/-- The amounts of the tasks and the resources of a mapping, and that its resources are keys. -/
structure Prices (demand : τ → Except Fault ℝ) (capacity : ρ → Except Fault ℝ) [Key ρ]
    (m : Mapping τ ρ) (d : τ → ℝ) (c : ρ → ℝ) : Prop where
  keys : ∀ r ∈ m.resources, Key.permit r = .ok ()
  capacities : ∀ r ∈ m.resources, capacity r = .ok (c r)
  demands : ∀ t ∈ m.tasks, demand t = .ok (d t)

/-- Resources that are equal offer the same. -/
def Respects [BEq ρ] (capacity : ρ → Except Fault ℝ) (rs : List ρ) : Prop :=
  ∀ r ∈ rs, ∀ q ∈ rs, r == q → capacity r = capacity q

variable [BEq ρ] [Key ρ] {demand : τ → Except Fault ℝ} {capacity : ρ → Except Fault ℝ}
  {m n : Mapping τ ρ} {d : τ → ℝ} {c : ρ → ℝ}

omit [Key ρ] in
theorem keys_groups (h : EquivAmong m.resources) : m.groups.map (·.1) = m.used := by
  rw [Mapping.groups_eq h, List.map_map]
  exact List.map_id m.used

theorem total_of_prices (name : String) (h : EquivAmong m.resources)
    (hprices : Prices demand capacity m d c) :
    (spare name demand capacity).total m = .ok (m.balance d c) := by
  have hgroups : ∀ g ∈ m.groups,
      spareOf demand capacity g.1 g.2 = .ok (c g.1 - (g.2.map d).sum) := by
    intro g hg
    have hused : g.1 ∈ m.used := keys_groups h ▸ List.mem_map_of_mem hg
    have htasks : ∀ t ∈ g.2, demand t = .ok (d t) := fun t ht =>
      hprices.demands t (Mapping.mem_tasks_iff_groups.mpr ⟨g, hg, ht⟩)
    rw [spareOf, hprices.capacities _ (m.used_subset hused), sum_real htasks]
    exact congrArg (fun x : ℝ => Except.ok (c g.1 - x)) (zero_add (g.2.map d).sum)
  change overGroups (spareOf demand capacity) m = _
  rw [overGroups, Mapping.groupsByKey_eq_ok m hprices.keys]
  change CostModel.sum (fun g : ρ × List τ => spareOf demand capacity g.1 g.2) 0 m.groups = _
  rw [sum_real hgroups, zero_add, sum_spare, keys_groups h, (m.perm_tasks_groups.map d).sum_eq,
    Mapping.balance]

theorem exists_prices (name : String) (h : EquivAmong m.resources)
    (hsame : Respects capacity m.resources) {x : ℝ}
    (htotal : (spare name demand capacity).total m = .ok x) :
    ∃ d c, Prices demand capacity m d c := by
  have hcost : Succeeds (overGroups (spareOf demand capacity) m) := ⟨x, htotal⟩
  obtain ⟨hkeys, hgroups⟩ := parts_of_overGroups hcost
  have hgroup : ∀ g ∈ m.groups, Succeeds (capacity g.1) ∧ ∀ t ∈ g.2, Succeeds (demand t) :=
    fun g hg => succeeds_spareOf_iff.mp (hgroups g hg)
  have hcapacities : ∀ r ∈ m.resources, ∃ a, capacity r = .ok a := by
    intro r hr
    obtain ⟨q, hq, hrq⟩ := Mapping.exists_used h hr
    rw [hsame r hr q (m.used_subset hq) hrq]
    rw [← keys_groups h] at hq
    obtain ⟨g, hg, rfl⟩ := List.mem_map.mp hq
    exact (hgroup g hg).1
  have hdemands : ∀ t ∈ m.tasks, ∃ a, demand t = .ok a := by
    intro t ht
    obtain ⟨g, hg, htg⟩ := Mapping.mem_tasks_iff_groups.mp ht
    exact (hgroup g hg).2 t htg
  choose! c hc using hcapacities
  choose! d hd using hdemands
  exact ⟨d, c, ⟨hkeys, hc, hd⟩⟩

theorem total_eq_ok_iff (name : String) (h : EquivAmong m.resources)
    (hsame : Respects capacity m.resources) {x : ℝ} :
    (spare name demand capacity).total m = .ok x ↔
      ∃ d c, Prices demand capacity m d c ∧ x = m.balance d c := by
  constructor
  · intro htotal
    obtain ⟨d, c, hprices⟩ := exists_prices name h hsame htotal
    rw [total_of_prices name h hprices] at htotal
    cases htotal
    exact ⟨d, c, hprices, rfl⟩
  · rintro ⟨d, c, hprices, rfl⟩
    exact total_of_prices name h hprices

theorem total_congr_capacity (name : String) (h : EquivAmong m.resources)
    {other : ρ → Except Fault ℝ} (hother : ∀ r ∈ m.resources, other r = capacity r) :
    (spare name demand other).total m = (spare name demand capacity).total m := by
  have hsum : ∀ (gs : List (ρ × List τ)) (acc : ℝ), (∀ g ∈ gs, g.1 ∈ m.resources) →
      CostModel.sum (fun g => spareOf demand other g.1 g.2) acc gs =
        CostModel.sum (fun g => spareOf demand capacity g.1 g.2) acc gs := by
    intro gs
    induction gs with
    | nil => exact fun _ _ => rfl
    | cons g rest ih =>
      intro acc hgs
      obtain ⟨hg, hrest⟩ := List.forall_mem_cons.mp hgs
      simp only [CostModel.sum, spareOf, hother g.1 hg]
      cases capacity g.1 with
      | error e => rfl
      | ok a =>
        cases CostModel.sum demand Quantity.zero g.2 with
        | error e => rfl
        | ok b => exact ih _ hrest
  change overGroups (spareOf demand other) m = overGroups (spareOf demand capacity) m
  rw [overGroups, overGroups, Mapping.groupsByKey]
  cases Key.permitAll m.resources with
  | error e => rfl
  | ok u =>
    refine hsum m.groups _ fun g hg => m.used_subset ?_
    rw [← keys_groups h]
    exact List.mem_map_of_mem hg

omit [Key ρ] in
theorem balance_of_perm (h : EquivAmong m.resources) (hperm : n.entries.Perm m.entries)
    (hc : ∀ r ∈ m.resources, ∀ q ∈ m.resources, r == q → c r = c q) :
    n.balance d c = m.balance d c := by
  have hresources : n.resources.Perm m.resources := hperm.map _
  have htasks : n.tasks.Perm m.tasks := hperm.map _
  obtain ⟨first, hfirst, hstands⟩ := h.exists_perm_eraseDups hresources
  have hused : (n.used.map c).sum = (m.used.map c).sum := by
    rw [Mapping.used, Mapping.used, ← (hfirst.map c).sum_eq, List.map_map]
    refine congrArg List.sum (List.map_congr_left fun q hq => ?_)
    have hq' := hresources.subset (n.used_subset hq)
    obtain ⟨hmem, heq⟩ := hstands q hq'
    exact hc q hq' (first q) hmem heq
  rw [Mapping.balance, Mapping.balance, hused, (htasks.map d).sum_eq]

theorem total_of_perm (name : String) (h : EquivAmong m.resources)
    (hsame : Respects capacity m.resources) (hperm : n.entries.Perm m.entries) {x : ℝ}
    (htotal : (spare name demand capacity).total m = .ok x) :
    (spare name demand capacity).total n = .ok x := by
  have hresources : n.resources.Perm m.resources := hperm.map _
  have htasks : n.tasks.Perm m.tasks := hperm.map _
  obtain ⟨d, c, hprices, rfl⟩ := (total_eq_ok_iff name h hsame).mp htotal
  have hc : ∀ r ∈ m.resources, ∀ q ∈ m.resources, r == q → c r = c q := by
    intro r hr q hq hrq
    have hrc := hsame r hr q hq hrq
    rw [hprices.capacities r hr, hprices.capacities q hq] at hrc
    exact Except.ok.inj hrc
  have hprices' : Prices demand capacity n d c :=
    ⟨fun r hr => hprices.keys r (hresources.subset hr),
      fun r hr => hprices.capacities r (hresources.subset hr),
      fun t ht => hprices.demands t (htasks.subset ht)⟩
  rw [total_of_prices name (h.mono hresources.subset) hprices', balance_of_perm h hperm hc]

end CostModel

namespace Placement

/-- What the hosts in use offer less what all machines ask for. -/
def spareElements (m : Mapping (Vm Int) (Host Int)) : Int :=
  m.balance (·.peCount) (·.peCount)

theorem prices_costModel (m : Mapping (Vm Int) (Host Int)) :
    CostModel.Prices (demand : Vm Int → Except Fault ℝ) capacity m (fun vm => (vm.peCount : ℝ))
      fun host => (host.peCount : ℝ) where
  keys := fun host _ => permit_host host
  capacities := fun _ _ => rfl
  demands := fun _ _ => rfl

theorem total_costModel_real (m : Mapping (Vm Int) (Host Int)) :
    (costModel : CostModel ℝ (Vm Int) (Host Int)).total m = .ok (spareElements m : ℝ) := by
  rw [spareElements, Mapping.cast_balance]
  exact CostModel.total_of_prices _ (equivAmong_of_lawful _) (prices_costModel m)

/-- With few elements doubles are as good as exact numbers. -/
theorem total_costModel_double {m : Mapping (Vm Int) (Host Int)} (htasks : m.tasks.Nodup)
    (hbound : elements m.tasks m.used < 2 ^ 53) :
    ∃ q, (costModel : CostModel Float (Vm Int) (Host Int)).total m = .ok q ∧
      Binary64.IsWhole q (spareElements m) := by
  have hequal : EquivAmong m.resources := equivAmong_of_lawful _
  have hused : m.resources ⊆ m.used := by
    intro r hr
    obtain ⟨q, hq, hrq⟩ := Mapping.exists_used hequal hr
    rwa [eq_of_beq hrq]
  obtain ⟨q, hq, hwhole⟩ := CostModel.exists_whole_total
    (countsAs_peCount fun vm : Vm Int => vm.peCount)
    (countsAs_peCount fun host : Host Int => host.peCount) "VmToHostMappingSolution" permit_host
    htasks (List.Subset.refl _) hused hbound
  refine ⟨q, hq, ?_⟩
  rwa [CostModel.sum_spare, CostModel.keys_groups hequal,
    (m.perm_tasks_groups.map (·.peCount)).sum_eq] at hwhole

end Placement

namespace CostModel

/-- Grouping divides the tasks of a mapping exactly. The cost, if all amounts are known, is what the
resources in use offer less what the tasks ask for. Resources that are not in use have no part in
it, nor has the order of the entries. -/
theorem cost_is_capacity_less_demand {τ ρ : Type} [BEq ρ] [Key ρ] (name : String)
    (demand : τ → Except Fault ℝ) (capacity : ρ → Except Fault ℝ) (m : Mapping τ ρ)
    (hequal : EquivAmong m.resources) (htasks : m.tasks.Nodup)
    (hsame : Respects capacity m.resources) :
    -- The groups are those of the resources in use, in order, and none is empty.
    (m.groups = m.used.map fun r => (r, m.tasksOf r)) ∧
    (∀ g ∈ m.groups, g.2 ≠ []) ∧
    -- Every task is in one group, the one of its resource.
    (m.groups.flatMap (·.2)).Perm m.tasks ∧
    (∀ t r, (t, r) ∈ m.entries →
      ∃ g ∈ m.groups, t ∈ g.2 ∧ r == g.1 ∧ ∀ g' ∈ m.groups, t ∈ g'.2 → g' = g) ∧
    -- The cost is known if all amounts are, and then it is the balance.
    (∀ x, (spare name demand capacity).total m = .ok x ↔
      ∃ d c, Prices demand capacity m d c ∧ x = m.balance d c) ∧
    (∀ other : ρ → Except Fault ℝ, (∀ r ∈ m.resources, other r = capacity r) →
      (spare name demand other).total m = (spare name demand capacity).total m) ∧
    (∀ n : Mapping τ ρ, n.entries.Perm m.entries → ∀ x,
      (spare name demand capacity).total n = .ok x ↔
        (spare name demand capacity).total m = .ok x) ∧
    -- The cost of machines on hosts always is known.
    (∀ v : Mapping (Vm Int) (Host Int),
      (Placement.costModel : CostModel ℝ (Vm Int) (Host Int)).total v =
        .ok (Placement.spareElements v : ℝ) ∧
      (v.tasks.Nodup → Placement.elements v.tasks v.used < 2 ^ 53 →
        ∃ q, (Placement.costModel : CostModel Float (Vm Int) (Host Int)).total v = .ok q ∧
          Binary64.IsWhole q (Placement.spareElements v))) := by
  have hgroups := Mapping.groups_eq hequal
  refine ⟨hgroups, ?_, m.perm_tasks_groups, fun t r => Mapping.existsUnique_group hequal htasks,
    fun x => total_eq_ok_iff name hequal hsame, fun other => total_congr_capacity name hequal, ?_,
    fun v => ⟨Placement.total_costModel_real v, Placement.total_costModel_double⟩⟩
  · intro g hg
    rw [hgroups] at hg
    obtain ⟨r, hr, rfl⟩ := List.mem_map.mp hg
    exact Mapping.tasksOf_ne_nil hequal hr
  · intro n hperm x
    have hresources : n.resources.Perm m.resources := hperm.map _
    have hequal' : EquivAmong n.resources := hequal.mono hresources.subset
    have hsame' : Respects capacity n.resources := fun r hr q hq =>
      hsame r (hresources.subset hr) q (hresources.subset hq)
    exact ⟨total_of_perm name hequal' hsame' hperm.symm, total_of_perm name hequal hsame hperm⟩

/-- Three machines on two hosts, the second one between the two of the first. -/
def interleaved : Mapping (Vm Int) (Host Int) :=
  ⟨[(⟨0, 2⟩, ⟨0, 8⟩), (⟨2, 1⟩, ⟨1, 4⟩), (⟨1, 4⟩, ⟨0, 8⟩)]⟩

/-- Two groups, the first one with two machines; of twelve elements seven are asked for, in this
order of the entries and in that of the machines. -/
theorem cost_is_capacity_less_demand_interleaved :
    interleaved.groups = [(⟨0, 8⟩, [⟨0, 2⟩, ⟨1, 4⟩]), (⟨1, 4⟩, [⟨2, 1⟩])] ∧
      (Placement.costModel : CostModel ℝ (Vm Int) (Host Int)).total interleaved = .ok 5 ∧
      (Placement.costModel : CostModel ℝ (Vm Int) (Host Int)).total
        ⟨[(⟨0, 2⟩, ⟨0, 8⟩), (⟨1, 4⟩, ⟨0, 8⟩), (⟨2, 1⟩, ⟨1, 4⟩)]⟩ = .ok 5 := by
  have hcost : (Placement.spareElements interleaved : ℝ) = 5 := by
    have hfive : Placement.spareElements interleaved = 5 := by decide
    rw [hfive]
    norm_num
  obtain ⟨hgroups, -, -, -, -, -, hperm, htotal⟩ := cost_is_capacity_less_demand
    "VmToHostMappingSolution" (Placement.demand : Vm Int → Except Fault ℝ) Placement.capacity
    interleaved (equivAmong_of_lawful _) (by decide) fun r _ q _ h => by rw [eq_of_beq h]
  have hfirst := (htotal interleaved).1
  rw [hcost] at hfirst
  refine ⟨hgroups.trans (by decide), hfirst, (hperm _ ?_ _).mpr hfirst⟩
  decide

end CostModel

end AssignmentSearch
