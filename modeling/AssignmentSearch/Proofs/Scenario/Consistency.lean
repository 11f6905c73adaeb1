import AssignmentSearch.Proofs.Mapping.Partition
import AssignmentSearch.Proofs.Scenario.Rereading
import AssignmentSearch.Proofs.Strategy.Cooling
import Mathlib.Data.List.Sort

/-!
# Consistent scenarios

Once all its fields have been read, a scenario is accepted just if the fields go together. Otherwise
the first rule that is broken is the fault. Identifiers that occur twice are named all at once, the
lowest first.
-/

namespace AssignmentSearch

theorem Binary64.lt_iff_not_le {x y : Float} (hx : IsFinite x) (hy : IsFinite y) :
    y < x ↔ ¬ x ≤ y := by
  rw [lt_iff_rank hy.ne_nan hx.ne_nan, le_iff_rank hx.ne_nan hy.ne_nan]
  omega

namespace Scenario

open Binary64

/-- Numbers in strictly increasing order that are just those which occur twice or more. -/
structure Repeats (ids repeats : List Int) : Prop where
  increasing : repeats.Pairwise (· < ·)
  mem_iff : ∀ i, i ∈ repeats ↔ 2 ≤ ids.count i

theorem pairwise_repeated (ids : List Int) : (repeated ids).Pairwise (· < ·) := by
  have hle : (repeated ids).Pairwise (· ≤ ·) := by
    have hsorted := List.pairwise_mergeSort' (· ≤ ·)
      ((ids.filter fun i => 1 < ids.count i).eraseDups)
    simpa [repeated] using hsorted
  have hne : (repeated ids).Pairwise (· ≠ ·) := by
    have hapart := pairwise_eraseDups (ids.filter fun i => 1 < ids.count i)
    have hnodup : ((ids.filter fun i => 1 < ids.count i).eraseDups).Nodup := by
      refine hapart.imp ?_
      intro i j h hij
      exact h (beq_iff_eq.mpr hij.symm)
    exact (List.mergeSort_perm _ _).nodup_iff.mpr hnodup
  refine (hle.and hne).imp ?_
  intro i j h
  exact lt_of_le_of_ne h.1 h.2

theorem repeats_repeated (ids : List Int) : Repeats ids (repeated ids) where
  increasing := pairwise_repeated ids
  mem_iff _ := mem_repeated

theorem Repeats.eq_repeated {ids repeats : List Int} (h : Repeats ids repeats) :
    repeats = repeated ids := by
  apply List.Pairwise.eq_of_mem_iff h.increasing (pairwise_repeated ids)
  intro i
  rw [h.mem_iff, mem_repeated]
  exact Iff.rfl

/-- The fault that names the identifiers which occur twice or more; it cannot be told if one of them is
too long to be written. -/
def told (list : String) (repeats : List Int) : Fault :=
  if repeats.any fun i => (Datum.int i).isLong then .unwritable else .duplicateIds list repeats

theorem checkUnique_eq_error_iff {list : String} {ids : List Int} {f : Fault} :
    checkUnique list ids = .error f ↔
      ∃ repeats, Repeats ids repeats ∧ repeats ≠ [] ∧ f = told list repeats := by
  have hchosen : (∃ repeats, Repeats ids repeats ∧ repeats ≠ [] ∧ f = told list repeats) ↔
      repeated ids ≠ [] ∧ f = told list (repeated ids) := by
    constructor
    · rintro ⟨repeats, h, hne, rfl⟩
      rw [← h.eq_repeated]
      exact ⟨hne, rfl⟩
    · rintro ⟨hne, rfl⟩
      exact ⟨repeated ids, repeats_repeated ids, hne, rfl⟩
  rw [hchosen, checkUnique, told]
  by_cases hnil : repeated ids = []
  · simp [hnil]
  · rw [if_neg (by simpa using hnil)]
    split <;> simp [hnil, eq_comm]

def numbers (s : Scenario) : List (String × Option Float) :=
  [("initial_temperature", s.annealing.initial), ("cold_temperature", s.annealing.cold),
    ("cooling_rate", s.annealing.rate)]

def AllFinite (entries : List (String × Option Float)) : Prop :=
  ∀ e ∈ entries, ∀ x, e.2 = some x → IsFinite x

inductive FirstInfinite : List (String × Option Float) → String → Float → Prop
  | here {field : String} {x : Float} {rest : List (String × Option Float)} (h : ¬ IsFinite x) :
      FirstInfinite ((field, some x) :: rest) field x
  | there {e : String × Option Float} {rest : List (String × Option Float)} {field : String} {x : Float}
      (hfirst : ∀ y, e.2 = some y → IsFinite y) (h : FirstInfinite rest field x) :
      FirstInfinite (e :: rest) field x

def checkNumbers : List (String × Option Float) → Except Fault Unit
  | [] => .ok ()
  | e :: rest => checkFinite e.1 e.2 >>= fun _ => checkNumbers rest

theorem rule_eq_error_iff {β : Type} {r : Except Fault Unit} {k : Except Fault β} {f : Fault} :
    (r >>= fun _ => k) = .error f ↔ r = .error f ∨ r = .ok () ∧ k = .error f := by
  cases r with
  | error g =>
    change Except.error g = .error f ↔ _
    simp
  | ok u =>
    change k = .error f ↔ _
    simp

theorem rule_eq_ok_iff {β : Type} {r : Except Fault Unit} {k : Except Fault β} {a : β} :
    (r >>= fun _ => k) = .ok a ↔ r = .ok () ∧ k = .ok a := by
  cases r with
  | error g =>
    change Except.error g = .ok a ↔ _
    simp
  | ok u =>
    change k = .ok a ↔ _
    simp

theorem checkFinite_eq_ok_iff {field : String} {x : Option Float} :
    checkFinite field x = .ok () ↔ ∀ y, x = some y → IsFinite y := by
  cases x with
  | none => simp [checkFinite]
  | some x => simp [checkFinite, ← Annealing.isFinite_iff]

theorem checkFinite_eq_error_iff {field : String} {x : Option Float} {f : Fault} :
    checkFinite field x = .error f ↔ ∃ y, x = some y ∧ ¬ IsFinite y ∧ f = .fieldNotFinite field y := by
  cases x with
  | none => simp [checkFinite]
  | some x =>
    simp only [checkFinite, Option.some.injEq, exists_eq_left', ← Annealing.isFinite_iff]
    split
    · simp [*]
    · simp [*, eq_comm]

theorem checkNumbers_eq_ok_iff {entries : List (String × Option Float)} :
    checkNumbers entries = .ok () ↔ AllFinite entries := by
  induction entries with
  | nil => simp [checkNumbers, AllFinite]
  | cons e rest ih =>
    rw [checkNumbers, rule_eq_ok_iff, checkFinite_eq_ok_iff, ih]
    simp [AllFinite]

theorem checkNumbers_eq_error_iff {entries : List (String × Option Float)} {f : Fault} :
    checkNumbers entries = .error f ↔
      ∃ field x, FirstInfinite entries field x ∧ f = .fieldNotFinite field x := by
  induction entries with
  | nil =>
    constructor
    · intro h
      cases h
    · rintro ⟨field, x, ⟨⟩, -⟩
  | cons e rest ih =>
    rw [checkNumbers, rule_eq_error_iff, checkFinite_eq_ok_iff, checkFinite_eq_error_iff, ih]
    constructor
    · rintro (⟨x, hx, hinfinite, rfl⟩ | ⟨hfirst, field, x, h, rfl⟩)
      · obtain ⟨field, value⟩ := e
        subst hx
        exact ⟨field, x, .here hinfinite, rfl⟩
      · exact ⟨field, x, .there hfirst h, rfl⟩
    · rintro ⟨field, x, h, rfl⟩
      cases h with
      | here h => exact .inl ⟨x, rfl, h, rfl⟩
      | there hfirst h => exact .inr ⟨hfirst, field, x, h, rfl⟩

def checkOrder (s : Scenario) : Except Fault Unit :=
  match s.annealing.initial, s.annealing.cold with
  | some initial, some cold => if initial ≤ cold then .error .fieldColdNotBelow else .ok ()
  | _, _ => .ok ()

theorem checkRules_eq (s : Scenario) :
    checkRules s = (checkUnique "hosts" (s.hosts.map (·.id)) >>= fun _ =>
      checkUnique "vms" (s.vms.map (·.id)) >>= fun _ =>
        checkNumbers s.numbers >>= fun _ => checkOrder s) := by
  rw [checkRules, numbers, checkOrder]
  simp only [checkNumbers]
  cases checkFinite "initial_temperature" s.annealing.initial <;>
    cases checkFinite "cold_temperature" s.annealing.cold <;>
      cases checkFinite "cooling_rate" s.annealing.rate <;>
        cases s.annealing.initial <;> cases s.annealing.cold <;> rfl

structure Consistent (s : Scenario) : Prop where
  hosts : (s.hosts.map (·.id)).Nodup
  vms : (s.vms.map (·.id)).Nodup
  finite : AllFinite s.numbers
  order : ∀ initial cold, s.annealing.initial = some initial → s.annealing.cold = some cold →
    cold < initial

/-- The first rule that a scenario breaks, as a fault. -/
inductive Breaks (s : Scenario) : Fault → Prop
  | hosts {repeats : List Int} (h : Repeats (s.hosts.map (·.id)) repeats) (hne : repeats ≠ []) :
      Breaks s (told "hosts" repeats)
  | vms {repeats : List Int} (hhosts : (s.hosts.map (·.id)).Nodup)
      (h : Repeats (s.vms.map (·.id)) repeats) (hne : repeats ≠ []) : Breaks s (told "vms" repeats)
  | number {field : String} {x : Float} (hhosts : (s.hosts.map (·.id)).Nodup)
      (hvms : (s.vms.map (·.id)).Nodup) (h : FirstInfinite s.numbers field x) :
      Breaks s (.fieldNotFinite field x)
  | order {initial cold : Float} (hhosts : (s.hosts.map (·.id)).Nodup)
      (hvms : (s.vms.map (·.id)).Nodup) (hfinite : AllFinite s.numbers)
      (hinitial : s.annealing.initial = some initial) (hcold : s.annealing.cold = some cold)
      (h : ¬ cold < initial) : Breaks s .fieldColdNotBelow

theorem finite_temperatures {s : Scenario} (h : AllFinite s.numbers) :
    (∀ x, s.annealing.initial = some x → IsFinite x) ∧
      ∀ x, s.annealing.cold = some x → IsFinite x := by
  simp only [AllFinite, numbers, List.forall_mem_cons] at h
  exact ⟨h.1, h.2.1⟩

theorem checkOrder_eq_ok_iff {s : Scenario} (hfinite : AllFinite s.numbers) :
    checkOrder s = .ok () ↔ ∀ initial cold, s.annealing.initial = some initial →
      s.annealing.cold = some cold → cold < initial := by
  obtain ⟨hinitial, hcold⟩ := finite_temperatures hfinite
  rw [checkOrder]
  cases hi : s.annealing.initial with
  | none => simp
  | some initial =>
    cases hc : s.annealing.cold with
    | none => simp
    | some cold => simp [lt_iff_not_le (hinitial _ hi) (hcold _ hc)]

theorem checkOrder_eq_error_iff {s : Scenario} (hfinite : AllFinite s.numbers) {f : Fault} :
    checkOrder s = .error f ↔ ∃ initial cold, s.annealing.initial = some initial ∧
      s.annealing.cold = some cold ∧ ¬ cold < initial ∧ f = .fieldColdNotBelow := by
  obtain ⟨hinitial, hcold⟩ := finite_temperatures hfinite
  rw [checkOrder]
  cases hi : s.annealing.initial with
  | none => simp
  | some initial =>
    cases hc : s.annealing.cold with
    | none => simp
    | some cold =>
      simp only [Option.some.injEq, exists_eq_left', exists_and_left,
        lt_iff_not_le (hinitial _ hi) (hcold _ hc), not_not]
      split <;> simp [*, eq_comm]

theorem checkRules_eq_ok_iff {s : Scenario} : checkRules s = .ok () ↔ s.Consistent := by
  rw [checkRules_eq, rule_eq_ok_iff, rule_eq_ok_iff, rule_eq_ok_iff, checkUnique_eq_ok_iff,
    checkUnique_eq_ok_iff, checkNumbers_eq_ok_iff]
  constructor
  · rintro ⟨hhosts, hvms, hfinite, horder⟩
    exact ⟨hhosts, hvms, hfinite, (checkOrder_eq_ok_iff hfinite).mp horder⟩
  · intro h
    exact ⟨h.hosts, h.vms, h.finite, (checkOrder_eq_ok_iff h.finite).mpr h.order⟩

theorem checkRules_eq_error_iff {s : Scenario} {f : Fault} : checkRules s = .error f ↔ s.Breaks f := by
  rw [checkRules_eq, rule_eq_error_iff, rule_eq_error_iff, rule_eq_error_iff, checkUnique_eq_ok_iff,
    checkUnique_eq_ok_iff, checkNumbers_eq_ok_iff, checkUnique_eq_error_iff, checkUnique_eq_error_iff,
    checkNumbers_eq_error_iff]
  constructor
  · rintro (⟨repeats, h, hne, rfl⟩ | ⟨hhosts, ⟨repeats, h, hne, rfl⟩ | ⟨hvms, ⟨field, x, h, rfl⟩ |
      ⟨hfinite, horder⟩⟩⟩)
    · exact .hosts h hne
    · exact .vms hhosts h hne
    · exact .number hhosts hvms h
    · obtain ⟨initial, cold, hinitial, hcold, hnot, rfl⟩ := (checkOrder_eq_error_iff hfinite).mp horder
      exact .order hhosts hvms hfinite hinitial hcold hnot
  · intro h
    cases h with
    | hosts h hne => exact .inl ⟨_, h, hne, rfl⟩
    | vms hhosts h hne => exact .inr ⟨hhosts, .inl ⟨_, h, hne, rfl⟩⟩
    | number hhosts hvms h => exact .inr ⟨hhosts, .inr ⟨hvms, .inl ⟨_, _, h, rfl⟩⟩⟩
    | order hhosts hvms hfinite hinitial hcold hnot =>
      have horder := (checkOrder_eq_error_iff hfinite).mpr ⟨_, _, hinitial, hcold, hnot, rfl⟩
      exact .inr ⟨hhosts, .inr ⟨hvms, .inr ⟨hfinite, horder⟩⟩⟩

/-- Data whose keys are texts and whose fields can all be read, and the scenario that they give. -/
def Fits (d : Datum) (s : Scenario) : Prop :=
  ∃ entries, d = .dict entries ∧ hasOtherKey d = false ∧ fields entries = .ok s

theorem Fits.check_eq {d : Datum} {s : Scenario} (h : Fits d s) :
    check d = checkRules s >>= fun _ => .ok s := by
  obtain ⟨entries, rfl, hkeys, hfields⟩ := h
  change ofEntries entries = _
  rw [ofEntries_of_keys hkeys, hfields]

/-- The identifiers that have to be named hold one that is too long to be written. -/
def RepeatsLongFirst (s : Scenario) : Prop :=
  RepeatsLong (s.hosts.map (·.id)) ∨
    (s.hosts.map (·.id)).Nodup ∧ RepeatsLong (s.vms.map (·.id))

theorem Breaks.blames_iff {s : Scenario} {f : Fault} (h : s.Breaks f) :
    f.kind = .configuration ↔ ¬ s.RepeatsLongFirst := by
  have hrules := checkRules_eq_error_iff.mpr h
  constructor
  · intro hkind hlong
    have hescapes := escapes_checkRules_iff.mpr ⟨rfl, hlong⟩
    rw [hescapes.1] at hrules
    cases hrules
    exact absurd hkind hescapes.2
  · intro hshort
    by_contra hkind
    exact hshort (escapes_checkRules_iff.mp ⟨hrules, hkind⟩).2

end Scenario

/-- Data whose fields can all be read are accepted, for the scenario that they give, just if the fields
go together. Otherwise the first rule that is broken is the fault, which blames the configuration
unless it would have to name an identifier that is too long to be written. -/
theorem consistent_scenarios_are_accepted {d : Datum} {s : Scenario} (h : Scenario.Fits d s) :
    (∀ t, Scenario.check d = .ok t ↔ t = s ∧ s.Consistent) ∧
      (∀ f, Scenario.check d = .error f ↔ s.Breaks f) ∧
        ∀ f, s.Breaks f → (f.kind = .configuration ↔ ¬ s.RepeatsLongFirst) := by
  rw [h.check_eq]
  refine ⟨?_, ?_, fun f hf => hf.blames_iff⟩
  · intro t
    rw [Scenario.rule_eq_ok_iff, Scenario.checkRules_eq_ok_iff, Except.ok.injEq, eq_comm, and_comm]
  · intro f
    rw [Scenario.rule_eq_error_iff, Scenario.checkRules_eq_error_iff]
    simp

def hostEntries (ids : List Datum) : List (Datum × Datum) :=
  [(.str "hosts", .list (ids.map fun id => .object [("id", id), ("pe_count", .int 1)]))]

/-- A text, a number and a truth value can stand for one identifier. Of one that is too long to be
written nothing is told. -/
theorem consistent_scenarios_are_accepted_alike :
    Scenario.check (.dict (hostEntries [.str "1", .int 3, .int 1, .int 3, .bool true])) =
        .error (.duplicateIds "hosts" [1, 3]) ∧
      ∀ n, (Datum.int n).isLong = true →
        Scenario.check (.dict (hostEntries [.int n, .int n])) = .error .unwritable := by
  have hfits : ∀ (ids : List Datum) (hosts : List (Host Int)),
      FieldValue.list Scenario.hostField (.list (ids.map fun id =>
        .object [("id", id), ("pe_count", .int 1)])) = .ok hosts →
      Scenario.Fits (.dict (hostEntries ids)) ⟨none, .annealing, hosts, [], ⟨none, none, none⟩, none,
        none, none⟩ := by
    intro ids hosts h
    refine ⟨hostEntries ids, rfl, rfl, ?_⟩
    have hnamed : FieldValue.named (hostEntries ids) "hosts" (.ok [])
        (FieldValue.list Scenario.hostField) = .ok hosts := FieldValue.named_of_get? rfl h
    rw [Scenario.fields, hnamed]
    rfl
  constructor
  · have hrepeats : Scenario.Repeats [1, 3, 1, 3, 1] [1, 3] := by
      refine ⟨by decide, ?_⟩
      intro i
      by_cases hone : i = 1
      · subst hone
        decide
      · by_cases hthree : i = 3
        · subst hthree
          decide
        · simp [hone, hthree, Ne.symm hone, Ne.symm hthree]
    have htold : Scenario.told "hosts" [1, 3] = .duplicateIds "hosts" [1, 3] := by
      rw [Scenario.told, if_neg (by decide +kernel)]
    rw [← htold]
    exact ((consistent_scenarios_are_accepted
      (hfits _ [⟨1, 1⟩, ⟨3, 1⟩, ⟨1, 1⟩, ⟨3, 1⟩, ⟨1, 1⟩] rfl)).2.1 _).mpr (.hosts hrepeats (by simp))
  · intro n hlong
    have hrepeats : Scenario.Repeats [n, n] [n] := by
      refine ⟨List.pairwise_singleton _ _, ?_⟩
      intro i
      by_cases hi : i = n
      · simp [hi]
      · simp [hi, Ne.symm hi]
    have htold : Scenario.told "hosts" [n] = .unwritable := by
      rw [Scenario.told, if_pos (by simp [hlong])]
    rw [← htold]
    exact ((consistent_scenarios_are_accepted (hfits _ [⟨n, 1⟩, ⟨n, 1⟩] rfl)).2.1 _).mpr
      (.hosts hrepeats (by simp))

end AssignmentSearch
