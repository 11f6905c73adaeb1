import AssignmentSearch.Proofs.Attempts
import AssignmentSearch.Proofs.Markup.ReadingLapses
import AssignmentSearch.Scenario.Source
import Mathlib.Data.List.Nodup

/-!
# Faults that no configuration is blamed for

A scenario that cannot be used is turned down as such a configuration, with three exceptions: a part of
its text lapses, a key is no text, or an identifier that occurs twice is too long to be told.
-/

namespace AssignmentSearch

variable {β γ : Type}

/-- The result is a fault, and not that of a configuration that cannot be used. -/
def Escapes (r : Except Fault β) (f : Fault) : Prop := r = .error f ∧ f.kind ≠ .configuration

namespace Escapes

variable {f : Fault}

theorem not_ok (a : β) : ¬ Escapes (.ok a) f := fun h => by cases h.1

theorem error_iff (g : Fault) :
    Escapes (.error g : Except Fault β) f ↔ f = g ∧ g.kind ≠ .configuration := by
  constructor
  · rintro ⟨⟨⟩, h⟩
    exact ⟨rfl, h⟩
  · rintro ⟨rfl, h⟩
    exact ⟨rfl, h⟩

theorem bind_iff (r : Except Fault β) (k : β → Except Fault γ) :
    Escapes (r >>= k) f ↔ Escapes r f ∨ ∃ a, r = .ok a ∧ Escapes (k a) f := by
  cases r with
  | error g =>
    constructor
    · exact fun h => Or.inl ((error_iff g).mpr ((error_iff g).mp h))
    · rintro (h | ⟨a, ⟨⟩, -⟩)
      exact (error_iff g).mpr ((error_iff g).mp h)
  | ok a =>
    constructor
    · exact fun h => Or.inr ⟨a, rfl, h⟩
    · rintro (h | ⟨b, ⟨⟩, h⟩)
      · exact absurd h (not_ok a)
      · exact h

theorem rule_iff (r : Except Fault Unit) (k : Except Fault γ) :
    Escapes (r >>= fun _ => k) f ↔ Escapes r f ∨ r = .ok () ∧ Escapes k f := by
  rw [bind_iff, exists_and_right]
  exact or_congr_right (and_congr_left' ⟨fun ⟨_, h⟩ => h, fun h => ⟨(), h⟩⟩)

end Escapes

namespace Scenario

theorem mem_repeated {ids : List Int} {i : Int} : i ∈ repeated ids ↔ 1 < ids.count i := by
  have hmem : 1 < ids.count i → i ∈ ids := fun h => List.count_pos_iff.mp (Nat.zero_lt_of_lt h)
  simpa [repeated] using hmem

theorem repeated_eq_nil_iff {ids : List Int} : repeated ids = [] ↔ ids.Nodup := by
  rw [List.eq_nil_iff_forall_not_mem, List.nodup_iff_count_le_one]
  simp [mem_repeated]

def RepeatsLong (ids : List Int) : Prop := ∃ i, 1 < ids.count i ∧ (Datum.int i).isLong = true

theorem checkUnique_eq_ok_iff {list : String} {ids : List Int} :
    checkUnique list ids = .ok () ↔ ids.Nodup := by
  rw [← repeated_eq_nil_iff, ← List.isEmpty_iff, checkUnique]
  cases (repeated ids).isEmpty
  · cases (repeated ids).any fun i => (Datum.int i).isLong <;> simp
  · simp

theorem escapes_checkUnique_iff {list : String} {ids : List Int} {f : Fault} :
    Escapes (checkUnique list ids) f ↔ f = .unwritable ∧ RepeatsLong ids := by
  have hlong : ((repeated ids).any fun i => (Datum.int i).isLong) = true ↔ RepeatsLong ids := by
    simp only [List.any_eq_true, mem_repeated, RepeatsLong]
  rw [checkUnique]
  split
  · rename_i hnil
    have hnot : ¬ RepeatsLong ids := by
      rw [← hlong, List.isEmpty_iff.mp hnil]
      simp
    simp [Escapes.not_ok, hnot]
  · split
    · rename_i h
      simp [Escapes.error_iff, Fault.kind, hlong.mp h]
    · rename_i h
      have hnot : ¬ RepeatsLong ids := fun hl => h (hlong.mpr hl)
      simp [Escapes.error_iff, Fault.kind, hnot]

theorem not_escapes_checkFinite (field : String) (x : Option Float) (f : Fault) :
    ¬ Escapes (checkFinite field x) f := by
  cases x with
  | none => exact Escapes.not_ok ()
  | some x =>
    rw [checkFinite]
    split
    · exact Escapes.not_ok ()
    · simp [Escapes.error_iff, Fault.kind]

theorem escapes_checkRules_iff {s : Scenario} {f : Fault} :
    Escapes (checkRules s) f ↔ f = .unwritable ∧ (RepeatsLong (s.hosts.map (·.id)) ∨
      (s.hosts.map (·.id)).Nodup ∧ RepeatsLong (s.vms.map (·.id))) := by
  rw [checkRules, Escapes.rule_iff, Escapes.rule_iff, Escapes.rule_iff, Escapes.rule_iff,
    Escapes.rule_iff, checkUnique_eq_ok_iff, escapes_checkUnique_iff, escapes_checkUnique_iff]
  constructor
  · rintro (⟨hf, h⟩ | ⟨hhosts, ⟨hf, h⟩ | ⟨-, h | ⟨-, h | ⟨-, h | ⟨-, h⟩⟩⟩⟩⟩)
    · exact ⟨hf, Or.inl h⟩
    · exact ⟨hf, Or.inr ⟨hhosts, h⟩⟩
    -- the rules on numbers blame the configuration
    · exact absurd h (not_escapes_checkFinite _ _ f)
    · exact absurd h (not_escapes_checkFinite _ _ f)
    · exact absurd h (not_escapes_checkFinite _ _ f)
    · split at h
      · split at h
        · exact absurd rfl ((Escapes.error_iff _).mp h).2
        · exact absurd h (Escapes.not_ok ())
      · exact absurd h (Escapes.not_ok ())
  · rintro ⟨hf, h | ⟨hhosts, h⟩⟩
    · exact Or.inl ⟨hf, h⟩
    · exact Or.inr ⟨hhosts, Or.inl ⟨hf, h⟩⟩

def hasOtherKey : Datum → Bool
  | .dict entries => !entries.all fun e => isText e.1
  | _ => false

/-- What in the data of a scenario escapes the blame: a key that is no text, or an identifier that occurs
twice and is too long to be told. -/
inductive Slips : Datum → Fault → Prop
  | key {d : Datum} (h : hasOtherKey d = true) : Slips d .keyNotText
  | identifier {entries : List (Datum × Datum)} {s : Scenario}
      (hkeys : hasOtherKey (.dict entries) = false) (hfields : fields entries = .ok s)
      (h : RepeatsLong (s.hosts.map (·.id)) ∨
        (s.hosts.map (·.id)).Nodup ∧ RepeatsLong (s.vms.map (·.id))) :
    Slips (.dict entries) .unwritable

theorem ofEntries_of_key {entries : List (Datum × Datum)}
    (h : hasOtherKey (.dict entries) = true) : ofEntries entries = .error .keyNotText := by
  rw [hasOtherKey] at h
  rw [ofEntries, h]
  rfl

theorem ofEntries_of_keys {entries : List (Datum × Datum)}
    (h : hasOtherKey (.dict entries) = false) : ofEntries entries = match fields entries with
      | .error flaws => .error (.schema flaws)
      | .ok s => checkRules s >>= fun _ => .ok s := by
  rw [hasOtherKey] at h
  rw [ofEntries, h]
  cases fields entries <;> rfl

theorem escapes_ofEntries_iff {entries : List (Datum × Datum)} {f : Fault} :
    Escapes (ofEntries entries) f ↔ Slips (.dict entries) f := by
  cases hkeys : hasOtherKey (.dict entries) with
  | false =>
    rw [ofEntries_of_keys hkeys]
    constructor
    · intro h
      cases hfields : fields entries with
      | error flaws =>
        rw [hfields] at h
        exact absurd rfl ((Escapes.error_iff _).mp h).2
      | ok s =>
        rw [hfields] at h
        rcases (Escapes.rule_iff _ _).mp h with h | ⟨-, h⟩
        · obtain ⟨rfl, hlong⟩ := escapes_checkRules_iff.mp h
          exact .identifier hkeys hfields hlong
        · exact absurd h (Escapes.not_ok s)
    · rintro (hkey | ⟨-, hfields, h⟩)
      · rw [hkeys] at hkey
        cases hkey
      · rw [hfields]
        exact (Escapes.rule_iff _ _).mpr (Or.inl (escapes_checkRules_iff.mpr ⟨rfl, h⟩))
  | true =>
    rw [ofEntries_of_key hkeys, Escapes.error_iff]
    constructor
    · rintro ⟨rfl, -⟩
      exact .key hkeys
    · rintro (- | ⟨hnone, -, -⟩)
      · exact ⟨rfl, by simp [Fault.kind]⟩
      · rw [hkeys] at hnone
        cases hnone

theorem escapes_check_iff {d : Datum} {f : Fault} : Escapes (check d) f ↔ Slips d f := by
  cases d with
  | dict entries => exact escapes_ofEntries_iff
  | _ =>
    constructor
    · exact fun h => absurd rfl ((Escapes.error_iff _).mp h).2
    · rintro (h | -)
      cases h

/-- What in the text of a scenario escapes the blame: a part that stands for no value, or something in its
data. -/
inductive TextSlips : String → Fault → Prop
  | lapse {text : String} {f : Fault} (h : Markup.read text = .error (.fault f)) : TextSlips text f
  | data {text : String} {d : Datum} {f : Fault} (hread : Markup.read text = .ok d) (h : Slips d f) :
    TextSlips text f

theorem Slips.kind {d : Datum} {f : Fault} (h : Slips d f) : f.kind ∈ Fault.lapseKinds := by
  cases h <;> simp [Fault.kind, Fault.lapseKinds]

theorem TextSlips.kind {text : String} {f : Fault} (h : TextSlips text f) :
    f.kind ∈ Fault.lapseKinds := by
  rcases h with hread | ⟨-, h⟩
  · exact Fault.kind_of_isLapse (Markup.isLapse_of_read hread)
  · exact h.kind

theorem escapes_text_iff (source : String) {text : String} {f : Fault} :
    Escapes (dataOfText source text >>= check) f ↔ TextSlips text f := by
  rw [dataOfText]
  constructor
  · intro h
    split at h
    · rename_i entries hread
      exact .data hread (escapes_check_iff.mp h)
    · exact absurd rfl ((Escapes.error_iff _).mp h).2
    · exact absurd rfl ((Escapes.error_iff _).mp h).2
    · rename_i g hread
      obtain ⟨rfl, -⟩ := (Escapes.error_iff g).mp h
      exact .lapse hread
  · intro hslips
    have hkind : f.kind ≠ .configuration := by
      intro hconf
      have hmem := hslips.kind
      rw [hconf] at hmem
      exact absurd hmem (by decide)
    cases hslips with
    | lapse hread =>
      rw [hread]
      exact (Escapes.error_iff f).mpr ⟨rfl, hkind⟩
    | @data d _ hread h =>
      rw [hread]
      cases d with
      | dict entries => exact escapes_check_iff.mpr h
      | _ => exact absurd rfl ((Escapes.error_iff _).mp (escapes_check_iff.mpr h)).2

/-- Which scenario a text stands for does not depend on where the text comes from. -/
theorem text_eq_ok_iff {source text : String} {s : Scenario} :
    (dataOfText source text >>= check) = .ok s ↔
      ∃ d, Markup.read text = .ok d ∧ check d = .ok s := by
  constructor
  · intro h
    obtain ⟨d, hdata, hcheck⟩ := exists_of_bind_ok h
    refine ⟨d, ?_, hcheck⟩
    rw [dataOfText] at hdata
    split at hdata
    · cases hdata
      assumption
    all_goals cases hdata
  · rintro ⟨d, hread, hcheck⟩
    rw [dataOfText, hread]
    cases d with
    | dict entries => exact hcheck
    | _ => cases hcheck

end Scenario

end AssignmentSearch
