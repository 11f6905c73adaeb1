import AssignmentSearch.Proofs.Scenario.Escapes

/-!
# Reading a scenario again

What a field was read as is written in a form that stands for itself.
-/

namespace AssignmentSearch

variable {β γ : Type}

namespace Checked

theorem both_eq_ok {x : Checked β} {y : Checked γ} {a : β} {b : γ} :
    x.both y = .ok (a, b) ↔ x = .ok a ∧ y = .ok b := by
  cases x <;> cases y <;> simp [both]

theorem below_eq_ok {step : PathStep} {x : Checked β} {a : β} :
    x.below step = .ok a ↔ x = .ok a := by
  cases x <;> simp [below]

theorem map_eq_ok {x : Checked β} {f : β → γ} {c : γ} :
    x.map f = .ok c ↔ ∃ a, x = .ok a ∧ f a = c := by
  cases x <;> simp [Except.map]

end Checked

open Checked

namespace FieldValue

variable {read : Datum → Checked β} {write : β → Datum} {entries : List (Datum × Datum)}
  {name : String} {absent : Checked β} {x : β}

/-- What is read of any data is read again of what is written for it. -/
def Rereads (read : Datum → Checked β) (write : β → Datum) : Prop :=
  ∀ d x, read d = .ok x → read (write x) = .ok x

theorem ite_flaw_eq_ok {p : β → Prop} [DecidablePred p] {kind : FlawKind} {x y : β} :
    (if p y then .ok y else flaw kind : Checked β) = .ok x ↔ y = x ∧ p x := by
  by_cases hy : p y
  · simp only [hy, if_true, Except.ok.injEq]
    exact ⟨fun h => ⟨h, h ▸ hy⟩, And.left⟩
  · simp only [hy, if_false, flaw, reduceCtorEq, false_iff]
    rintro ⟨rfl, h⟩
    exact hy h

theorem intFrom_eq_ok {bound : Int} {kind : FlawKind} {d : Datum} {n : Int} :
    intFrom bound kind d = .ok n ↔ int d = .ok n ∧ bound ≤ n := by
  rw [intFrom]
  cases int d with
  | error flaws => simp
  | ok k => rw [ite_flaw_eq_ok (p := fun n => bound ≤ n), Except.ok.injEq]

theorem positive_eq_ok {d : Datum} {x : Float} : positive d = .ok x ↔ float d = .ok x ∧ 0 < x := by
  rw [positive]
  cases float d with
  | error flaws => simp
  | ok y => rw [ite_flaw_eq_ok (p := fun x => 0 < x), Except.ok.injEq]

theorem fraction_eq_ok {d : Datum} {x : Float} :
    fraction d = .ok x ↔ float d = .ok x ∧ x < 1 ∧ 0 < x := by
  rw [fraction]
  cases float d with
  | error flaws => simp
  | ok y =>
    by_cases hone : y < 1
    · simp only [hone, decide_true, Bool.not_true, Bool.false_eq_true, if_false]
      rw [ite_flaw_eq_ok (p := fun x => 0 < x), Except.ok.injEq]
      exact ⟨fun h => ⟨h.1, h.1 ▸ hone, h.2⟩, fun h => ⟨h.1, h.2.2⟩⟩
    · simp only [hone, decide_false, Bool.not_false, if_true, flaw, reduceCtorEq, Except.ok.injEq,
        false_iff]
      rintro ⟨rfl, h, -⟩
      exact hone h

theorem rereads_intFrom (bound : Int) (kind : FlawKind) : Rereads (intFrom bound kind) .int :=
  fun _ _ h => intFrom_eq_ok.mpr ⟨rfl, (intFrom_eq_ok.mp h).2⟩

theorem rereads_positive : Rereads positive .float :=
  fun _ _ h => positive_eq_ok.mpr ⟨rfl, (positive_eq_ok.mp h).2⟩

theorem rereads_fraction : Rereads fraction .float :=
  fun _ _ h => fraction_eq_ok.mpr ⟨rfl, (fraction_eq_ok.mp h).2⟩

theorem optional_of_ne_null {d : Datum} (h : d ≠ .null) : optional read d = some <$> read d := by
  cases d <;> first | rfl | exact absurd rfl h

@[simp] theorem optional_text_given (x : Option String) :
    optional text (Scenario.given .str x) = .ok x := by
  cases x <;> rfl

@[simp] theorem optional_int_given (n : Option Int) :
    optional int (Scenario.given .int n) = .ok n := by
  cases n <;> rfl

theorem Rereads.optional (h : Rereads read write) (hne : ∀ x, write x ≠ .null) :
    Rereads (optional read) (Scenario.given write) := by
  intro d x hx
  cases x with
  | none => rfl
  | some y =>
    by_cases hd : d = .null
    · subst hd
      cases hx
    · rw [optional_of_ne_null hd] at hx
      obtain ⟨z, hz, hy⟩ := map_eq_ok.mp hx
      cases hy
      rw [Scenario.given, optional_of_ne_null (hne y), h d y hz]
      rfl

theorem all_map_write (h : Rereads read write) {items : List Datum} {xs : List β} {i : Nat}
    (hx : Checked.all read i items = .ok xs) (j : Nat) :
    Checked.all read j (xs.map write) = .ok xs := by
  induction items generalizing xs i j with
  | nil =>
    cases hx
    rfl
  | cons d rest ih =>
    obtain ⟨⟨y, ys⟩, hboth, rfl⟩ := map_eq_ok.mp hx
    obtain ⟨hy, hys⟩ := both_eq_ok.mp hboth
    rw [List.map_cons, Checked.all, ih hys (j + 1), h d y (below_eq_ok.mp hy)]
    rfl

theorem Rereads.list (h : Rereads read write) :
    Rereads (list read) fun xs => .list (xs.map write) := by
  intro d xs hx
  cases d with
  | list items => exact all_map_write h hx 0
  | set items => exact all_map_write h hx 0
  | _ => cases hx

theorem named_of_present {d : Datum} (hd : Datum.get? entries name = some d) :
    named entries name absent read = (read d).below (.field name) := by
  rw [named, hd]

theorem named_of_get? {d : Datum} (hd : Datum.get? entries name = some d) (hx : read d = .ok x) :
    named entries name absent read = .ok x := by
  rw [named_of_present hd, below_eq_ok]
  exact hx

/-- A field is read again also if it was absent and what stands in for it can be read. -/
theorem Rereads.of_named (h : Rereads read write)
    (habsent : ∀ x, absent = .ok x → read (write x) = .ok x)
    (hx : named entries name absent read = .ok x) : read (write x) = .ok x := by
  rw [named, below_eq_ok] at hx
  split at hx
  · exact h _ x hx
  · exact habsent x hx

theorem Rereads.optional_again {x : Option β} (h : Rereads read write) (hne : ∀ x, write x ≠ .null)
    (hx : named entries name (.ok none) (FieldValue.optional read) = .ok x)
    {again : List (Datum × Datum)} (hget : Datum.get? again name = some (Scenario.given write x)) :
    named again name (.ok none) (FieldValue.optional read) = .ok x := by
  refine named_of_get? hget ((h.optional hne).of_named ?_ hx)
  -- an absent field is written out as null, and null is read as nothing
  rintro _ ⟨⟩
  rfl

end FieldValue

namespace Scenario

open FieldValue

theorem rereads_machine {count : Checked Int} (hcount : ∀ n, count = .ok n → 1 ≤ n) :
    Rereads (model (machineFields count)) fun (id, n) => machine id n := by
  rintro d ⟨id, n⟩ h
  cases d with
  | dict entries =>
    obtain ⟨-, hn⟩ := both_eq_ok.mp h
    have hread := (rereads_intFrom 1 .greaterThan).of_named
      (fun k hk => intFrom_eq_ok.mpr ⟨rfl, hcount k hk⟩) hn
    exact both_eq_ok.mpr
      ⟨named_of_get? (d := .int id) rfl rfl, named_of_get? (d := .int n) rfl hread⟩
  | _ => cases h

theorem rereads_hostField : Rereads hostField fun h => machine h.id h.peCount := by
  intro d h hd
  obtain ⟨⟨id, n⟩, hmachine, rfl⟩ := map_eq_ok.mp hd
  have hnone : ∀ n, (flaw .missing : Checked Int) = .ok n → 1 ≤ n := by
    intro n h
    cases h
  exact map_eq_ok.mpr ⟨(id, n), rereads_machine hnone d (id, n) hmachine, rfl⟩

theorem rereads_vmField : Rereads vmField fun v => machine v.id v.peCount := by
  intro d v hd
  obtain ⟨⟨id, n⟩, hmachine, rfl⟩ := map_eq_ok.mp hd
  have hone : ∀ n, (.ok 1 : Checked Int) = .ok n → 1 ≤ n := by
    rintro n ⟨⟩
    exact Int.le_refl 1
  exact map_eq_ok.mpr ⟨(id, n), rereads_machine hone d (id, n) hmachine, rfl⟩

def annealingDump (c : AnnealingChoice) : Datum :=
  .object [("initial_temperature", given .float c.initial),
    ("cold_temperature", given .float c.cold), ("cooling_rate", given .float c.rate)]

theorem rereads_annealing : Rereads (model annealingFields) annealingDump := by
  intro d c h
  cases d with
  | dict entries =>
    obtain ⟨⟨⟨initial, cold⟩, rate⟩, hall, rfl⟩ := map_eq_ok.mp h
    obtain ⟨hpair, hrate⟩ := both_eq_ok.mp hall
    obtain ⟨hinitial, hcold⟩ := both_eq_ok.mp hpair
    refine map_eq_ok.mpr
      ⟨((initial, cold), rate), both_eq_ok.mpr ⟨both_eq_ok.mpr ⟨?_, ?_⟩, ?_⟩, rfl⟩
    · exact rereads_positive.optional_again nofun hinitial rfl
    · exact rereads_positive.optional_again nofun hcold rfl
    · exact rereads_fraction.optional_again nofun hrate rfl
  | _ => cases h

def gravityDump (iterations : Option Int) : Datum :=
  .object [("max_iterations", given .int iterations)]

theorem rereads_gravity : Rereads (model gravityFields) gravityDump := by
  intro d n h
  cases d with
  | dict entries =>
    change gravityFields [(.str "max_iterations", given .int n)] = .ok n
    exact (rereads_intFrom 1 .greaterThanEqual).optional_again nofun h rfl
  | _ => cases h

structure Legible (s : Scenario) : Prop where
  hosts : list hostField (.list (s.hosts.map fun h => machine h.id h.peCount)) = .ok s.hosts
  vms : list vmField (.list (s.vms.map fun v => machine v.id v.peCount)) = .ok s.vms
  annealing : model annealingFields (annealingDump s.annealing) = .ok s.annealing
  gravity : model gravityFields (gravityDump s.iterations) = .ok s.iterations
  searches : optional (intFrom 1 .greaterThanEqual) (given .int s.searches) = .ok s.searches

theorem legible_of_fields {entries : List (Datum × Datum)} {s : Scenario}
    (h : fields entries = .ok s) : s.Legible := by
  obtain ⟨⟨⟨⟨⟨⟨⟨name, algorithm⟩, hosts⟩, vms⟩, annealing⟩, iterations⟩, searches, seed⟩, hall,
    rfl⟩ := map_eq_ok.mp h
  simp only [both_eq_ok] at hall
  obtain ⟨⟨⟨⟨⟨⟨-, -⟩, hhosts⟩, hvms⟩, hannealing⟩, hgravity⟩, hsearches, -⟩ := hall
  refine ⟨rereads_hostField.list.of_named ?_ hhosts, rereads_vmField.list.of_named ?_ hvms,
    rereads_annealing.of_named ?_ hannealing, rereads_gravity.of_named ?_ hgravity,
    ((rereads_intFrom 1 .greaterThanEqual).optional nofun).of_named ?_ hsearches⟩
  -- what stands in for an absent field is read of an empty list or object
  · rintro _ ⟨⟩
    exact rereads_hostField.list (.list []) [] rfl
  · rintro _ ⟨⟩
    exact rereads_vmField.list (.list []) [] rfl
  · rintro _ ⟨⟩
    exact rereads_annealing (.dict []) _ rfl
  · rintro _ ⟨⟩
    exact rereads_gravity (.dict []) none rfl
  · rintro _ ⟨⟩
    rfl

def dumpWith (s : Scenario) (algorithm seed : Datum) : List (String × Datum) :=
  s.dump.map fun (name, value) =>
    (name, if name = "algo" then algorithm else if name = "seed" then seed else value)

theorem dumpWith_eq (s : Scenario) (algorithm seed : Datum) :
    s.dumpWith algorithm seed = [("name", given .str s.name), ("algo", algorithm),
      ("hosts", .list (s.hosts.map fun h => machine h.id h.peCount)),
      ("vms", .list (s.vms.map fun v => machine v.id v.peCount)),
      ("annealing", annealingDump s.annealing), ("gravity", gravityDump s.iterations),
      ("neighborhood_searches", given .int s.searches), ("seed", seed)] := by
  simp [dumpWith, dump, annealingDump, gravityDump]

theorem dumpWith_self (s : Scenario) :
    s.dumpWith (.str s.algorithm.name) (given .int s.seed) = s.dump := by
  rw [dumpWith_eq]
  rfl

/-- Read again, a scenario is what it was but for an algorithm or a seed that were put in. -/
theorem Legible.fields_dumpWith {s : Scenario} (h : s.Legible) (algorithm : Algorithm)
    (seed : Datum) :
    fields ((s.dumpWith (.str algorithm.name) seed).map fun e => (.str e.1, e.2)) =
      ((optional int seed).below (.field "seed")).map fun n =>
        { s with algorithm := algorithm, seed := n } := by
  rw [dumpWith_eq]
  have halgorithm : algorithmField (.str algorithm.name) = .ok algorithm := by
    cases algorithm <;> rfl
  rw [fields, named_of_get? rfl (optional_text_given s.name), named_of_get? rfl halgorithm,
    named_of_get? rfl h.hosts, named_of_get? rfl h.vms, named_of_get? rfl h.annealing,
    named_of_get? rfl h.gravity, named_of_get? rfl h.searches, named_of_present (d := seed) rfl]
  cases (optional int seed).below (.field "seed") <;> rfl

theorem check_object (entries : List (String × Datum)) :
    check (.object entries) = match fields (entries.map fun e => (.str e.1, e.2)) with
      | .error flaws => .error (.schema flaws)
      | .ok s => checkRules s >>= fun _ => .ok s :=
  ofEntries_of_keys (by simp [hasOtherKey, isText])

theorem exists_fields_of_check {d : Datum} {s : Scenario} (h : check d = .ok s) :
    ∃ entries, fields entries = .ok s ∧ checkRules s = .ok () := by
  cases d with
  | dict entries =>
    change ofEntries entries = .ok s at h
    cases hkeys : hasOtherKey (.dict entries) with
    | true =>
      rw [ofEntries_of_key hkeys] at h
      cases h
    | false =>
      rw [ofEntries_of_keys hkeys] at h
      cases hfields : fields entries with
      | error flaws =>
        rw [hfields] at h
        cases h
      | ok t =>
        rw [hfields] at h
        obtain ⟨⟨⟩, hrules, ⟨⟩⟩ := exists_of_bind_ok h
        exact ⟨entries, hfields, hrules⟩
  | _ => cases h

/-- With another algorithm and other data for its seed an accepted scenario is turned down for the
seed only. -/
theorem check_dumpWith {d : Datum} {s : Scenario} (h : check d = .ok s) (algorithm : Algorithm)
    (seed : Datum) :
    check (.object (s.dumpWith (.str algorithm.name) seed)) =
      match (optional int seed).below (.field "seed") with
        | .error flaws => .error (.schema flaws)
        | .ok n => .ok { s with algorithm := algorithm, seed := n } := by
  obtain ⟨entries, hfields, hrules⟩ := exists_fields_of_check h
  rw [check_object, (legible_of_fields hfields).fields_dumpWith algorithm seed]
  cases (optional int seed).below (.field "seed") with
  | error flaws => rfl
  | ok n =>
    -- no rule between fields concerns the algorithm or the seed
    have hsame : checkRules { s with algorithm := algorithm, seed := n } = checkRules s := rfl
    change (checkRules { s with algorithm := algorithm, seed := n } >>= fun _ => _) = _
    rw [hsame, hrules]
    rfl

end Scenario
end AssignmentSearch
