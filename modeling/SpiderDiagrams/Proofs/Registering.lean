import SpiderDiagrams.Proofs.Failing
import SpiderDiagrams.Reasoning.Registry

/-!
# Registering rules

A registry is filled by one registration after another, some of which are refused. The table of rules would
let a rule take the place of an earlier one that has its name (`overwrite`), but such a rule is refused
before. So the first rule that comes under a name is the one that the name stands for, whatever comes later
(`find?_rules_registerAll`).
-/
namespace SpiderDiagrams.Registry

variable {r r' : Registry} {rule : Rule} {rules : List Rule} {name : String} {e : RuleError}

/-! ## One registration -/

/-- Enters a rule into a table with one rule for each name. The rule comes last, or takes the place of the one
that has its name. -/
def overwrite (rule : Rule) : List Rule → List Rule
  | [] => [rule]
  | held :: rules => if held.name = rule.name then rule :: rules else held :: overwrite rule rules

theorem overwrite_of_new (h : ∀ held ∈ rules, held.name ≠ rule.name) :
    overwrite rule rules = rules ++ [rule] := by
  induction rules with
  | nil => rfl
  | cons held rules ih =>
    rw [List.forall_mem_cons] at h
    rw [overwrite, if_neg h.1, ih h.2, List.cons_append]

theorem contains_iff : r.contains name = true ↔ ∃ held ∈ r.rules, held.name = name := by
  simp [contains, names]

theorem register_eq_error_iff :
    r.register rule = .error e ↔ (∃ held ∈ r.rules, held.name = rule.name) ∧ e = .duplicateRule rule.name := by
  rw [← contains_iff, register]
  split
  · rename_i h
    simp [h, eq_comm]
  · rename_i h
    simp [h]

/-- A new name comes last, so entering its rule into the table replaces nothing. -/
theorem register_eq_ok_iff :
    r.register rule = .ok r' ↔
      (∀ held ∈ r.rules, held.name ≠ rule.name) ∧ r'.rules = overwrite rule r.rules := by
  have hnew : (∀ held ∈ r.rules, held.name ≠ rule.name) ↔ ¬ r.contains rule.name = true := by
    rw [contains_iff]
    simp
  rw [hnew, register]
  split
  · rename_i h
    simp [h]
  · rename_i h
    rw [overwrite_of_new (hnew.mpr h), and_iff_right h]
    obtain ⟨rules', distinct⟩ := r'
    simp [eq_comm]

/-! ## Registrations one after another -/

/-- A registration that is refused leaves the registry as it was. -/
def attempt (r : Registry) (rule : Rule) : Registry :=
  match r.register rule with
  | .ok r' => r'
  | .error _ => r

def registerAll (r : Registry) (history : List Rule) : Registry := history.foldl attempt r

/-- The rules whose registrations succeed, in order. -/
def accepted (r : Registry) : List Rule → List Rule
  | [] => []
  | rule :: history =>
    match r.register rule with
    | .ok r' => rule :: r'.accepted history
    | .error _ => r.accepted history

theorem attempt_of_ok (h : r.register rule = .ok r') : r.attempt rule = r' := by
  rw [attempt, h]

theorem attempt_of_error (h : r.register rule = .error e) : r.attempt rule = r := by
  rw [attempt, h]

theorem rules_of_register (h : r.register rule = .ok r') : r'.rules = r.rules ++ [rule] := by
  obtain ⟨hnew, hrules⟩ := register_eq_ok_iff.mp h
  rw [hrules, overwrite_of_new hnew]

theorem rules_registerAll (r : Registry) (history : List Rule) :
    (r.registerAll history).rules = r.rules ++ r.accepted history := by
  induction history generalizing r with
  | nil => exact (List.append_nil _).symm
  | cons rule history ih =>
    rw [registerAll, List.foldl_cons, ← registerAll, ih]
    cases h : r.register rule with
    | error e => simp only [attempt_of_error h, accepted, h]
    | ok r' =>
      simp only [attempt_of_ok h, accepted, h, rules_of_register h, List.append_assoc, List.singleton_append]

/-- A rule is found by a name only if none that has the name was there before. -/
theorem find?_rules_attempt (r : Registry) (rule : Rule) (name : String) :
    (r.attempt rule).rules.find? (·.name = name) = (r.rules ++ [rule]).find? (·.name = name) := by
  cases h : r.register rule with
  | ok r' => rw [attempt_of_ok h, rules_of_register h]
  | error e =>
    obtain ⟨⟨held, hmem, hheld⟩, -⟩ := register_eq_error_iff.mp h
    rw [attempt_of_error h, List.find?_append]
    by_cases hname : rule.name = name
    · have hfound : (r.rules.find? (·.name = name)).isSome = true := by
        rw [List.find?_isSome]
        exact ⟨held, hmem, by simp [hheld, hname]⟩
      obtain ⟨first, hfirst⟩ := Option.isSome_iff_exists.mp hfound
      rw [hfirst, Option.some_or]
    · have hother : [rule].find? (·.name = name) = none := by simpa using hname
      rw [hother, Option.or_none]

/-- A name stands for the first rule that was registered under it. -/
theorem find?_rules_registerAll (r : Registry) (history : List Rule) (name : String) :
    (r.registerAll history).rules.find? (·.name = name) = (r.rules ++ history).find? (·.name = name) := by
  induction history generalizing r with
  | nil => rw [List.append_nil]; rfl
  | cons rule history ih =>
    rw [registerAll, List.foldl_cons, ← registerAll, ih, List.find?_append, find?_rules_attempt,
      ← List.find?_append, List.append_assoc, List.singleton_append]

/-! ## Looking rules up -/

theorem get_eq_ok_iff : r.get name = .ok rule ↔ r.rules.find? (·.name = name) = some rule := by
  rw [get]
  cases r.rules.find? (·.name = name) <;> simp

theorem get_eq_error_iff :
    r.get name = .error e ↔ r.rules.find? (·.name = name) = none ∧ e = .unknownRule name := by
  rw [get]
  cases r.rules.find? (·.name = name) <;> simp [eq_comm]

theorem instructions_of_get (h : r.get name = .ok rule) : r.instructions name = rule.instructions := by
  rw [instructions, h]
  rfl

theorem apply_of_get (h : r.get name = .ok rule) (goal : Diagram) (argument : Argument) (style : Style) :
    r.apply goal name argument style = rule.apply goal argument style := by
  rw [Registry.apply, h]
  rfl

theorem names_registerAll (r : Registry) (history : List Rule) :
    (r.registerAll history).names = r.names ++ (r.accepted history).map Rule.name := by
  rw [names, rules_registerAll, List.map_append]
  rfl

/-- Among the rules that are held there is one of a name as soon as one of that name was registered. -/
theorem mem_names_registerAll (r : Registry) (history : List Rule) (name : String) :
    name ∈ (r.registerAll history).names ↔ ∃ rule ∈ r.rules ++ history, rule.name = name := by
  have hfound := find?_rules_registerAll r history name
  have hsome := congrArg Option.isSome hfound
  rw [Bool.eq_iff_iff, List.find?_isSome, List.find?_isSome] at hsome
  simpa [names] using hsome

theorem get_registerAll_eq_ok_iff (r : Registry) (history : List Rule) :
    (r.registerAll history).get name = .ok rule ↔
      (r.rules ++ history).find? (·.name = name) = some rule := by
  rw [get_eq_ok_iff, find?_rules_registerAll]

theorem get_registerAll_eq_unknownRule_iff (r : Registry) (history : List Rule) :
    (r.registerAll history).get name = .error (.unknownRule name) ↔
      ∀ rule ∈ r.rules ++ history, rule.name ≠ name := by
  rw [get_eq_error_iff, and_iff_left rfl, find?_rules_registerAll, List.find?_eq_none]
  simp

/-- What is done with the rule of a name ends in an unknown name only if there is no such rule, unless the
rule itself gives that error. -/
theorem get_bind_eq_unknownRule_iff {α : Type} {f : Rule → Except RuleError α} :
    (r.get name >>= f) = .error (.unknownRule name) ↔
      r.get name = .error (.unknownRule name) ∨
        ∃ rule, r.get name = .ok rule ∧ f rule = .error (.unknownRule name) := by
  cases r.get name <;> simp [bind, Except.bind]

/-- However often rules are registered, the first of each name is kept. A registration fails if a rule of that
name is held, which is so if one was registered before, and then nothing changes; otherwise its rule comes
last and replaces none. The names are those of the successful registrations, each once and in their order.
Under every name the first rule is used that was registered under it, and the name is unknown if there is
none. -/
theorem registrations_keep_first (start : Registry) (history : List Rule) :
    let offered := start.rules ++ history
    let r := start.registerAll history
    (∀ before rule after, history = before ++ rule :: after →
      let held := start.registerAll before
      let next := start.registerAll (before ++ [rule])
      (held.register rule = .error (.duplicateRule rule.name) ↔ rule.name ∈ held.names) ∧
      (rule.name ∈ held.names ↔ ∃ earlier ∈ start.rules ++ before, earlier.name = rule.name) ∧
      (∀ e, held.register rule = .error e → e = .duplicateRule rule.name ∧ next = held) ∧
      ∀ r', held.register rule = .ok r' →
        next = r' ∧ r'.rules = overwrite rule held.rules ∧ r'.rules = held.rules ++ [rule]) ∧
    r.names = start.names ++ (start.accepted history).map Rule.name ∧ r.names.Nodup ∧
    ∀ name,
      (∀ before rule after, offered = before ++ rule :: after → rule.name = name →
        (∀ earlier ∈ before, earlier.name ≠ name) →
        r.get name = .ok rule ∧ r.instructions name = rule.instructions ∧
          ∀ goal argument style, r.apply goal name argument style = rule.apply goal argument style) ∧
      (r.get name = .error (.unknownRule name) ↔ ∀ rule ∈ offered, rule.name ≠ name) ∧
      (r.instructions name = .error (.unknownRule name) ↔ (∀ rule ∈ offered, rule.name ≠ name) ∨
        ∃ rule, r.get name = .ok rule ∧ rule.instructions = .error (.unknownRule name)) ∧
      ∀ goal argument style,
        (r.apply goal name argument style = .error (.unknownRule name) ↔ (∀ rule ∈ offered, rule.name ≠ name) ∨
          ∃ rule, r.get name = .ok rule ∧ rule.apply goal argument style = .error (.unknownRule name)) := by
  intro offered r
  refine ⟨?_, names_registerAll start history, r.distinct, fun name => ⟨?_, ?_, ?_, ?_⟩⟩
  · intro before rule after _ held next
    have hnext : next = held.attempt rule := by
      simp only [next, held, registerAll, List.foldl_append, List.foldl_cons, List.foldl_nil]
    have hheld : rule.name ∈ held.names ↔ ∃ taken ∈ held.rules, taken.name = rule.name := by simp [names]
    refine ⟨?_, mem_names_registerAll start before rule.name, ?_, ?_⟩
    · rw [register_eq_error_iff, and_iff_left rfl, hheld]
    · intro e he
      exact ⟨(register_eq_error_iff.mp he).2, hnext.trans (attempt_of_error he)⟩
    · intro r' hr'
      exact ⟨hnext.trans (attempt_of_ok hr'), (register_eq_ok_iff.mp hr').2, rules_of_register hr'⟩
  · intro before rule after hsplit hname hearlier
    have hfirst : offered.find? (·.name = name) = some rule := by
      rw [List.find?_eq_some_iff_append]
      exact ⟨by simpa using hname, before, after, hsplit, by simpa using hearlier⟩
    have hget := (get_registerAll_eq_ok_iff start history).mpr hfirst
    exact ⟨hget, instructions_of_get hget, apply_of_get hget⟩
  · exact get_registerAll_eq_unknownRule_iff start history
  · rw [instructions, get_bind_eq_unknownRule_iff, get_registerAll_eq_unknownRule_iff]
  · intro goal argument style
    rw [Registry.apply, get_bind_eq_unknownRule_iff, get_registerAll_eq_unknownRule_iff]

/-- A rule of a new name is registered, then one of a built-in name, and then another one of the new name.
Only the first of them gets into the registry, and it is used under its name; the second one is refused. -/
theorem registrations_keep_first_repeated :
    let named (name : String) (selection : Selection) : Rule :=
      { Rule.doubleNegationElimination with name, instructions := .ok selection }
    let history := [named "weakening" .twoSubDiagrams, named "equivalence_introduction" .twoSubDiagrams,
      named "weakening" .spiderInSubDiagram]
    let r := builtin.registerAll history
    (builtin.registerAll [named "weakening" .twoSubDiagrams]).register
        (named "equivalence_introduction" .twoSubDiagrams) =
          .error (.duplicateRule "equivalence_introduction") ∧
      r.names = ["double_negation_elimination", "equivalence_introduction", "weakening"] ∧
      r.instructions "weakening" = .ok .twoSubDiagrams ∧
      r.instructions "equivalence_introduction" = .error (.interactionUnsupported "equivalence_introduction") ∧
      r.get "contraction" = .error (.unknownRule "contraction") := by
  intro named history r
  obtain ⟨hcalls, -, -, hnames⟩ := registrations_keep_first builtin history
  obtain ⟨hrefused, -⟩ := hcalls [named "weakening" .twoSubDiagrams]
    (named "equivalence_introduction" .twoSubDiagrams) [named "weakening" .spiderInSubDiagram] rfl
  obtain ⟨hweakening, -⟩ := hnames "weakening"
  obtain ⟨hequivalence, -⟩ := hnames "equivalence_introduction"
  obtain ⟨-, hunknown, -⟩ := hnames "contraction"
  have hfirst := hweakening [.doubleNegationElimination, .equivalenceIntroduction]
    (named "weakening" .twoSubDiagrams)
    [named "equivalence_introduction" .twoSubDiagrams, named "weakening" .spiderInSubDiagram] rfl rfl
    (by simp [Rule.doubleNegationElimination, Rule.equivalenceIntroduction])
  have hbuiltin := hequivalence [.doubleNegationElimination] .equivalenceIntroduction history rfl rfl
    (by simp [Rule.doubleNegationElimination])
  refine ⟨hrefused.mpr (List.mem_cons_of_mem _ List.mem_cons_self), rfl, hfirst.2.1, hbuiltin.2.1,
    hunknown.mpr ?_⟩
  simp [builtin, history, named, Rule.doubleNegationElimination, Rule.equivalenceIntroduction]

end SpiderDiagrams.Registry
