import SpiderDiagrams.Proofs.Failing
import SpiderDiagrams.Proofs.Renumbering
import SpiderDiagrams.Proofs.Soundness

/-!
# All outcomes of the built-in rules

A sentential rule rejects an argument that is not an index of the goal, and says whether its kind is wrong or
the index is out of range. Any other argument leads to a walk over the goal. The walk of an equivalence
introduction always gives the goal, and that of an elimination fails just where no double negation stands.
-/
namespace SpiderDiagrams.Rule

open Diagram

variable {rule : Rule} {goal out : Diagram} {argument : Argument} {style : Style} {e : RuleError}

/-- The argument is not an index of the goal, and the error tells what is wrong with it. -/
inductive Rejects (rule : Rule) (goal : Diagram) : Argument → RuleError → Prop
  | kind {argument : Argument} (h : ∀ i, argument ≠ .subDiagram i) :
      Rejects rule goal argument (.argumentMismatch rule.name .subDiagram argument.kind)
  | index {i : Nat} (h : goal.count ≤ i) :
      Rejects rule goal (.subDiagram i) (.indexOutOfRange rule.name i goal.count)

theorem rejects_subDiagram_iff {i : Nat} :
    rule.Rejects goal (.subDiagram i) e ↔ goal.count ≤ i ∧ e = .indexOutOfRange rule.name i goal.count := by
  constructor
  · intro h
    cases h with
    | kind h => exact absurd rfl (h i)
    | index h => exact ⟨h, rfl⟩
  · intro h
    obtain ⟨h, rfl⟩ := h
    exact .index h

/-- The rule acts on the sub-diagram with a given index, by a walk over the goal. -/
def IsSentential (rule : Rule) (rewriteAt : Nat → Diagram → Except DiagramError Diagram) : Prop :=
  ∀ goal argument style, rule.apply goal argument style = sentential rule.name rewriteAt goal argument

theorem isSentential_doubleNegationElimination : doubleNegationElimination.IsSentential
    fun i d => (d.rewrite DoubleNegation.eliminate (.aimedAt i)).1 :=
  fun _ _ _ => rfl

theorem isSentential_equivalenceIntroduction : equivalenceIntroduction.IsSentential
    fun _ d => (d.rewrite Rewriter.identity ()).1 :=
  fun _ _ _ => rfl

/-- A sentential rule fails where it rejects its argument or its walk fails. -/
theorem IsSentential.eq_error_iff {rewriteAt : Nat → Diagram → Except DiagramError Diagram}
    (h : rule.IsSentential rewriteAt) :
    rule.apply goal argument style = .error e ↔
      rule.Rejects goal argument e ∨
        ∃ i cause, argument = .subDiagram i ∧ i < goal.count ∧ rewriteAt i goal = .error cause ∧
          e = .ofRewriting rule.name cause := by
  have hother (h : ∀ i, argument ≠ .subDiagram i) :
      .error (.argumentMismatch rule.name .subDiagram argument.kind) = (.error e : Except RuleError Diagram) ↔
        rule.Rejects goal argument e ∨ ∃ i cause, argument = .subDiagram i ∧ i < goal.count ∧
          rewriteAt i goal = .error cause ∧ e = .ofRewriting rule.name cause := by
    constructor
    · intro he
      cases he
      exact .inl (.kind h)
    · intro he
      rcases he with he | ⟨i, _, hi, -⟩
      · cases he with
        | kind => rfl
        | index => exact absurd rfl (h _)
      · exact absurd hi (h i)
  rw [h]
  cases argument with
  | subDiagram i =>
    rw [sentential, rejects_subDiagram_iff]
    by_cases hi : i < goal.count
    · simp [hi, Nat.not_le_of_lt hi, mapError_eq_error_iff]
    · simp [hi, Nat.le_of_not_lt hi, eq_comm]
  | subDiagrams | spider => exact hother (by simp)

/-- The walk to a target in the goal fails just where something else than a double negation stands there. -/
theorem rewrite_eliminate_eq_error_iff {i : Nat} {cause : DiagramError} (hi : i < goal.count) :
    (goal.rewrite DoubleNegation.eliminate (.aimedAt i)).1 = .error cause ↔
      ∃ d, goal.subdiagram? i = some d ∧ (∀ inner, d ≠ negation (negation inner)) ∧
        cause = .inapplicableShape i s!"expected a double negation, found {DoubleNegation.found d}" := by
  obtain ⟨d, hd⟩ := exists_stands hi
  rw [hd.subdiagram?]
  cases hr : d.doublyNegated? with
  | some inner =>
    have hd' := doublyNegated?_eq_some_iff.mp hr
    rw [DoubleNegation.rewrite_eliminate_of_some hd hr]
    simp [hd']
  | none =>
    have hne : ∀ inner, d ≠ negation (negation inner) := by
      rintro inner rfl
      cases hr
    rw [DoubleNegation.rewrite_eliminate_of_none hd hr]
    simp [hne, eq_comm]

theorem doubleNegationElimination_eq_error_iff :
    doubleNegationElimination.apply goal argument style = .error e ↔
      doubleNegationElimination.Rejects goal argument e ∨
        ∃ i d, argument = .subDiagram i ∧ goal.subdiagram? i = some d ∧
          (∀ inner, d ≠ negation (negation inner)) ∧
          e = .inapplicableShape doubleNegationElimination.name i
            s!"expected a double negation, found {DoubleNegation.found d}" := by
  rw [isSentential_doubleNegationElimination.eq_error_iff]
  refine or_congr_right ⟨?_, ?_⟩
  · intro h
    obtain ⟨i, cause, rfl, hi, hwalk, rfl⟩ := h
    obtain ⟨d, hd, hne, rfl⟩ := (rewrite_eliminate_eq_error_iff hi).mp hwalk
    exact ⟨i, d, rfl, hd, hne, rfl⟩
  · intro h
    obtain ⟨i, d, rfl, hd, hne, rfl⟩ := h
    obtain ⟨p, hs⟩ := exists_stands_of_subdiagram? hd
    exact ⟨i, _, rfl, hs.lt_count, (rewrite_eliminate_eq_error_iff hs.lt_count).mpr ⟨d, hd, hne, rfl⟩, rfl⟩

theorem equivalenceIntroduction_eq_error_iff :
    equivalenceIntroduction.apply goal argument style = .error e ↔
      equivalenceIntroduction.Rejects goal argument e := by
  rw [isSentential_equivalenceIntroduction.eq_error_iff]
  refine or_iff_left ?_
  intro h
  obtain ⟨i, cause, -, -, hwalk, -⟩ := h
  rw [rewrite_identity] at hwalk
  cases hwalk

theorem exists_doubleNegationElimination_iff :
    (∃ out, doubleNegationElimination.apply goal argument style = .ok out) ↔
      ∃ i inner, argument = .subDiagram i ∧ goal.subdiagram? i = some (negation (negation inner)) := by
  constructor
  · intro h
    obtain ⟨out, h⟩ := h
    obtain ⟨i, p, inner, rfl, hs, -⟩ := doubleNegationElimination_eq_ok_iff.mp h
    exact ⟨i, inner, rfl, hs.subdiagram?⟩
  · intro h
    obtain ⟨i, inner, rfl, h⟩ := h
    exact exists_apply_iff_subdiagram?.mpr ⟨inner, h⟩

/-- Both built-in rules reject what is not an index of the goal. Otherwise an elimination succeeds just where a
double negation stands and replaces it, and fails with the shape of what stands there; an equivalence
introduction always succeeds and gives the goal. -/
theorem builtin_outcomes (goal : Diagram) (argument : Argument) (style : Style) :
    ((∀ e, doubleNegationElimination.apply goal argument style = .error e ↔
          doubleNegationElimination.Rejects goal argument e ∨
            ∃ i d, argument = .subDiagram i ∧ goal.subdiagram? i = some d ∧
              (∀ inner, d ≠ negation (negation inner)) ∧
              e = .inapplicableShape doubleNegationElimination.name i
                s!"expected a double negation, found {DoubleNegation.found d}") ∧
        ((∃ out, doubleNegationElimination.apply goal argument style = .ok out) ↔
          ∃ i inner, argument = .subDiagram i ∧ goal.subdiagram? i = some (negation (negation inner))) ∧
        ∀ out, doubleNegationElimination.apply goal argument style = .ok out ↔
          ∃ i inner, argument = .subDiagram i ∧ ReplacedAt (negation (negation inner)) inner i goal out) ∧
      (∀ e, equivalenceIntroduction.apply goal argument style = .error e ↔
          equivalenceIntroduction.Rejects goal argument e) ∧
        ∀ out, equivalenceIntroduction.apply goal argument style = .ok out ↔
          ∃ i, argument = .subDiagram i ∧ i < goal.count ∧ out = goal := by
  refine ⟨⟨fun e => doubleNegationElimination_eq_error_iff, exists_doubleNegationElimination_iff, ?_⟩,
    fun e => equivalenceIntroduction_eq_error_iff, fun out => equivalenceIntroduction_eq_ok_iff⟩
  intro out
  constructor
  · intro h
    obtain ⟨i, p, inner, rfl, hs, rfl⟩ := doubleNegationElimination_eq_ok_iff.mp h
    exact ⟨i, inner, rfl, hs.replacedAt_substitute⟩
  · intro h
    obtain ⟨i, inner, rfl, h⟩ := h
    exact doubleNegationElimination_subDiagram_eq_ok_iff.mpr ⟨inner, h⟩

end SpiderDiagrams.Rule
