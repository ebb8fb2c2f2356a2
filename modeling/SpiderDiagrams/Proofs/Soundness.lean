import SpiderDiagrams.Proofs.Elimination
import SpiderDiagrams.Reasoning.Proof

/-!
# Soundness of proofs

Diagrams are read classically: the null diagram is true, operators are their connectives, and a valuation
says which primary diagrams are true. The built-in rules keep the truth value of a goal. So all goals
of a proof have one truth value, whatever steps were applied, refused and undone.
-/
namespace SpiderDiagrams

def Connective.holds : Connective → Bool → Bool → Bool
  | conjunction, a, b => a && b
  | disjunction, a, b => a || b
  | implication, a, b => !a || b
  | equivalence, a, b => a == b

namespace Diagram

/-- The truth value under a valuation of the primary diagrams. -/
def holds (v : Primary → Bool) : Diagram → Bool
  | null => true
  | primary content => v content
  | negation d => !d.holds v
  | binary c l r => c.holds (l.holds v) (r.holds v)

variable {d e tree : Diagram} {R : Diagram → Diagram → Prop} {v : Primary → Bool}

/-- A change inside keeps the truth value of the whole where it keeps that of the changed part. -/
theorem Inside.holds_eq (h : Inside R d e) (hR : ∀ a b, R a b → a.holds v = b.holds v) :
    d.holds v = e.holds v := by
  induction h with
  | here h => exact hR _ _ h
  | negation _ ih => rw [holds, holds, ih]
  | left c r _ ih => rw [holds, holds, ih]
  | right c l _ ih => rw [holds, holds, ih]

theorem Eliminates.holds_eq (h : d.Eliminates e) : d.holds v = e.holds v := by
  refine Inside.holds_eq h ?_
  rintro a b rfl
  rw [holds, holds, Bool.not_not]

theorem rewrite_identity (tree : Diagram) : tree.rewrite Rewriter.identity () = (.ok tree, ()) := by
  have hkeeps : ∀ q ∈ (tree.scan Rewriter.identity tree.count 0 ()).inquiries, q.Keeps := by
    intro q hq
    obtain ⟨s, s', hs, -⟩ := exists_inquire?_of_mem_scan hq
    obtain ⟨-, -, hs⟩ := fitsIn_of_inquire? hs
    exact ⟨by rw [Inquiry.error?, hs, Rewriter.identity],
      by rw [Inquiry.replacement?, hs, Rewriter.identity]⟩
  rw [rewrite_eq, rebuilt_of_kept hkeeps]

end Diagram

namespace Rule

variable {goal out : Diagram} {argument : Argument} {style : Style}

theorem equivalenceIntroduction_eq_ok_iff :
    equivalenceIntroduction.apply goal argument style = .ok out ↔
      ∃ i, argument = .subDiagram i ∧ i < goal.count ∧ out = goal := by
  simp only [equivalenceIntroduction, sentential_eq_ok_iff, Diagram.rewrite_identity]
  constructor
  · intro h
    obtain ⟨i, rfl, hi, hout⟩ := h
    cases hout
    exact ⟨i, rfl, hi, rfl⟩
  · intro h
    obtain ⟨i, rfl, hi, rfl⟩ := h
    exact ⟨i, rfl, hi, rfl⟩

/-- Whatever the rule makes of a goal has the truth value of that goal. -/
def Sound (rule : Rule) : Prop :=
  ∀ goal argument style out, rule.apply goal argument style = .ok out →
    ∀ v, out.holds v = goal.holds v

theorem doubleNegationElimination_sound : doubleNegationElimination.Sound := by
  intro goal argument style out h v
  exact (eliminates_of_apply h).holds_eq.symm

theorem equivalenceIntroduction_sound : equivalenceIntroduction.Sound := by
  intro goal argument style out h v
  obtain ⟨i, -, -, rfl⟩ := equivalenceIntroduction_eq_ok_iff.mp h
  rfl

end Rule

namespace Registry

variable {registry : Registry} {goal out : Diagram} {name : String} {argument : Argument}
  {style : Style}

theorem builtin_sound : ∀ rule ∈ builtin.rules, rule.Sound := by
  intro rule h
  rcases List.mem_cons.mp h with rfl | h
  · exact Rule.doubleNegationElimination_sound
  · cases List.mem_singleton.mp h
    exact Rule.equivalenceIntroduction_sound

theorem exists_rule_of_apply (h : registry.apply goal name argument style = .ok out) :
    ∃ rule ∈ registry.rules, rule.name = name ∧ rule.apply goal argument style = .ok out := by
  unfold apply get at h
  cases hr : registry.rules.find? (·.name = name) with
  | none =>
    rw [hr] at h
    cases h
  | some rule =>
    rw [hr] at h
    exact ⟨rule, List.mem_of_find?_eq_some hr, by simpa using List.find?_some hr, h⟩

end Registry

inductive Call where
  | apply (application : Application)
  | undo
  deriving DecidableEq, Repr

namespace Proof

/-- The proof after a call. A call that fails leaves the proof as it was. -/
def perform (registry : Registry) (p : Proof) : Call → Proof
  | .apply application =>
    match p.applyRule registry application with
    | .ok p => p
    | .error _ => p
  | .undo =>
    match p.undo with
    | .ok (_, p) => p
    | .error _ => p

def run (registry : Registry) (p : Proof) (calls : List Call) : Proof :=
  calls.foldl (perform registry) p

/-- All goals have the same truth value as the given one. -/
def Agrees (goal : Diagram) (p : Proof) : Prop :=
  ∀ v, ∀ g ∈ p.goals, g.holds v = goal.holds v

variable {registry : Registry} {goal : Diagram} {p p' : Proof} {application : Application}
  {step : Step}

/-- A run keeps what every successful call keeps. -/
theorem run_induct {P : Proof → Prop} (start : P p)
    (applyRule : ∀ p p' application, P p → p.applyRule registry application = .ok p' → P p')
    (undo : ∀ p p' step, P p → p.undo = .ok (step, p') → P p') (calls : List Call) :
    P (p.run registry calls) := by
  induction calls generalizing p with
  | nil => exact start
  | cons call calls ih =>
    refine ih ?_
    cases call with
    | apply application =>
      simp only [perform]
      cases ha : p.applyRule registry application with
      | error e => exact start
      | ok p' => exact applyRule p p' application start ha
    | undo =>
      simp only [perform]
      cases hu : p.undo with
      | error e => exact start
      | ok out => exact undo p out.2 out.1 start hu

theorem currentGoal_mem_goals (p : Proof) : p.currentGoal ∈ p.goals :=
  List.mem_of_getLast? p.getLast?_goals

/-- Applying a rule keeps what the rule keeps of one goal for all goals. -/
theorem forall_goals_of_applyRule {Q : Diagram → Prop} (h : ∀ g ∈ p.goals, Q g)
    (ha : p.applyRule registry application = .ok p')
    (hQ : ∀ g out, Q g → registry.apply g application.rule application.argument application.style =
      .ok out → Q out) : ∀ g ∈ p'.goals, Q g := by
  obtain ⟨out, hout, rfl⟩ := applyRule_eq_ok_iff.mp ha
  intro g hg
  rw [goals_concat, List.mem_append, List.mem_singleton] at hg
  rcases hg with hg | rfl
  · exact h g hg
  · exact hQ _ _ (h _ p.currentGoal_mem_goals) hout

theorem Agrees.applyRule (h : p.Agrees goal) (hr : ∀ rule ∈ registry.rules, rule.Sound)
    (ha : p.applyRule registry application = .ok p') : p'.Agrees goal := by
  intro v
  refine forall_goals_of_applyRule (h v) ha fun g out hg hout => ?_
  obtain ⟨rule, hmem, -, hrule⟩ := Registry.exists_rule_of_apply hout
  rw [hr rule hmem _ _ _ _ hrule v]
  exact hg

theorem Agrees.undo (h : p.Agrees goal) (hu : p.undo = .ok (step, p')) : p'.Agrees goal := by
  rw [undo_eq_ok_iff.mp hu] at h
  intro v g hg
  refine h v g ?_
  rw [goals_concat]
  exact List.mem_append_left _ hg

theorem Agrees.run (h : p.Agrees goal) (hr : ∀ rule ∈ registry.rules, rule.Sound)
    (calls : List Call) : (p.run registry calls).Agrees goal :=
  run_induct h (fun _ _ _ hp ha => hp.applyRule hr ha) (fun _ _ _ hp hu => hp.undo hu) calls

/-- Proofs with the built-in rules are sound: all goals have the truth value of the initial one, and what
a finished proof began with is true. -/
theorem run_builtin_sound (goal : Diagram) (calls : List Call) :
    let p := (ofGoal goal).run .builtin calls
    (∀ v, ∀ g ∈ p.goals, g.holds v = goal.holds v) ∧
      (p.isFinished = true → ∀ v, goal.holds v = true) := by
  intro p
  have hstart : (ofGoal goal).Agrees goal := by
    intro v g hg
    cases List.mem_singleton.mp hg
    rfl
  have hagrees : p.Agrees goal := hstart.run Registry.builtin_sound calls
  refine ⟨hagrees, ?_⟩
  intro hfinished v
  have hnull : p.currentGoal = .null := by
    unfold isFinished Diagram.isNull at hfinished
    split at hfinished
    · assumption
    · cases hfinished
  rw [← hagrees v _ p.currentGoal_mem_goals, hnull]
  rfl

/-- A run that has an undone step and a refused one, and ends at the null diagram. -/
theorem run_builtin_sound_finished :
    let goal := Diagram.negation (.negation (.negation (.negation .null)))
    let eliminate (i : Nat) : Call := .apply ⟨"double_negation_elimination", .subDiagram i, .forward⟩
    ((ofGoal goal).run .builtin
        [eliminate 2, .undo, eliminate 3, eliminate 1, eliminate 0]).isFinished = true ∧
      ∀ v, goal.holds v = true := by
  intro goal eliminate
  have hfinished : ((ofGoal goal).run .builtin
      [eliminate 2, .undo, eliminate 3, eliminate 1, eliminate 0]).isFinished = true := by
    decide +kernel
  exact ⟨hfinished, (run_builtin_sound goal _).2 hfinished⟩

end Proof

end SpiderDiagrams
