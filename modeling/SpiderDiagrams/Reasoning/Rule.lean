import SpiderDiagrams.Reasoning.RuleError
import SpiderDiagrams.Rewrite.DoubleNegation

/-!
# Inference rules

A rule turns a goal and an argument into a new goal. The two built-in rules are sentential: they act on
one sub-diagram, which has to exist, by a walk over the goal.
-/
namespace SpiderDiagrams

/-- The direction in which a rule is meant to be read. -/
inductive Style where
  | forward
  | backward
  deriving DecidableEq, Repr

structure Rule where
  name : String
  /-- The name that users see, in the language of a locale. -/
  displayName : String → String
  /-- A sentence on what the rule does, in the language of a locale. -/
  description : String → String
  argumentKind : ArgumentKind
  instructions : Except RuleError Selection
  apply : Diagram → Argument → Style → Except RuleError Diagram

namespace Rule

/-- The argument's kind is checked first, then its index, then the goal is rewritten. -/
def sentential (rule : String) (rewriteAt : Nat → Diagram → Except DiagramError Diagram)
    (goal : Diagram) (argument : Argument) : Except RuleError Diagram :=
  match argument with
  | .subDiagram index =>
    if index < goal.count then (rewriteAt index goal).mapError (RuleError.ofRewriting rule)
    else .error (.indexOutOfRange rule index goal.count)
  | other => .error (.argumentMismatch rule .subDiagram other.kind)

def doubleNegationElimination : Rule where
  name := "double_negation_elimination"
  displayName _ := "Double Negation Elimination"
  description _ := "Replaces a doubly negated sub-diagram with the sub-diagram itself."
  argumentKind := .subDiagram
  instructions := .ok .singleSubDiagram
  apply goal argument _ :=
    sentential "double_negation_elimination"
      (fun index d => (d.rewrite DoubleNegation.eliminate (.aimedAt index)).1) goal argument

def equivalenceIntroduction : Rule where
  name := "equivalence_introduction"
  displayName _ := "Equivalence Introduction"
  description _ := "Introduces an equivalence at the selected sub-diagram."
  argumentKind := .subDiagram
  instructions := .error (.interactionUnsupported "equivalence_introduction")
  apply goal argument _ :=
    sentential "equivalence_introduction" (fun _ d => (d.rewrite Rewriter.identity ()).1) goal argument

end Rule

end SpiderDiagrams
