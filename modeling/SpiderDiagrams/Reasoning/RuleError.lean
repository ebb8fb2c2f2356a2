import SpiderDiagrams.DiagramError
import SpiderDiagrams.Reasoning.Argument

/-!
# Errors of reasoning

A failed rule names itself in its error. Structural errors of diagrams pass through unchanged.
-/
namespace SpiderDiagrams

inductive RuleError where
  | inapplicableShape (rule : String) (index : Nat) (reason : String)
  | indexOutOfRange (rule : String) (index count : Nat)
  | interactionUnsupported (rule : String)
  | argumentMismatch (rule : String) (expected actual : ArgumentKind)
  | unknownRule (name : String)
  | duplicateRule (name : String)
  | nothingToUndo
  | diagram (error : DiagramError)
  deriving DecidableEq, Repr

namespace RuleError

def message : RuleError → String
  | inapplicableShape rule index reason =>
    s!"rule '{rule}' is not applicable to sub-diagram {index}: {reason}"
  | indexOutOfRange rule index count =>
    s!"rule '{rule}': sub-diagram {index} out of range (goal has {count} sub-diagrams)"
  | interactionUnsupported rule => s!"rule '{rule}' does not support interactive argument selection"
  | argumentMismatch rule expected actual =>
    s!"rule '{rule}' expects {expected.text}, got {actual.text}"
  | unknownRule name => s!"unknown inference rule '{name}'"
  | duplicateRule name => s!"inference rule '{name}' is already registered"
  | nothingToUndo => "the proof has no steps to undo"
  | diagram e => e.message

/-- An error about a sub-diagram becomes an error of the rule that addressed it. -/
def ofRewriting (rule : String) : DiagramError → RuleError
  | .inapplicableShape index reason => inapplicableShape rule index reason
  | .indexOutOfRange index count => indexOutOfRange rule index count
  | e => diagram e

end RuleError

end SpiderDiagrams
