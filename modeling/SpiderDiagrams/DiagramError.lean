import SpiderDiagrams.Operator

/-!
# Errors of building and addressing diagrams

Three errors are structural: they tell that parts do not make a zone or a diagram. The other two
concern a sub-diagram that is addressed by its index.
-/
namespace SpiderDiagrams

inductive DiagramError where
  | overlappingContours (contour : String)
  | arityMismatch (operator : Operator) (expected actual : Nat)
  | unknownHabitatSpider (spider : String)
  | inapplicableShape (index : Nat) (reason : String)
  | indexOutOfRange (index count : Nat)
  deriving DecidableEq, Repr

namespace DiagramError

def isStructural : DiagramError → Bool
  | overlappingContours _ | arityMismatch .. | unknownHabitatSpider _ => true
  | inapplicableShape .. | indexOutOfRange .. => false

def message : DiagramError → String
  | overlappingContours contour => s!"contour '{contour}' is both inside and outside the same zone"
  | arityMismatch op expected actual =>
    s!"operator {op.name} expects {expected} operand(s), got {actual}"
  | unknownHabitatSpider spider => s!"habitat given for undeclared spider '{spider}'"
  | inapplicableShape index reason => s!"sub-diagram {index} has the wrong shape: {reason}"
  | indexOutOfRange index count =>
    s!"sub-diagram index {index} out of range (tree has {count} sub-diagrams)"

end DiagramError

end SpiderDiagrams
