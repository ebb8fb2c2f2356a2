import SpiderDiagrams.Rewrite

/-!
# Double negation elimination

A rewriter that looks for the sub-diagram with a given index and takes two negations off it. It does so
at most once: after that it ends every walk at the first visit.
-/
namespace SpiderDiagrams

structure DoubleNegation where
  target : Nat
  applied : Bool
  deriving DecidableEq, Repr

namespace DoubleNegation

def aimedAt (target : Nat) : DoubleNegation := ⟨target, false⟩

def compoundText (op : Operator) : String := s!"{op.name} over {op.arity.operandCount} operand(s)"

/-- What stands where a double negation was expected. -/
def found : Diagram → String
  | .null => "a null diagram"
  | .primary p => s!"a primary diagram with {p.spiders.size} spider(s)"
  | .negation _ => compoundText .negation
  | .binary c .. => compoundText (.binary c)

/-- The target is checked against the whole tree at the root, before anything else is looked at. -/
def eliminate : Rewriter DoubleNegation := fun ctx node s =>
  if s.applied then (.ok .halt, s)
  else if ctx.index = 0 ∧ ctx.size ≤ s.target then (.error (.indexOutOfRange s.target ctx.size), s)
  else if ctx.index = s.target then
    match node.doublyNegated? with
    | some d => (.ok (.replace d), { s with applied := true })
    | none =>
      (.error (.inapplicableShape s.target s!"expected a double negation, found {found node}"), s)
  else if node.operator?.isNone || ctx.contains s.target then (.ok .descend, s)
  else (.ok .skip, s)

end DoubleNegation

end SpiderDiagrams
