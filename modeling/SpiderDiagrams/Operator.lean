/-!
# Logical operators

Compound diagrams are built with negation, which takes one operand, or with one of four binary
connectives.
-/
namespace SpiderDiagrams

inductive Arity where
  | unary
  | binary
  deriving DecidableEq, Repr

namespace Arity

def operandCount : Arity → Nat
  | unary => 1
  | binary => 2

end Arity

inductive Connective where
  | conjunction
  | disjunction
  | implication
  | equivalence
  deriving DecidableEq, Repr

inductive Operator where
  | negation
  | binary (connective : Connective)
  deriving DecidableEq, Repr

namespace Operator

/-- All operators in the order in which they are listed and compared. -/
def all : List Operator :=
  [negation, binary .conjunction, binary .disjunction, binary .implication, binary .equivalence]

def rank : Operator → Nat
  | negation => 0
  | binary .conjunction => 1
  | binary .disjunction => 2
  | binary .implication => 3
  | binary .equivalence => 4

theorem getElem?_all_rank (op : Operator) : all[op.rank]? = some op := by
  rcases op with _ | c
  · rfl
  · cases c <;> rfl

def arity : Operator → Arity
  | negation => .unary
  | binary _ => .binary

/-- The name that users see. -/
def name : Operator → String
  | negation => "op ~"
  | binary .conjunction => "op &"
  | binary .disjunction => "op |"
  | binary .implication => "op -->"
  | binary .equivalence => "op <-->"

def ofName? (name : String) : Option Operator := all.find? (·.name = name)

theorem ofName?_name (op : Operator) : ofName? op.name = some op := by
  rcases op with _ | c
  · decide
  · cases c <;> decide

/-- Whether the operands may change places; a single operand always may. -/
def isCommutative (op : Operator) : Bool := op != binary .implication

end Operator

end SpiderDiagrams
