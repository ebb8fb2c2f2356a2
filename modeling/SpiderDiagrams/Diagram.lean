import SpiderDiagrams.Region
import SpiderDiagrams.SortedMap

/-!
# Spider diagrams

A diagram is the null diagram, a primary diagram, or a compound of diagrams under a logical
operator. Primary diagrams declare spiders, give some of them a habitat and shade zones. The
constructors `Primary.ofParts` and `Diagram.compound` check what the types demand: habitats belong to
declared spiders, and a compound has as many operands as its operator takes.
-/
namespace SpiderDiagrams

structure Primary where
  spiders : SortedSet String
  habitats : SortedMap String Region
  shaded : Region
  declared : ∀ s ∈ habitats.keys, s ∈ spiders
  deriving DecidableEq

namespace Primary

def blank : Primary := ⟨∅, ∅, ∅, by simp [SortedMap.mem_keys, EmptyCollection.emptyCollection, SortedMap.empty]⟩

/-- Fails with the first habitat whose spider is not declared. -/
def ofParts (spiders : SortedSet String) (habitats : SortedMap String Region) (shaded : Region) :
    Except DiagramError Primary :=
  match h : habitats.keys.toList.find? (· ∉ spiders) with
  | some s => .error (.unknownHabitatSpider s)
  | none => .ok ⟨spiders, habitats, shaded, by simpa using h⟩

def habitat? (p : Primary) (spider : String) : Option Region := p.habitats.find? spider

def isShaded (p : Primary) (z : Zone) : Bool := z ∈ p.shaded

def contours (p : Primary) : SortedSet String :=
  .ofList ((p.shaded :: p.habitats.values).flatMap fun r => (Region.contours r).toList)

end Primary

inductive Diagram where
  | null
  | primary (content : Primary)
  | negation (operand : Diagram)
  | binary (connective : Connective) (left right : Diagram)
  deriving DecidableEq

namespace Diagram

/-- Fails unless there are as many operands as the operator takes. -/
def compound (op : Operator) (operands : List Diagram) : Except DiagramError Diagram :=
  match op, operands with
  | .negation, [d] => .ok (negation d)
  | .binary c, [l, r] => .ok (binary c l r)
  | op, operands => .error (.arityMismatch op op.arity.operandCount operands.length)

def operator? : Diagram → Option Operator
  | negation _ => some .negation
  | binary c .. => some (.binary c)
  | _ => none

def operands : Diagram → List Diagram
  | negation d => [d]
  | binary _ l r => [l, r]
  | _ => []

theorem length_operands {d : Diagram} {op : Operator} (h : d.operator? = some op) :
    d.operands.length = op.arity.operandCount := by
  cases d <;> simp_all [operator?, operands, Operator.arity, Arity.operandCount] <;> subst h <;> rfl

theorem compound_operands {d : Diagram} {op : Operator} (h : d.operator? = some op) :
    compound op d.operands = .ok d := by
  cases d <;> simp_all [operator?, operands] <;> subst h <;> rfl

def kindName : Diagram → String
  | null => "null diagram"
  | primary _ => "primary diagram"
  | negation _ | binary .. => "compound diagram"

def isNull : Diagram → Bool
  | null => true
  | _ => false

def doublyNegated? : Diagram → Option Diagram
  | negation (negation d) => some d
  | _ => none

end Diagram

end SpiderDiagrams
