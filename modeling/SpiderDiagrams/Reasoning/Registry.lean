import SpiderDiagrams.Reasoning.Rule

/-!
# Rule registries

A registry holds rules in the order in which they were registered, no two of one name.
-/
namespace SpiderDiagrams

structure Registry where
  rules : List Rule
  distinct : (rules.map Rule.name).Nodup

namespace Registry

def empty : Registry := ⟨[], by simp⟩

def builtin : Registry :=
  ⟨[.doubleNegationElimination, .equivalenceIntroduction], by decide⟩

def names (r : Registry) : List String := r.rules.map Rule.name

def contains (r : Registry) (name : String) : Bool := name ∈ r.names

/-- A name that is taken is refused. -/
def register (r : Registry) (rule : Rule) : Except RuleError Registry :=
  if h : r.contains rule.name then .error (.duplicateRule rule.name)
  else
    .ok ⟨r.rules ++ [rule], by
      simpa [List.nodup_append, r.distinct, contains, names] using h⟩

def get (r : Registry) (name : String) : Except RuleError Rule :=
  match r.rules.find? (·.name = name) with
  | some rule => .ok rule
  | none => .error (.unknownRule name)

def instructions (r : Registry) (name : String) : Except RuleError Selection := do
  (← r.get name).instructions

def apply (r : Registry) (goal : Diagram) (name : String) (argument : Argument) (style : Style) :
    Except RuleError Diagram := do
  (← r.get name).apply goal argument style

end Registry

end SpiderDiagrams
