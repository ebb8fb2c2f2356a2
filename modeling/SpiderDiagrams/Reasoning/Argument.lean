/-!
# Arguments of rules

A rule is applied to one sub-diagram, to two, or to a spider in a sub-diagram. Which of these a rule
asks for, and how a user is led to choose it, is told by an argument kind and a selection.
-/
namespace SpiderDiagrams

inductive ArgumentKind where
  | subDiagram
  | subDiagrams
  | spider
  deriving DecidableEq, Repr

namespace ArgumentKind

def text : ArgumentKind → String
  | subDiagram => "a sub-diagram index"
  | subDiagrams => "two sub-diagram indices"
  | spider => "a spider and a sub-diagram index"

end ArgumentKind

inductive Argument where
  | subDiagram (index : Nat)
  | subDiagrams (first second : Nat)
  | spider (name : String) (index : Nat)
  deriving DecidableEq, Repr

namespace Argument

def kind : Argument → ArgumentKind
  | subDiagram _ => .subDiagram
  | subDiagrams .. => .subDiagrams
  | spider .. => .spider

def indices : Argument → List Nat
  | subDiagram index => [index]
  | subDiagrams first second => [first, second]
  | spider _ index => [index]

end Argument

inductive Selection where
  | singleSubDiagram
  | twoSubDiagrams
  | spiderInSubDiagram
  deriving DecidableEq, Repr

namespace Selection

def argumentKind : Selection → ArgumentKind
  | singleSubDiagram => .subDiagram
  | twoSubDiagrams => .subDiagrams
  | spiderInSubDiagram => .spider

def prompt : Selection → String
  | singleSubDiagram => "Select a sub-diagram."
  | twoSubDiagrams => "Select two sub-diagrams."
  | spiderInSubDiagram => "Select a spider."

end Selection

end SpiderDiagrams
