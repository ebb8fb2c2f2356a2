import SpiderDiagrams.CommandLine.Request
import SpiderDiagrams.CommandLine.Terminal
import SpiderDiagrams.Interchange.Diagram
import SpiderDiagrams.Reasoning.Proof

/-!
# Running requests

A run prints either its whole result or nothing, and ends with an exit code: 0 for success, 1 for a rule
that failed, 2 for a bad command line or diagram, 3 for an input that could not be read.
-/
namespace SpiderDiagrams.CommandLine

inductive Failure where
  | usage (error : UsageError)
  | unreadable (input reason : String)
  | badDiagram (input : String) (error : ReadError)
  | failedStep (position : Nat) (error : RuleError)
  deriving DecidableEq, Repr

namespace Failure

def exitCode : Failure → Nat
  | usage .helpWanted => 0
  | failedStep .. => 1
  | usage _ | badDiagram .. => 2
  | unreadable .. => 3

/-- The message on a refused step, as it is written to a terminal. -/
def refusedStepMessage (text : String) (e : StepError) : String :=
  Terminal.styled "1;31" "error:" ++ " invalid value '" ++ Terminal.styled "33" text ++ "' for '" ++
    Terminal.styled "1" "--step <STEPS>" ++ "': " ++ e.message ++ "\n\nFor more information, try '" ++
    Terminal.styled "1" "--help" ++ "'."

def message : Failure → String
  | usage .malformed => "error: invalid command line"
  | usage .helpWanted => "Usage: spider rules | zones CONTOUR... | inspect -i INPUT | apply -i INPUT -s RULE@INDEX..."
  | usage (.refusedStep text e) => Terminal.plain (refusedStepMessage text e)
  | unreadable input reason => s!"Error: failed to read '{input}': {reason}"
  | badDiagram input e => s!"Error: invalid diagram in '{input}': {e.message}"
  | failedStep position e => s!"Error: step {position} failed: {e.message}"

end Failure

def unlines (lines : List String) : String := String.join (lines.map (· ++ "\n"))

def ruleLine (locale : String) (rule : Rule) : String :=
  let prompt :=
    match rule.instructions with
    | .ok selection => selection.prompt
    | .error e => s!"({e.message})"
  "\t".intercalate [rule.name, rule.displayName locale, rule.argumentKind.text, prompt]

def nodeDetail : Diagram → String
  | .null => ""
  | .primary p => s!" spiders={p.spiders.size} shaded={p.shaded.size}"
  | .negation _ => " " ++ Operator.name .negation
  | .binary c .. => " " ++ Operator.name (.binary c)

def nodeLine (index : Nat) (d : Diagram) : String := s!"{index}\t{d.kindName}{nodeDetail d}"

/-- Applies the steps one after another to the latest goal; the first failure is told with its position. -/
def applySteps (style : Style) : List StepRequest → Proof → Except Failure Proof
  | [], p => .ok p
  | step :: steps, p =>
    match p.applyRule .builtin ⟨step.rule, .subDiagram step.index, style⟩ with
    | .ok p => applySteps style steps p
    | .error e => .error (.failedStep p.length e)

def load (input : String) (contents : Except String String) : Except Failure Diagram := do
  let text ← contents.mapError (.unreadable input)
  (Diagram.ofJsonText text).mapError (.badDiagram input)

/-- The lines that a request prints; the contents are those of its input. -/
def Request.run (locale : String) (contents : Except String String) :
    Request → Except Failure (List String)
  | .rules => .ok (Registry.builtin.rules.map (ruleLine locale))
  | .zones contours => .ok ((Region.allZones contours).toList.map Zone.text)
  | .inspect input => do
    let d ← load input contents
    return d.subdiagrams.map fun (index, d) => nodeLine index d
  | .apply input steps style allGoals => do
    let goal ← load input contents
    let p ← applySteps style steps (.ofGoal goal)
    return (if allGoals then p.goals else [p.currentGoal]).map Diagram.jsonText

def defaultLocale : String := "en"

/-- Runs a whole command line, given what can be read under each path. -/
def run (locale : String) (read : String → Except String String) (args : List String) :
    Except Failure (List String) := do
  let request ← (Request.ofArguments args).mapError .usage
  request.run locale (match request.input? with | some path => read path | none => .ok "")

/-- What a run prints; a run that fails prints nothing. -/
def output : Except Failure (List String) → String
  | .ok lines => unlines lines
  | .error _ => ""

def exitCode : Except Failure (List String) → Nat
  | .ok _ => 0
  | .error failure => failure.exitCode

end SpiderDiagrams.CommandLine
