import SpiderDiagrams.CommandLine.StepText
import SpiderDiagrams.Reasoning.Rule

/-!
# Requests on the command line

The first argument names what to do; the others are options and, for zones, contours. An option's value
follows it as the next argument, or stands in the same argument. An option of one letter may have an
equals sign before such a value, one with a long name has to. Two dashes alone end the options. A value in
an argument of its own is taken in only when the next option or the end is reached, so that an argument
that is not understood is reported before it. Every command also knows an option that asks for help.
-/
namespace SpiderDiagrams.CommandLine

inductive Request where
  | rules
  | zones (contours : List String)
  | inspect (input : String)
  | apply (input : String) (steps : List StepRequest) (style : Style) (allGoals : Bool)
  deriving DecidableEq, Repr

inductive UsageError where
  | malformed
  | helpWanted
  | refusedStep (text : String) (error : StepError)
  deriving DecidableEq, Repr

inductive ValueOption where
  | input
  | step
  deriving DecidableEq, Repr

inductive Flag where
  | backward
  | allGoals
  deriving DecidableEq, Repr

/-- What a command accepts after its name. -/
structure Usage where
  valueOptions : List ValueOption
  flags : List Flag
  takesContours : Bool

namespace ValueOption

def letter : ValueOption → Char
  | input => 'i'
  | step => 's'

def longName : ValueOption → String
  | input => "input"
  | step => "step"

end ValueOption

namespace Flag

def longName : Flag → String
  | backward => "backward"
  | allGoals => "all-goals"

end Flag

/-- What has been taken in so far, and the option whose value is not taken in yet. -/
structure Intake where
  contours : List String
  input : Option String
  steps : List StepRequest
  flags : List Flag
  pending : Option (ValueOption × Option String)

namespace Intake

def nothing : Intake := ⟨[], none, [], [], none⟩

/-- An input is named once and not by an empty text; steps add up. -/
def takeValue (option : ValueOption) (text : String) (s : Intake) : Except UsageError Intake :=
  match option with
  | .input =>
    if s.input.isSome ∨ text = "" then .error .malformed else .ok { s with input := some text }
  | .step =>
    match StepRequest.ofText text with
    | .ok step => .ok { s with steps := s.steps ++ [step] }
    | .error e => .error (.refusedStep text e)

def takeFlag (flag : Flag) (s : Intake) : Except UsageError Intake :=
  if flag ∈ s.flags then .error .malformed else .ok { s with flags := s.flags ++ [flag] }

def settle (s : Intake) : Except UsageError Intake :=
  match s.pending with
  | none => .ok s
  | some (_, none) => .error .malformed
  | some (option, some text) => takeValue option text { s with pending := none }

/-- An argument that is no option is a pending option's value or else a contour. -/
def takePlain (usage : Usage) (text : String) (s : Intake) : Except UsageError Intake :=
  match s.pending with
  | some (option, none) => .ok { s with pending := some (option, some text) }
  | _ => if usage.takesContours then .ok { s with contours := s.contours ++ [text] } else .error .malformed

def takeHelp (s : Intake) : Except UsageError Intake := do
  let _ ← s.settle
  .error .helpWanted

def takeOption (option : ValueOption) (attached : Option String) (s : Intake) : Except UsageError Intake := do
  let s ← s.settle
  match attached with
  | some text => s.takeValue option text
  | none => return { s with pending := some (option, none) }

/-- The part before the first equals sign, and the part after it where there is one. -/
def splitEquals (text : List Char) : List Char × Option (List Char) :=
  match text.dropWhile (· ≠ '=') with
  | [] => (text, none)
  | _ :: value => (text.takeWhile (· ≠ '='), some value)

def takeLong (usage : Usage) (text : List Char) (s : Intake) : Except UsageError Intake :=
  let (name, value) := splitEquals text
  match usage.valueOptions.find? (·.longName.toList = name) with
  | some option => s.takeOption option (value.map .ofList)
  | none =>
    match usage.flags.find? (·.longName.toList = name), value with
    | some flag, none => do (← s.settle).takeFlag flag
    | none, none => if name = "help".toList then s.takeHelp else .error .malformed
    | _, some _ => .error .malformed

def takeShort (usage : Usage) (letter : Char) (text : List Char) (s : Intake) : Except UsageError Intake :=
  match usage.valueOptions.find? (·.letter = letter) with
  | some option =>
    match text with
    | [] => s.takeOption option none
    | '=' :: value => s.takeOption option (some (.ofList value))
    | value => s.takeOption option (some (.ofList value))
  | none => if letter = 'h' then s.takeHelp else .error .malformed

def takeAll (usage : Usage) : List String → Intake → Except UsageError Intake
  | [], s => s.settle
  | arg :: args, s =>
    match arg.toList with
    | ['-', '-'] =>
      if usage.takesContours then .ok { s with contours := s.contours ++ args }
      else if args.isEmpty then s.settle
      else .error .malformed
    | '-' :: '-' :: text => do takeAll usage args (← s.takeLong usage text)
    | '-' :: letter :: text => do takeAll usage args (← s.takeShort usage letter text)
    | _ => do takeAll usage args (← s.takePlain usage arg)

end Intake

namespace Request

def ofArguments : List String → Except UsageError Request
  | "rules" :: args => do
    let _ ← Intake.nothing.takeAll ⟨[], [], false⟩ args
    return .rules
  | "zones" :: args => do
    let s ← Intake.nothing.takeAll ⟨[], [], true⟩ args
    return .zones s.contours
  | "inspect" :: args => do
    let s ← Intake.nothing.takeAll ⟨[.input], [], false⟩ args
    match s.input with
    | some input => return .inspect input
    | none => .error .malformed
  | "apply" :: args => do
    let s ← Intake.nothing.takeAll ⟨[.input, .step], [.backward, .allGoals], false⟩ args
    match s.input, s.steps with
    | some input, step :: steps =>
      let style := if Flag.backward ∈ s.flags then .backward else .forward
      return .apply input (step :: steps) style (Flag.allGoals ∈ s.flags)
    | _, _ => .error .malformed
  | "--help" :: _ | "-h" :: _ | ["help"] => .error .helpWanted
  | _ => .error .malformed

/-- The text from which a diagram is read, if the request needs one. -/
def input? : Request → Option String
  | inspect input | apply input .. => some input
  | _ => none

end Request

/-- A path with a single dash as its only component names the standard input. -/
def namesStandardInput (path : String) : Bool :=
  match path.splitOn "/" with
  | "-" :: others => others.all fun component => component = "" || component = "."
  | _ => false

end SpiderDiagrams.CommandLine
