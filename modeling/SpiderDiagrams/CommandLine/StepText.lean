import SpiderDiagrams.Decimal

/-!
# Steps on the command line

A step is written as the name of a rule, an at sign and an index. The last at sign counts, so rule names
may contain others. The index may have a plus sign and leading zeros.
-/
namespace SpiderDiagrams.CommandLine

structure StepRequest where
  rule : String
  index : Nat
  deriving DecidableEq, Repr

inductive IndexError where
  | empty
  | invalidDigit
  | tooLarge
  deriving DecidableEq, Repr

namespace IndexError

def message : IndexError → String
  | empty => "cannot parse integer from empty string"
  | invalidDigit => "invalid digit found in string"
  | tooLarge => "number too large to fit in target type"

end IndexError

inductive StepError where
  | noIndex (text : String)
  | badIndex (text : String) (error : IndexError)
  deriving DecidableEq, Repr

namespace StepError

def message : StepError → String
  | noIndex text => s!"invalid step '{text}', expected RULE@INDEX"
  | badIndex text e => s!"invalid sub-diagram index in '{text}': {e.message}"

end StepError

/-- Appends digits to a number until one is no digit or the number is no index any more. -/
def appendDigits : Nat → List Char → Except IndexError Nat
  | n, [] => .ok n
  | n, c :: cs =>
    if !c.isDigit then .error .invalidDigit
    else if Decimal.append n c < Decimal.naturalBound then appendDigits (Decimal.append n c) cs
    else .error .tooLarge

def readIndexText : List Char → Except IndexError Nat
  | [] => .error .empty
  | ['+'] => .error .invalidDigit
  | '+' :: digits => appendDigits 0 digits
  | digits => appendDigits 0 digits

/-- The parts of a text before and after its last at sign. -/
def splitAtSign? : List Char → Option (List Char × List Char)
  | [] => none
  | c :: cs =>
    match splitAtSign? cs with
    | some (rule, index) => some (c :: rule, index)
    | none => if c = '@' then some ([], cs) else none

def StepRequest.ofText (text : String) : Except StepError StepRequest :=
  match splitAtSign? text.toList with
  | none => .error (.noIndex text)
  | some (rule, index) =>
    match readIndexText index with
    | .ok index => .ok ⟨.ofList rule, index⟩
    | .error e => .error (.badIndex text e)

end SpiderDiagrams.CommandLine
