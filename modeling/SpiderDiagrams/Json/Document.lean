import SpiderDiagrams.Decimal
import SpiderDiagrams.Json.Quoted

/-!
# JSON documents

A document is the value that a text starts with, as far as it is JSON, and the knowledge whether only
blanks follow it. Every text has a document; what stops being JSON shows as a broken value in it.
-/
namespace SpiderDiagrams.Json

def isBlank (c : Char) : Bool := c = ' ' || c = '\n' || c = '\t' || c = '\r'

def skipBlanks (text : List Char) : List Char := text.dropWhile isBlank

/-! ## Numbers -/

/-- The digits in front of a text, of which there has to be one at least. -/
def digits? (text : List Char) : Option (List Char × List Char) :=
  match text.takeWhile Char.isDigit with
  | [] => none
  | digits => some (digits, text.dropWhile Char.isDigit)

/-- The digits before a fraction: a zero leads only where it stands alone. -/
def wholeDigits? (text : List Char) : Option (List Char × List Char) :=
  match digits? text with
  | some ('0' :: _ :: _, _) => none
  | found => found

def fractionDigits? : List Char → Option (List Char × List Char)
  | '.' :: text => digits? text
  | text => some ([], text)

def exponentDigits? : List Char → Option (Int × List Char)
  | '+' :: text => (digits? text).map fun (digits, rest) => (Decimal.value digits, rest)
  | '-' :: text => (digits? text).map fun (digits, rest) => (-Decimal.value digits, rest)
  | text => (digits? text).map fun (digits, rest) => (Decimal.value digits, rest)

def exponent? : List Char → Option (Option Int × List Char)
  | 'e' :: text | 'E' :: text => (exponentDigits? text).map fun (e, rest) => (some e, rest)
  | text => some (none, text)

/--
The number of some digits. Whole digits that do not fit count in the exponent, later digits that do not
fit are dropped.
-/
def numeralOf (whole fraction : List Char) (exponent : Option Int) : Numeral :=
  match Decimal.appendFitting 0 whole, fraction, exponent with
  | (n, []), [], none => .natural n
  | (n, uncounted), _, _ =>
    let (n, dropped) := Decimal.appendFitting n fraction
    .decimal n (exponent.getD 0 + uncounted.length + dropped.length - fraction.length)

def unsignedNumeral? (text : List Char) : Option (Numeral × List Char) := do
  let (whole, text) ← wholeDigits? text
  let (fraction, text) ← fractionDigits? text
  let (exponent, text) ← exponent? text
  return (numeralOf whole fraction exponent, text)

def numeral? : List Char → Option (Numeral × List Char)
  | '-' :: text => do
    let (n, text) ← unsignedNumeral? text
    match n with
    | .natural n => return (.decimal (-n) 0, text)
    | .decimal significand exponent => return (.decimal (-significand) exponent, text)
  | text => unsignedNumeral? text

/-! ## Values -/

mutual

/-- The value that a text starts with, and the text after it unless the value is broken. -/
def value : Nat → List Char → Json × Option (List Char)
  | 0, _ => (broken, none)
  | fuel + 1, text =>
    match skipBlanks text with
    | 'n' :: 'u' :: 'l' :: 'l' :: rest => (null, some rest)
    | 't' :: 'r' :: 'u' :: 'e' :: rest => (bool true, some rest)
    | 'f' :: 'a' :: 'l' :: 's' :: 'e' :: rest => (bool false, some rest)
    | '"' :: rest =>
      match unquote rest with
      | some (s, rest) => (string s, some rest)
      | none => (broken, none)
    | '[' :: rest =>
      match skipBlanks rest with
      | ']' :: rest => (array [], some rest)
      | rest =>
        let (items, rest) := items fuel rest
        (array items, rest)
    | '\x7b' :: rest =>
      match skipBlanks rest with
      | '\x7d' :: rest => (object [], some rest)
      | rest =>
        let (fields, rest) := fields fuel rest
        (object fields, rest)
    | text =>
      match numeral? text with
      | some (n, rest) => (number n, some rest)
      | none => (broken, none)

def items : Nat → List Char → List Json × Option (List Char)
  | 0, _ => ([broken], none)
  | fuel + 1, text =>
    match value fuel text with
    | (v, none) => ([v], none)
    | (v, some rest) =>
      match skipBlanks rest with
      | ',' :: rest =>
        let (vs, rest) := items fuel rest
        (v :: vs, rest)
      | ']' :: rest => ([v], some rest)
      | _ => ([v, broken], none)

def fields : Nat → List Char → List (Option String × Json) × Option (List Char)
  | 0, _ => ([(none, broken)], none)
  | fuel + 1, text =>
    match skipBlanks text with
    | '"' :: rest =>
      match unquote rest with
      | none => ([(none, broken)], none)
      | some (name, rest) =>
        match skipBlanks rest with
        | ':' :: rest =>
          match value fuel rest with
          | (v, none) => ([(name, v)], none)
          | (v, some rest) =>
            match skipBlanks rest with
            | ',' :: rest =>
              let (fields, rest) := fields fuel rest
              ((name, v) :: fields, rest)
            | '\x7d' :: rest => ([(name, v)], some rest)
            | _ => ([(name, v), (none, broken)], none)
        | _ => ([(name, broken)], none)
    | _ => ([(none, broken)], none)

end

structure Document where
  root : Json
  /-- Whether only blanks follow the value. -/
  isAlone : Bool

namespace Document

/-- Two steps for each character are enough, because every second step consumes one. -/
def ofText (text : String) : Document :=
  let chars := text.toList
  match value (2 * chars.length + 2) chars with
  | (root, some rest) => ⟨root, (skipBlanks rest).isEmpty⟩
  | (root, none) => ⟨root, false⟩

end Document

end SpiderDiagrams.Json
