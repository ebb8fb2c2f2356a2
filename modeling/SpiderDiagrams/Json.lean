import SpiderDiagrams.DoublePrecision

/-!
# JSON values

A JSON value as it stands in a text. A text that stops being JSON is kept up to that place: `broken`
stands for the value that could not be read, and nothing follows it. A string that escapes half of a
surrogate pair is JSON but has no characters, so strings and field names are optional. Fields keep their
order and their repetitions, and numbers that are written as plain naturals are told from all others.
-/
namespace SpiderDiagrams

/--
A number is a natural number of 64 bits that is written without a sign, a fraction and an exponent, or else a
multiple of a power of ten. Of the digits of such a multiple only those count that make up 64 bits.
-/
inductive Numeral where
  | natural (n : Nat)
  | decimal (significand exponent : Int)
  deriving DecidableEq, Repr

namespace Numeral

/-- Whether the product of the significand and the power of ten, each rounded, is not too large. -/
def fitsDouble : Numeral → Bool
  | natural _ => true
  | decimal significand exponent =>
    if significand = 0 ∨ exponent < 0 then true
    else if DoublePrecision.maxPowerOfTen < exponent then false
    else
      DoublePrecision.round significand.natAbs * DoublePrecision.round (Nat.pow 10 exponent.toNat) <
        DoublePrecision.bound

end Numeral

inductive Json where
  | broken
  | null
  | bool (b : Bool)
  | number (n : Numeral)
  | string (s : Option String)
  | array (items : List Json)
  | object (fields : List (Option String × Json))

namespace Json

/-! ## Wholeness -/

mutual

/-- Whether the text of the value is JSON to its end. -/
def isWhole : Json → Bool
  | broken => false
  | array items => areWhole items
  | object fields => areWholeFields fields
  | _ => true

def areWhole : List Json → Bool
  | [] => true
  | v :: vs => v.isWhole && areWhole vs

def areWholeFields : List (Option String × Json) → Bool
  | [] => true
  | (_, v) :: fields => v.isWhole && areWholeFields fields

end

/-! ## Values that can be held -/

mutual

/--
Whether the value can be held: its text is JSON to its end, its strings have characters, its numbers fit
double precision, and its arrays and objects nest at most so deep.
-/
def isHoldable (room : Nat) : Json → Bool
  | broken => false
  | null | bool _ => true
  | number n => n.fitsDouble
  | string s => s.isSome
  | array items => 0 < room && areHoldable (room - 1) items
  | object fields => 0 < room && areHoldableFields (room - 1) fields

def areHoldable (room : Nat) : List Json → Bool
  | [] => true
  | v :: vs => v.isHoldable room && areHoldable room vs

def areHoldableFields (room : Nat) : List (Option String × Json) → Bool
  | [] => true
  | (name, v) :: fields => name.isSome && v.isHoldable room && areHoldableFields room fields

end

/-! ## Text -/

def hexDigit (n : Nat) : Char := Nat.digitChar n

/-- Quotes, backslashes and control characters are escaped, all else stands for itself. -/
def escape (c : Char) : List Char :=
  match c with
  | '"' => ['\\', '"']
  | '\\' => ['\\', '\\']
  | '\x08' => ['\\', 'b']
  | '\x0c' => ['\\', 'f']
  | '\n' => ['\\', 'n']
  | '\r' => ['\\', 'r']
  | '\t' => ['\\', 't']
  | c =>
    if c.toNat < 0x20 then ['\\', 'u', '0', '0', hexDigit (c.toNat / 16), hexDigit (c.toNat % 16)] else [c]

/-- A string without characters is written as half of a surrogate pair. -/
def quote : Option String → List Char
  | some s => '"' :: s.toList.flatMap escape ++ ['"']
  | none => "\"\\ud800\"".toList

def numeralText : Numeral → List Char
  | .natural n => Nat.toDigits 10 n
  | .decimal significand exponent => (s!"{significand}e{exponent}").toList

mutual

def chars : Json → List Char
  | broken => []
  | null => "null".toList
  | bool true => "true".toList
  | bool false => "false".toList
  | number n => numeralText n
  | string s => quote s
  | array [] => "[]".toList
  | array (v :: vs) => '[' :: v.chars ++ itemsChars vs
  | object [] => ['\x7b', '\x7d']
  | object ((name, v) :: fields) => '\x7b' :: quote name ++ ':' :: v.chars ++ fieldsChars fields

def itemsChars : List Json → List Char
  | [] => [']']
  | v :: vs => ',' :: v.chars ++ itemsChars vs

def fieldsChars : List (Option String × Json) → List Char
  | [] => ['\x7d']
  | (name, v) :: fields => ',' :: quote name ++ ':' :: v.chars ++ fieldsChars fields

end

def text (v : Json) : String := .ofList v.chars

end Json

end SpiderDiagrams
