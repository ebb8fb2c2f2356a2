import SpiderDiagrams.Json

/-!
# Quoted strings

The text between two quotes is read in two steps: into pieces, which are characters and escaped UTF-16
units, and from pieces into characters, where two units may have to be joined. Only the first step
decides where the string ends and whether it is JSON.
-/
namespace SpiderDiagrams.Json

inductive Piece where
  | char (c : Char)
  | unit (u : Nat)
  deriving DecidableEq, Repr

namespace Piece

def ofLetter? : Char → Option Char
  | '"' => some '"'
  | '\\' => some '\\'
  | '/' => some '/'
  | 'b' => some '\x08'
  | 'f' => some '\x0c'
  | 'n' => some '\n'
  | 'r' => some '\r'
  | 't' => some '\t'
  | _ => none

def hexValue? (c : Char) : Option Nat :=
  if '0' ≤ c ∧ c ≤ '9' then some (c.toNat - '0'.toNat)
  else if 'a' ≤ c ∧ c ≤ 'f' then some (c.toNat - 'a'.toNat + 10)
  else if 'A' ≤ c ∧ c ≤ 'F' then some (c.toNat - 'A'.toNat + 10)
  else none

def unit? (a b c d : Char) : Option Piece := do
  return unit (16 * (16 * (16 * (← hexValue? a) + (← hexValue? b)) + (← hexValue? c)) + (← hexValue? d))

/-- The pieces before the closing quote and the text after it. -/
def scan : List Char → Option (List Piece × List Char)
  | [] => none
  | '"' :: rest => some ([], rest)
  | '\\' :: 'u' :: a :: b :: c :: d :: rest => do
    let piece ← unit? a b c d
    let (pieces, rest) ← scan rest
    return (piece :: pieces, rest)
  | '\\' :: letter :: rest => do
    let c ← ofLetter? letter
    let (pieces, rest) ← scan rest
    return (char c :: pieces, rest)
  | c :: rest => do
    guard (c ≠ '\\' ∧ 0x20 ≤ c.toNat)
    let (pieces, rest) ← scan rest
    return (char c :: pieces, rest)

def isHighSurrogate (u : Nat) : Bool := 0xD800 ≤ u && u < 0xDC00

def isLowSurrogate (u : Nat) : Bool := 0xDC00 ≤ u && u < 0xE000

/-- The characters of the pieces, unless half of a surrogate pair stands alone. -/
def decode : List Piece → Option (List Char)
  | [] => some []
  | char c :: pieces => (decode pieces).map (c :: ·)
  | unit u :: pieces =>
    if isHighSurrogate u then
      match pieces with
      | unit v :: pieces =>
        if isLowSurrogate v then
          (decode pieces).map (Char.ofNat (0x10000 + 0x400 * (u - 0xD800) + (v - 0xDC00)) :: ·)
        else none
      | _ => none
    else if isLowSurrogate u then none
    else (decode pieces).map (Char.ofNat u :: ·)

end Piece

def unquote (text : List Char) : Option (Option String × List Char) := do
  let (pieces, rest) ← Piece.scan text
  return ((Piece.decode pieces).map .ofList, rest)

end SpiderDiagrams.Json
