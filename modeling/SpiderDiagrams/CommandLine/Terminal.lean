/-!
# Text without terminal controls

Messages for a terminal may hold control sequences, which are not shown but change how it shows text. An
escape character begins them, and most end with a letter; device controls and other strings run on until
an escape or a cancel character, and a command string also until a bell. Here they are taken out of a text,
and with them all control characters except for blanks. Text that is shown goes on until the next control
character, also where blanks inside a control sequence began it. Lines that stand in a text are unaffected.
-/
namespace SpiderDiagrams.CommandLine.Terminal

/-- Where in a control sequence a text stands. -/
inductive Position where
  | text
  | escape
  | afterEscape
  | control
  | device
  | deviceParameters
  | deviceIntermediate
  | string
  | command
  deriving DecidableEq, Repr

namespace Position

def next (position : Position) (byte : Nat) : Position :=
  if byte = 0x18 ∨ byte = 0x1a then text
  else if byte = 0x1b then escape
  else
    match position with
    | text => text
    | escape =>
      if byte < 0x20 ∨ 0x7f ≤ byte then escape
      else if byte < 0x30 then afterEscape
      else if byte = 0x5b then control
      else if byte = 0x5d then command
      else if byte = 0x50 then device
      else if byte = 0x58 ∨ byte = 0x5e ∨ byte = 0x5f then string
      else text
    | afterEscape => if 0x30 ≤ byte ∧ byte < 0x7f then text else afterEscape
    | control => if 0x40 ≤ byte ∧ byte < 0x7f then text else control
    | device =>
      if byte < 0x20 ∨ 0x7f ≤ byte then device
      else if byte < 0x30 then deviceIntermediate
      else if byte < 0x40 then deviceParameters
      else string
    | deviceParameters =>
      if byte < 0x20 ∨ 0x7f ≤ byte then deviceParameters
      else if byte < 0x30 then deviceIntermediate
      else if byte < 0x3c then deviceParameters
      else string
    | deviceIntermediate => if 0x30 ≤ byte ∧ byte < 0x7f then string else deviceIntermediate
    | string => if byte = 0x9c then text else string
    | command => if byte = 0x07 then text else command

/-- The position after one more character, which is taken byte by byte. -/
def pass (position : Position) (c : Char) : Position :=
  (String.utf8EncodeChar c).foldl (fun position byte => position.next byte.toNat) position

/-- Whether blanks are shown, which they are within short sequences too. -/
def showsBlanks : Position → Bool
  | text | escape | afterEscape | control => true
  | _ => false

def shows (position : Position) (c : Char) : Bool :=
  if c = '\t' ∨ c = '\n' ∨ c = '\x0c' ∨ c = '\r' then position.showsBlanks
  else position = text && 0x20 ≤ c.toNat && c ≠ '\x7f'

end Position

/-- What is shown, given whether the character before was. -/
def shown : Bool → Position → List Char → List Char
  | _, _, [] => []
  | showing, position, c :: cs =>
    if (if showing then Position.text else position).shows c then
      c :: shown true (if c.toNat < 0x80 then position else .text) cs
    else shown false (position.pass c) cs

def plain (text : String) : String := .ofList (shown false .text text.toList)

theorem shown_eq_self {showing : Bool} {cs : List Char} (h : ∀ c ∈ cs, Position.text.shows c) :
    shown showing .text cs = cs := by
  induction cs generalizing showing with
  | nil => rfl
  | cons c cs ih =>
    have rest : shown true .text cs = cs := ih fun d hd => h d (List.mem_cons_of_mem _ hd)
    simp [shown, h c List.mem_cons_self, rest]

/-- Shows a part of a text in a style, given by its parameters, and what follows in the usual one. -/
def styled (parameters text : String) : String := s!"\x1b[{parameters}m{text}\x1b[0m"

end SpiderDiagrams.CommandLine.Terminal
