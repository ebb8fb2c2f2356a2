import SpiderDiagrams.Interchange.ReadError
import SpiderDiagrams.Json.Document

/-!
# Reading values from JSON

Values are read from left to right and the first failure is reported. The number of arrays and objects
that may nest is limited; every reader is told how many more may be opened. A record is written as an
object, whose fields may stand in any order among fields of other names, or as the array of its fields
in order. A variant without content is written as its name. A value of several kinds carries a field
`kind`, or begins with its kind, and is held as a whole before the rest of it is looked at.
-/
namespace SpiderDiagrams.Interchange

variable {α δ κ : Type}

/-- How many arrays and objects may nest. -/
def nestingLimit : Nat := 127

/-! ## Simple values -/

def readString : Json → Except ReadError String
  | .string (some s) => .ok s
  | _ => .error .invalid

/-- Indices are plain natural numbers of 64 bits. -/
def readIndex : Json → Except ReadError Nat
  | .number (.natural n) => if n < Decimal.naturalBound then .ok n else .error .invalid
  | _ => .error .invalid

def readAll (item : Json → Except ReadError α) : List Json → Except ReadError (List α)
  | [] => .ok []
  | v :: vs => do
    let a ← item v
    return a :: (← readAll item vs)

def readItems (item : Json → Except ReadError α) : Json → Except ReadError (List α)
  | .array items => readAll item items
  | _ => .error .invalid

/-- An array, whose items have room for one nesting less. -/
def readArray (item : Nat → Json → Except ReadError α) : Nat → Json → Except ReadError (List α)
  | 0, _ => .error .invalid
  | room + 1, v => readItems (item room) v

/-! ## Variants -/

def findVariant (variants : List (String × α)) (name : String) : Except ReadError α :=
  match variants.find? (·.1 = name) with
  | some (_, a) => .ok a
  | none => .error (.unknownVariant name)

/--
A variant is its name, or an object with its name as the only field and `null` in it. Inside a held value
the number of fields is looked at first, and an empty object may stand for `null`.
-/
def readVariant (variants : List (String × α)) (held : Bool) (room : Nat) :
    Json → Except ReadError α
  | .string (some name) => findVariant variants name
  | .object ((some name, v) :: others) =>
    if room = 0 ∨ (held ∧ others.length ≠ 0) then .error .invalid
    else do
      let a ← findVariant variants name
      match v, others with
      | .null, [] => .ok a
      | .object [], [] => if held then .ok a else .error .invalid
      | _, _ => .error .invalid
  | _ => .error .invalid

/-! ## Records -/

/-- A field of a record that is collected in a draft of type `δ`. -/
structure Slot (δ : Type) where
  name : String
  isFilled : δ → Bool
  fill : Json → δ → Except ReadError δ

/-- Fields of other names are passed over, whatever they hold. -/
def fillByName (slots : List (Slot δ)) : δ → List (Option String × Json) → Except ReadError δ
  | draft, [] => .ok draft
  | _, (none, _) :: _ => .error .invalid
  | draft, (some name, v) :: fields =>
    match slots.find? (·.name = name) with
    | some slot =>
      if slot.isFilled draft then .error (.duplicateField name)
      else do fillByName slots (← slot.fill v draft) fields
    | none => if v.isWhole then fillByName slots draft fields else .error .invalid

def fillInOrder : List (Slot δ) → δ → List Json → Except ReadError δ
  | _, draft, [] => .ok draft
  | [], _, _ :: _ => .error .invalid
  | slot :: slots, draft, v :: vs => do fillInOrder slots (← slot.fill v draft) vs

inductive Content where
  | fields (fields : List (Option String × Json))
  | items (items : List Json)

/-- A record of type `α` is completed from a draft, which is told how to report a missing field. -/
structure RecordFormat (δ α : Type) where
  blank : δ
  slots : Nat → List (Slot δ)
  complete : (String → ReadError) → δ → Except ReadError α

namespace RecordFormat

def readContent (format : RecordFormat δ α) (room : Nat) : Content → Except ReadError α
  | .fields fields => do
    format.complete .missingField (← fillByName (format.slots room) format.blank fields)
  | .items items => do
    format.complete (fun _ => .invalid) (← fillInOrder (format.slots room) format.blank items)

def read (format : RecordFormat δ α) : Nat → Json → Except ReadError α
  | room + 1, .object fields => format.readContent room (.fields fields)
  | room + 1, .array items => format.readContent room (.items items)
  | _, _ => .error .invalid

end RecordFormat

def required (missing : String → ReadError) (name : String) : Option α → Except ReadError α
  | some a => .ok a
  | none => .error (missing name)

/-! ## Values of several kinds -/

/-- A kind is its name; inside a held value it may also be its place among the kinds. -/
def readKind (kinds : List (String × κ)) (held : Bool) : Json → Except ReadError κ
  | .string (some name) => findVariant kinds name
  | .number (.natural n) =>
    match held, kinds[n]? with
    | true, some (_, kind) => .ok kind
    | _, _ => .error .invalid
  | _ => .error .invalid

/-- Takes the field `kind` out of the fields of a value and checks that the others can be held. -/
def takeKindField (kinds : List (String × κ)) (held : Bool) (room : Nat) :
    Option κ → List (Option String × Json) → Except ReadError (κ × List (Option String × Json))
  | some kind, [] => .ok (kind, [])
  | none, [] => .error (.missingField "kind")
  | _, (none, _) :: _ => .error .invalid
  | found, (some name, v) :: fields =>
    if name = "kind" then
      match found with
      | some _ => .error (.duplicateField name)
      | none => do takeKindField kinds held room (some (← readKind kinds held v)) fields
    else if v.isHoldable room then do
      let (kind, others) ← takeKindField kinds held room found fields
      return (kind, (some name, v) :: others)
    else .error .invalid

/-- The kind of a value and all else that the value holds. -/
def takeKind (kinds : List (String × κ)) (held : Bool) (room : Nat) :
    Json → Except ReadError (κ × Content)
  | .object fields => do
    let (kind, others) ← takeKindField kinds held room none fields
    return (kind, .fields others)
  | .array [] => .error (.missingField "kind")
  | .array (v :: others) => do
    let kind ← readKind kinds held v
    if others.all (·.isHoldable room) then return (kind, .items others) else .error .invalid
  | _ => .error .invalid

/-! ## Texts -/

/-- Reads a whole text; what follows the value is looked at last. -/
def readText (read : Json → Except ReadError α) (text : String) : Except ReadError α := do
  let document := Json.Document.ofText text
  let a ← read document.root
  if document.isAlone then return a else .error .invalid

end SpiderDiagrams.Interchange
