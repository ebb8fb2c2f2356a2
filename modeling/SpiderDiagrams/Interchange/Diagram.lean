import SpiderDiagrams.Interchange.Zone
import SpiderDiagrams.Diagram

/-!
# Diagrams in JSON

A diagram is a value of kind `null`, `primary` or `compound`. The parts of a primary diagram may be left
out, those of a compound may not. Whatever a null diagram holds besides its kind is ignored.
-/
namespace SpiderDiagrams

namespace Arity

def toJson : Arity → Json
  | unary => .string (some "Unary")
  | binary => .string (some "Binary")

end Arity

namespace Operator

def key : Operator → String
  | negation => "negation"
  | binary .conjunction => "conjunction"
  | binary .disjunction => "disjunction"
  | binary .implication => "implication"
  | binary .equivalence => "equivalence"

def toJson (op : Operator) : Json := .string (some op.key)

end Operator

namespace Primary

def fields (p : Primary) : List (Option String × Json) :=
  [(some "spiders", namesToJson p.spiders),
    (some "habitats", .object (p.habitats.entries.map fun e => (some e.1, Region.toJson e.2))),
    (some "shaded_zones", Region.toJson p.shaded)]

def toJson (p : Primary) : Json := .object p.fields

end Primary

namespace Diagram

/-- The fields of a compound, with its operands written already. -/
def compoundFields (op : Operator) (operands : List Json) : List (Option String × Json) :=
  [(some "operator", op.toJson), (some "operands", .array operands)]

def toJson : Diagram → Json
  | null => .object [(some "kind", .string (some "null"))]
  | primary p => .object ((some "kind", .string (some "primary")) :: p.fields)
  | negation d =>
    .object ((some "kind", .string (some "compound")) :: compoundFields .negation [d.toJson])
  | binary c l r =>
    .object ((some "kind", .string (some "compound")) :: compoundFields (.binary c) [l.toJson, r.toJson])

/-- A compound by itself, without a kind. Other diagrams are written as usual. -/
def compoundToJson : Diagram → Json
  | negation d => .object (compoundFields .negation [d.toJson])
  | binary c l r => .object (compoundFields (.binary c) [l.toJson, r.toJson])
  | d => d.toJson

def jsonText (d : Diagram) : String := d.toJson.text

end Diagram

namespace Interchange

def readArity (held : Bool) (room : Nat) (v : Json) : Except ReadError Arity :=
  readVariant [("Unary", .unary), ("Binary", .binary)] held room v

def readOperator (held : Bool) (room : Nat) (v : Json) : Except ReadError Operator :=
  readVariant (Operator.all.map fun op => (op.key, op)) held room v

/-! ## Primary diagrams -/

def readHabitat (room : Nat) : Option String × Json → Except ReadError (String × Region)
  | (none, _) => .error .invalid
  | (some spider, v) => return (spider, ← readRegion room v)

/-- Of several habitats of one spider the last counts. -/
def readHabitats : Nat → Json → Except ReadError (SortedMap String Region)
  | room + 1, .object fields => return .ofList (← fields.mapM (readHabitat room))
  | _, _ => .error .invalid

structure PrimaryDraft where
  spiders : Option (SortedSet String)
  habitats : Option (SortedMap String Region)
  shaded : Option Region

def primaryFormat : RecordFormat PrimaryDraft Primary where
  blank := ⟨none, none, none⟩
  slots room :=
    [⟨"spiders", (·.spiders.isSome), fun v d => return { d with spiders := some (← readNames room v) }⟩,
      ⟨"habitats", (·.habitats.isSome), fun v d => return { d with habitats := some (← readHabitats room v) }⟩,
      ⟨"shaded_zones", (·.shaded.isSome), fun v d => return { d with shaded := some (← readRegion room v) }⟩]
  complete _ d :=
    (Primary.ofParts (d.spiders.getD ∅) (d.habitats.getD ∅) (d.shaded.getD ∅)).mapError .diagram

def readPrimary (room : Nat) (v : Json) : Except ReadError Primary := primaryFormat.read room v

/-! ## Compounds -/

structure CompoundDraft where
  operator : Option Operator
  operands : Option (List Diagram)

/-- The operands are read by a given reader of arrays of diagrams. -/
def compoundFormat (held : Bool) (readOperands : Nat → Json → Except ReadError (List Diagram)) :
    RecordFormat CompoundDraft Diagram where
  blank := ⟨none, none⟩
  slots room :=
    [⟨"operator", (·.operator.isSome), fun v d => return { d with operator := some (← readOperator held room v) }⟩,
      ⟨"operands", (·.operands.isSome), fun v d => return { d with operands := some (← readOperands room v) }⟩]
  complete missing d := do
    let op ← required missing "operator" d.operator
    let operands ← required missing "operands" d.operands
    (Diagram.compound op operands).mapError .diagram

/-! ## Diagrams -/

inductive DiagramKind where
  | null
  | primary
  | compound
  deriving DecidableEq, Repr

def diagramKinds : List (String × DiagramKind) :=
  [("null", .null), ("primary", .primary), ("compound", .compound)]

/-- A null diagram ignores all fields, but not the items of an array. -/
def readNull : Content → Except ReadError Diagram
  | .fields _ | .items [] => .ok .null
  | .items (_ :: _) => .error .invalid

/-- An operand is two nestings further in than its compound, since the operands stand in an array. -/
def readDiagram (held : Bool) (room : Nat) (v : Json) : Except ReadError Diagram :=
  match room with
  | 0 => .error .invalid
  | room + 1 => do
    let (kind, content) ← takeKind diagramKinds held room v
    match kind with
    | .null => readNull content
    | .primary => return .primary (← primaryFormat.readContent room content)
    | .compound =>
      let readOperands :=
        match room with
        | 0 => fun _ => .error .invalid
        | room + 1 => readItems (readDiagram true room)
      (compoundFormat true fun _ => readOperands).readContent room content

/-- A compound that is not part of a diagram carries no kind. -/
def readCompound (room : Nat) (v : Json) : Except ReadError Diagram :=
  (compoundFormat false (readArray (readDiagram false))).read room v

end Interchange

namespace Diagram

def ofJsonText (text : String) : Except ReadError Diagram :=
  Interchange.readText (Interchange.readDiagram false Interchange.nestingLimit) text

end Diagram

end SpiderDiagrams
