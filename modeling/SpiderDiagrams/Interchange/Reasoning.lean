import SpiderDiagrams.Interchange.Reading
import SpiderDiagrams.Reasoning.Proof

/-!
# Rule applications in JSON

An argument is a value of one of three kinds. An application is a record of a rule's name, an argument
and a style, none of which may be left out.
-/
namespace SpiderDiagrams

namespace ArgumentKind

def key : ArgumentKind → String
  | subDiagram => "SubDiagram"
  | subDiagrams => "SubDiagrams"
  | spider => "Spider"

def toJson (kind : ArgumentKind) : Json := .string (some kind.key)

end ArgumentKind

namespace Selection

def key : Selection → String
  | singleSubDiagram => "select_single_sub_diagram"
  | twoSubDiagrams => "select_two_sub_diagrams"
  | spiderInSubDiagram => "select_spider_in_sub_diagram"

def toJson (selection : Selection) : Json := .string (some selection.key)

end Selection

namespace Style

def key : Style → String
  | forward => "forward"
  | backward => "backward"

def toJson (style : Style) : Json := .string (some style.key)

end Style

def indexToJson (index : Nat) : Json := .number (.natural index)

namespace Argument

def toJson : Argument → Json
  | subDiagram index =>
    .object [(some "kind", .string (some "sub_diagram")), (some "index", indexToJson index)]
  | subDiagrams first second =>
    .object [(some "kind", .string (some "sub_diagrams")), (some "first", indexToJson first),
      (some "second", indexToJson second)]
  | spider name index =>
    .object [(some "kind", .string (some "spider")), (some "spider", .string (some name)),
      (some "index", indexToJson index)]

end Argument

namespace Application

def toJson (a : Application) : Json :=
  .object [(some "rule", .string (some a.rule)), (some "arg", a.argument.toJson),
    (some "style", a.style.toJson)]

end Application

namespace Interchange

def readArgumentKind (room : Nat) (v : Json) : Except ReadError ArgumentKind :=
  readVariant ([.subDiagram, .subDiagrams, .spider].map fun k => (ArgumentKind.key k, k)) false room v

def readSelection (room : Nat) (v : Json) : Except ReadError Selection :=
  readVariant ([.singleSubDiagram, .twoSubDiagrams, .spiderInSubDiagram].map fun s => (Selection.key s, s))
    false room v

def readStyle (room : Nat) (v : Json) : Except ReadError Style :=
  readVariant ([.forward, .backward].map fun s => (Style.key s, s)) false room v

/-! ## Arguments -/

def argumentKinds : List (String × ArgumentKind) :=
  [("sub_diagram", .subDiagram), ("sub_diagrams", .subDiagrams), ("spider", .spider)]

structure ArgumentDraft where
  spider : Option String
  first : Option Nat
  second : Option Nat

def indexSlot (name : String) : Slot ArgumentDraft :=
  ⟨name, (·.first.isSome), fun v d => return { d with first := some (← readIndex v) }⟩

def secondSlot : Slot ArgumentDraft :=
  ⟨"second", (·.second.isSome), fun v d => return { d with second := some (← readIndex v) }⟩

def spiderSlot : Slot ArgumentDraft :=
  ⟨"spider", (·.spider.isSome), fun v d => return { d with spider := some (← readString v) }⟩

/-- What an argument of each kind holds besides its kind. -/
def argumentFormat : ArgumentKind → RecordFormat ArgumentDraft Argument
  | .subDiagram =>
    { blank := ⟨none, none, none⟩
      slots := fun _ => [indexSlot "index"]
      complete := fun missing d => return .subDiagram (← required missing "index" d.first) }
  | .subDiagrams =>
    { blank := ⟨none, none, none⟩
      slots := fun _ => [indexSlot "first", secondSlot]
      complete := fun missing d => do
        let first ← required missing "first" d.first
        return .subDiagrams first (← required missing "second" d.second) }
  | .spider =>
    { blank := ⟨none, none, none⟩
      slots := fun _ => [spiderSlot, indexSlot "index"]
      complete := fun missing d => do
        let spider ← required missing "spider" d.spider
        return .spider spider (← required missing "index" d.first) }

def readArgument : Nat → Json → Except ReadError Argument
  | 0, _ => .error .invalid
  | room + 1, v => do
    let (kind, content) ← takeKind argumentKinds false room v
    (argumentFormat kind).readContent room content

/-! ## Applications -/

structure ApplicationDraft where
  rule : Option String
  argument : Option Argument
  style : Option Style

def applicationFormat : RecordFormat ApplicationDraft Application where
  blank := ⟨none, none, none⟩
  slots room :=
    [⟨"rule", (·.rule.isSome), fun v d => return { d with rule := some (← readString v) }⟩,
      ⟨"arg", (·.argument.isSome), fun v d => return { d with argument := some (← readArgument room v) }⟩,
      ⟨"style", (·.style.isSome), fun v d => return { d with style := some (← readStyle room v) }⟩]
  complete missing d := do
    let rule ← required missing "rule" d.rule
    let argument ← required missing "arg" d.argument
    return ⟨rule, argument, ← required missing "style" d.style⟩

def readApplication (room : Nat) (v : Json) : Except ReadError Application :=
  applicationFormat.read room v

end Interchange

end SpiderDiagrams
