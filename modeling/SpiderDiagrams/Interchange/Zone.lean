import SpiderDiagrams.Interchange.Reading
import SpiderDiagrams.Region

/-!
# Zones and regions in JSON

A zone is a record of its two lists of contours, each of which may be left out. A region is an array of
zones.
-/
namespace SpiderDiagrams

def namesToJson (names : SortedSet String) : Json :=
  .array (names.toList.map fun name => .string (some name))

namespace Zone

def toJson (z : Zone) : Json :=
  .object [(some "in_contours", namesToJson z.inside), (some "out_contours", namesToJson z.outside)]

end Zone

namespace Region

def toJson (r : Region) : Json := .array (r.toList.map Zone.toJson)

end Region

namespace Interchange

def readNames (room : Nat) (v : Json) : Except ReadError (SortedSet String) := do
  return .ofList (← readArray (fun _ => readString) room v)

structure ZoneDraft where
  inside : Option (SortedSet String)
  outside : Option (SortedSet String)

def zoneFormat : RecordFormat ZoneDraft Zone where
  blank := ⟨none, none⟩
  slots room :=
    [⟨"in_contours", (·.inside.isSome), fun v d => return { d with inside := some (← readNames room v) }⟩,
      ⟨"out_contours", (·.outside.isSome), fun v d => return { d with outside := some (← readNames room v) }⟩]
  complete _ d := (Zone.ofSides (d.inside.getD ∅) (d.outside.getD ∅)).mapError .diagram

def readZone (room : Nat) (v : Json) : Except ReadError Zone := zoneFormat.read room v

def readRegion (room : Nat) (v : Json) : Except ReadError Region := do
  return .ofList (← readArray readZone room v)

end Interchange

end SpiderDiagrams
