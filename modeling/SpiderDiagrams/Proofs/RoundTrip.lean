import SpiderDiagrams.Proofs.JsonText
import SpiderDiagrams.Proofs.Reading

/-!
# From texts to diagrams and back

Reading the text of a raw diagram builds it, with the same diagram or the same error. In particular every
diagram is read back from its own text, unless that text nests too deep for the reader.
-/
namespace SpiderDiagrams

open Interchange

theorem Interchange.readText_text_append {α : Type} {v : Json} (h : v.IsPlain) {blanks : List Char}
    (hblanks : ∀ c ∈ blanks, Json.isBlank c = true) (read : Json → Except ReadError α) :
    readText read (v.text ++ .ofList blanks) = read v := by
  rw [readText, Json.Document.ofText_text_append h hblanks]
  cases read v <;> rfl

theorem Interchange.readText_text {α : Type} {v : Json} (h : v.IsPlain)
    (read : Json → Except ReadError α) : readText read v.text = read v := by
  rw [readText, Json.Document.ofText_text h]
  cases read v <;> rfl

namespace RawDiagram

/-- Reading is building with the checked constructors: the same diagram, or the first fault in the order of
the text. -/
theorem ofJsonText_text_eq_build (x : RawDiagram) (hnesting : x.toJson.nesting ≤ 127) :
    Diagram.ofJsonText x.toJson.text = x.build.mapError .diagram ∧
      (∀ e, x.build = .error e ↔ x.faults.head? = some e) ∧
      ∀ spiders habitats shaded p, buildPrimary spiders habitats shaded = .ok p →
        ∀ s, (p.habitat? s).map .ok =
          (habitats.reverse.find? fun h => h.1 = s).map fun h => RawRegion.build h.2 := by
  refine ⟨?_, fun e => x.reports_build.eq_error_iff, ?_⟩
  · rw [Diagram.ofJsonText, readText_text x.isPlain_toJson]
    exact readDiagram_eq_build false x hnesting
  · intro spiders habitats shaded p hp s
    exact habitat?_of_buildPrimary hp s

/-- Of three faults the one is reported that comes first in the text, with its smallest contour. -/
theorem ofJsonText_text_eq_build_faulty :
    let x : RawDiagram := .compound (.binary .implication)
      [.primary ["s"] [("t", [⟨["B", "A"], ["A", "B"]⟩])] [], .compound .negation []]
    x.toJson.nesting ≤ 127 ∧
      x.faults = [.overlappingContours "A", .unknownHabitatSpider "t", .arityMismatch .negation 1 0] ∧
      Diagram.ofJsonText x.toJson.text = .error (.diagram (.overlappingContours "A")) := by
  intro x
  have hnesting : x.toJson.nesting ≤ 127 := by decide +kernel
  have hfaults : x.faults =
      [.overlappingContours "A", .unknownHabitatSpider "t", .arityMismatch .negation 1 0] := by
    decide +kernel
  obtain ⟨hread, hfirst, -⟩ := x.ofJsonText_text_eq_build hnesting
  have hbuild : x.build = .error (.overlappingContours "A") := (hfirst _).mpr (by rw [hfaults]; rfl)
  refine ⟨hnesting, hfaults, ?_⟩
  rw [hread, hbuild]
  rfl

end RawDiagram

namespace Diagram

/-- A diagram is read from what is written for it, also in another diagram, where there is room for it. -/
theorem readDiagram_toJson (held : Bool) (room : Nat) (d : Diagram) :
    readDiagram held room d.toJson = if d.toJson.nesting ≤ room then .ok d else .error .invalid := by
  rw [← d.toJson_raw]
  split
  · rename_i hroom
    rw [RawDiagram.readDiagram_eq_build held d.raw hroom, d.build_raw]
    rfl
  · rename_i hroom
    exact RawDiagram.readDiagram_eq_invalid held (Nat.lt_of_not_le hroom)

theorem ofJsonText_jsonText_append (d : Diagram) {blanks : List Char}
    (hblanks : ∀ c ∈ blanks, Json.isBlank c = true) :
    ofJsonText (d.jsonText ++ .ofList blanks) =
      if d.toJson.nesting ≤ nestingLimit then .ok d else .error .invalid := by
  have hplain : d.toJson.IsPlain := d.toJson_raw ▸ d.raw.isPlain_toJson
  rw [ofJsonText, jsonText, readText_text_append hplain hblanks, readDiagram_toJson]

/-- What is printed for a diagram is read as that diagram, with the end of its line or without. -/
theorem ofJsonText_of_line {d : Diagram} {line : String}
    (h : line = d.jsonText ∨ line = d.jsonText ++ "\n") :
    ofJsonText line = if d.toJson.nesting ≤ nestingLimit then .ok d else .error .invalid := by
  rcases h with rfl | rfl
  · have hnone : ∀ c ∈ ([] : List Char), Json.isBlank c = true := by simp
    have hread := d.ofJsonText_jsonText_append hnone
    rwa [String.append_empty] at hread
  · have hend : ∀ c ∈ ['\n'], Json.isBlank c = true := by simp [Json.isBlank]
    exact d.ofJsonText_jsonText_append hend

/-- A diagram is read back from its text exactly as it was, or not at all if the text nests too deep. -/
theorem ofJsonText_jsonText (d : Diagram) :
    ofJsonText d.jsonText = if d.toJson.nesting ≤ 127 then .ok d else .error .invalid := by
  have hplain : d.toJson.IsPlain := d.toJson_raw ▸ d.raw.isPlain_toJson
  rw [ofJsonText, jsonText, readText_text hplain, ← d.toJson_raw]
  split
  · rename_i hroom
    have hroom : d.raw.toJson.nesting ≤ nestingLimit := hroom
    rw [RawDiagram.readDiagram_eq_build false d.raw hroom, d.build_raw]
    rfl
  · rename_i hroom
    exact RawDiagram.readDiagram_eq_invalid false (Nat.lt_of_not_le hroom)

end Diagram

end SpiderDiagrams
