import Mathlib.Logic.Relation
import SpiderDiagrams.Proofs.ReadAlike

/-!
# Rearranged texts

Reading a diagram ignores its presentation: the order of the fields of zones and diagrams, the order and the
repetitions of the elements of sets, the order of the habitats of different spiders, and fields of other names.
One rearrangement changes one of them in one place. A value that can be held is read as whatever it was
rearranged from.
-/
namespace SpiderDiagrams.Interchange

/-! ## What may be rearranged -/

/-- A record, with the fields that it may have of its own. -/
inductive IsRecord : Part → Json → List (String × Option Part) → Prop
  | zone (v : Json) : IsRecord .zone v zoneParts
  | diagram {v : Json} {kind : DiagramKind} (h : HasKind v kind) :
      IsRecord .diagram v (("kind", none) :: kindParts kind)

theorem IsRecord.of_name {fields : List (Option String × Json)} {name : String} {kind : DiagramKind}
    (hkind : findVariant diagramKinds name = .ok kind) (h : (some "kind", .string (some name)) ∈ fields) :
    IsRecord .diagram (.object fields) (("kind", none) :: kindParts kind) :=
  .diagram (@HasKind.field _ (.string (some name)) _ h hkind)

/-- The parts that are sets, written as arrays. -/
inductive IsSet : Part → Prop
  | names : IsSet .names
  | region : IsSet .region

/-- The fields of an object that may stand in any order. -/
inductive IsUnordered : Part → List (Option String × Json) → Prop
  | record {part : Part} {fields : List (Option String × Json)} {parts : List (String × Option Part)}
      (record : IsRecord part (.object fields) parts) : IsUnordered part fields
  | habitats {fields : List (Option String × Json)} (distinct : (fields.map (·.1)).Nodup) :
      IsUnordered .habitats fields

/-- The part that stands in a field of an object. -/
inductive HasField : Part → Json → Option String → Part → Prop
  | record {part inner : Part} {v : Json} {parts : List (String × Option Part)} {name : String}
      (record : IsRecord part v parts) (own : (name, some inner) ∈ parts) : HasField part v (some name) inner
  | habitat (v : Json) (spider : Option String) : HasField .habitats v spider .region

/-- The part that stands at a place of an array. -/
inductive HasItem : Part → Json → Nat → Part → Prop
  | record {part inner : Part} {v : Json} {parts : List (String × Option Part)} {i : Nat} {name : String}
      (record : IsRecord part v parts) (own : parts[i]? = some (name, some inner)) : HasItem part v i inner
  | zone (v : Json) (i : Nat) : HasItem .region v i .zone
  | operand (v : Json) (i : Nat) : HasItem .operands v i .diagram

/-- One rearrangement. Where insertable values may be inserted, they come first in their records, and a
rearrangement of the fields puts them elsewhere. -/
inductive Rearranged (insertable : Json → Prop) : Part → Json → Json → Prop
  | elements {part : Part} {items items' : List Json} (set : IsSet part) (same : ∀ v, v ∈ items ↔ v ∈ items') :
      Rearranged insertable part (.array items) (.array items')
  | order {part : Part} {fields fields' : List (Option String × Json)} (unordered : IsUnordered part fields)
      (perm : fields.Perm fields') : Rearranged insertable part (.object fields) (.object fields')
  | insert {part : Part} {fields : List (Option String × Json)} {parts : List (String × Option Part)}
      {name : String} {v : Json} (record : IsRecord part (.object fields) parts)
      (other : name ∉ parts.map (·.1)) (hv : insertable v) :
      Rearranged insertable part (.object fields) (.object ((some name, v) :: fields))
  | inField {part inner : Part} {before after : List (Option String × Json)} {name : Option String} {v v' : Json}
      (field : HasField part (.object (before ++ (name, v) :: after)) name inner)
      (h : Rearranged insertable inner v v') :
      Rearranged insertable part (.object (before ++ (name, v) :: after))
        (.object (before ++ (name, v') :: after))
  | inItem {part inner : Part} {before after : List Json} {v v' : Json}
      (item : HasItem part (.array (before ++ v :: after)) before.length inner)
      (h : Rearranged insertable inner v v') :
      Rearranged insertable part (.array (before ++ v :: after)) (.array (before ++ v' :: after))

/-! ## What is read after rearrangements -/

theorem Content.Rearranged.isReadAs {part : Part} {content content' : Content}
    {parts : List (String × Option Part)} (h : content.Rearranged parts content')
    (record : IsRecord part content.toJson parts) : part.IsReadAs content.toJson content'.toJson := by
  cases record with
  | zone => exact isReadAs_zone h
  | diagram hkind => exact fun held => isReadAs_diagram hkind h held

namespace Rearranged

variable {insertable : Json → Prop} {part : Part} {v v' : Json}

/-- One rearrangement does not change what is read. -/
theorem isReadAs (h : Rearranged insertable part v v') : part.IsReadAs v v' := by
  induction h with
  | elements set same =>
    cases set with
    | names =>
      rw [Part.IsReadAs, readNames_eq_readSet]
      exact isReadAs_set_of_mem_iff same
    | region =>
      rw [Part.IsReadAs, readRegion_eq_readSet]
      exact isReadAs_set_of_mem_iff same
  | order unordered perm =>
    cases unordered with
    | record record => exact Content.Rearranged.isReadAs (.perm perm) record
    | habitats distinct => exact isReadAs_habitats_of_perm distinct perm
  | insert record other _ => exact Content.Rearranged.isReadAs (.insert other) record
  | inField field _ ih =>
    cases field with
    | record record own => exact Content.Rearranged.isReadAs (.field own ih) record
    | habitat => exact IsReadAs.habitats ih
  | inItem item _ ih =>
    cases item with
    | record record own => exact Content.Rearranged.isReadAs (.item own ih) record
    | zone =>
      rw [Part.IsReadAs, readRegion_eq_readSet]
      exact IsReadAs.set ih
    | operand => exact IsReadAs.array (ih true)

theorem isRepresentable (h : Rearranged Json.IsRepresentable part v v') (hv : v.IsRepresentable) :
    v'.IsRepresentable := by
  induction h with
  | elements _ same =>
    rw [Json.isRepresentable_array_iff] at hv ⊢
    exact fun w hw => hv w ((same w).mpr hw)
  | order _ perm =>
    rw [Json.isRepresentable_object_iff] at hv ⊢
    exact fun f hf => hv f (perm.mem_iff.mpr hf)
  | insert _ _ hw =>
    rw [Json.isRepresentable_object_iff] at hv ⊢
    exact List.forall_mem_cons.mpr ⟨⟨rfl, hw⟩, hv⟩
  | inField _ _ ih =>
    simp only [Json.isRepresentable_object_iff, List.forall_mem_append, List.forall_mem_cons] at hv ⊢
    exact ⟨hv.1, ⟨hv.2.1.1, ih hv.2.1.2⟩, hv.2.2⟩
  | inItem _ _ ih =>
    simp only [Json.isRepresentable_array_iff, List.forall_mem_append, List.forall_mem_cons] at hv ⊢
    exact ⟨hv.1, ih hv.2.1, hv.2.2⟩

/-- A rearrangement takes nothing away, so no value becomes flatter. -/
theorem nesting_le (h : Rearranged insertable part v v') : v.nesting ≤ v'.nesting := by
  induction h with
  | elements _ same =>
    exact Json.nesting_array_le_array fun w hw => ⟨w, (same w).mp hw, Nat.le_refl _⟩
  | order _ perm =>
    exact Json.nesting_object_le_object fun f hf => ⟨f, perm.mem_iff.mp hf, Nat.le_refl _⟩
  | insert =>
    exact Json.nesting_object_le_object fun f hf => ⟨f, List.mem_cons_of_mem _ hf, Nat.le_refl _⟩
  | @inField _ _ _ _ name _ v' _ _ ih =>
    refine Json.nesting_object_le_object ?_
    simp only [List.forall_mem_append, List.forall_mem_cons]
    exact ⟨fun f hf => ⟨f, by simp [hf], Nat.le_refl _⟩, ⟨(name, v'), by simp, ih⟩,
      fun f hf => ⟨f, by simp [hf], Nat.le_refl _⟩⟩
  | @inItem _ _ _ _ _ v' _ _ ih =>
    refine Json.nesting_array_le_array ?_
    simp only [List.forall_mem_append, List.forall_mem_cons]
    exact ⟨fun w hw => ⟨w, by simp [hw], Nat.le_refl _⟩, ⟨v', by simp, ih⟩,
      fun w hw => ⟨w, by simp [hw], Nat.le_refl _⟩⟩

end Rearranged

theorem isHoldable_of_readDiagram {held : Bool} {room : Nat} {v : Json} {d : Diagram}
    (h : readDiagram held room v = .ok d) : v.isHoldable room = true := by
  cases room with
  | zero => cases h
  | succ room =>
    rw [readDiagram_succ] at h
    obtain ⟨⟨kind, content⟩, htake, -⟩ := bind_eq_ok_iff.mp h
    exact (isHoldable_of_takeKind htake).1

/-- However often a value is rearranged, it is read as the same diagram where there is room for it. -/
theorem readDiagram_of_rearranged {held : Bool} {room : Nat} {v v' : Json} {d : Diagram}
    (h : Relation.ReflTransGen (Rearranged Json.IsRepresentable .diagram) v v')
    (hread : readDiagram held room v = .ok d) (hroom : v'.nesting ≤ room) :
    readDiagram held room v' = .ok d := by
  have hv : v.IsRepresentable := (Json.isHoldable_iff.mp (isHoldable_of_readDiagram hread)).1
  have hrun : v'.IsRepresentable ∧ (v'.nesting ≤ room → readDiagram held room v' = .ok d) := by
    clear hroom
    induction h with
    | refl => exact ⟨hv, fun _ => hread⟩
    | tail _ hstep ih =>
      have hrepresentable := hstep.isRepresentable ih.1
      refine ⟨hrepresentable, fun hroom => ?_⟩
      exact hstep.isReadAs held (Json.isHoldable_iff.mpr ⟨hrepresentable, hroom⟩)
        (ih.2 (Nat.le_trans hstep.nesting_le hroom))
  exact hrun.2 hroom

end SpiderDiagrams.Interchange

namespace SpiderDiagrams.Diagram

open Interchange

/-- A text that is read as a diagram may be rearranged anywhere, with representable values inserted, and is
read as the same diagram and so printed alike. -/
theorem ofJsonText_of_rearranged {text text' : String} {d : Diagram} (hread : ofJsonText text = .ok d)
    (h : Relation.ReflTransGen (Rearranged Json.IsRepresentable .diagram) (Json.Document.ofText text).root
      (Json.Document.ofText text').root)
    (halone : (Json.Document.ofText text').isAlone = true)
    (hnesting : (Json.Document.ofText text').root.nesting ≤ 127) :
    ofJsonText text' = .ok d ∧ (ofJsonText text').map jsonText = .ok d.jsonText := by
  have hread' : ofJsonText text' = .ok d := by
    refine readText_eq_ok_iff.mpr ⟨?_, halone⟩
    exact readDiagram_of_rearranged h (readText_eq_ok_iff.mp hread).1 hnesting
  exact ⟨hread', by rw [hread']; rfl⟩

/-- In a negation a note is put first, and in its operand the kind last and a spider twice. -/
theorem ofJsonText_of_rearranged_negation :
    let x : RawDiagram := .compound .negation [.primary ["s", "t"] [] []]
    let operand : Json := .object
      (RawDiagram.primaryFields ["t", "s", "t"] [] [] ++ [(some "kind", .string (some "primary"))])
    let v : Json := .object ((some "note", .null) :: (some "kind", .string (some "compound")) ::
      compoundFields .negation [operand])
    ∃ d, ofJsonText x.toJson.text = .ok d ∧ v.nesting ≤ 127 ∧ ofJsonText v.text = .ok d := by
  intro x operand v
  have hoperand : operand.IsPlain := by
    refine .object _ (by simp [RawDiagram.primaryFields]) ?_
    simpa [RawDiagram.primaryFields] using ⟨isPlain_namesJson ["t", "s", "t"],
      RawDiagram.isPlain_habitatsJson [], RawRegion.isPlain_toJson [], .string "primary"⟩
  have hoperands : (Json.array [operand]).IsPlain := .array _ (by simpa using hoperand)
  have hplain : v.IsPlain := by
    refine .object _ (by simp [compoundFields]) ?_
    simpa [compoundFields] using ⟨.null, .string "compound", .string "negation", hoperands⟩
  have hroot : Json.Document.ofText x.toJson.text = ⟨x.toJson, true⟩ :=
    Json.Document.ofText_text x.isPlain_toJson
  have hroot' : Json.Document.ofText v.text = ⟨v, true⟩ := Json.Document.ofText_text hplain
  obtain ⟨d, hd⟩ := x.reports_build.exists_ok_iff.mpr (by decide +kernel)
  have hread : ofJsonText x.toJson.text = .ok d := by
    have hbuild := x.readDiagram_eq_build false (show x.toJson.nesting ≤ nestingLimit by decide)
    rw [ofJsonText, readText_text x.isPlain_toJson, hbuild, hd]
    rfl
  have hnesting : v.nesting ≤ 127 := by decide
  have inside {w w' : Json} (h : Rearranged Json.IsRepresentable .diagram w w') :
      Rearranged Json.IsRepresentable .diagram
        (.object ((some "kind", .string (some "compound")) :: compoundFields .negation [w]))
        (.object ((some "kind", .string (some "compound")) :: compoundFields .negation [w'])) := by
    have hitem : Rearranged Json.IsRepresentable .operands (.array [w]) (.array [w']) :=
      @Rearranged.inItem _ _ _ [] [] w w' (.operand _ _) h
    exact @Rearranged.inField _ _ _ [_, _] [] _ _ _
      (.record (.of_name rfl List.mem_cons_self) (by simp [kindParts])) hitem
  have hspiders : Rearranged Json.IsRepresentable .diagram
      (.object ((some "kind", .string (some "primary")) :: RawDiagram.primaryFields ["s", "t"] [] []))
      (.object ((some "kind", .string (some "primary")) :: RawDiagram.primaryFields ["t", "s", "t"] [] [])) := by
    have hnames : Rearranged Json.IsRepresentable .names (namesJson ["s", "t"]) (namesJson ["t", "s", "t"]) :=
      .elements .names (by simp)
    exact @Rearranged.inField _ _ _ [_] _ _ _ _
      (.record (.of_name rfl List.mem_cons_self) (by simp [kindParts])) hnames
  have hlast : Rearranged Json.IsRepresentable .diagram
      (.object ((some "kind", .string (some "primary")) :: RawDiagram.primaryFields ["t", "s", "t"] [] []))
      operand :=
    .order (.record (.of_name rfl List.mem_cons_self)) (List.perm_append_singleton _ _).symm
  have hnote : Rearranged Json.IsRepresentable .diagram
      (.object ((some "kind", .string (some "compound")) :: compoundFields .negation [operand])) v :=
    .insert (.of_name rfl List.mem_cons_self) (by simp [kindParts]) .null
  have hsteps : Relation.ReflTransGen (Rearranged Json.IsRepresentable .diagram) x.toJson v :=
    ((Relation.ReflTransGen.single (inside hspiders)).tail (inside hlast)).tail hnote
  have hresult := @ofJsonText_of_rearranged x.toJson.text v.text d hread (by rw [hroot, hroot']; exact hsteps)
    (by rw [hroot']) (by rw [hroot']; exact hnesting)
  exact ⟨d, hread, hnesting, hresult.1⟩

/-- A value may be inserted only if it can be held: a number beyond double precision makes the text invalid. -/
theorem not_ofJsonText_of_rearranged :
    ¬ ∀ text text' d, ofJsonText text = .ok d →
      Relation.ReflTransGen (Rearranged (fun v => v.isWhole = true) .diagram) (Json.Document.ofText text).root
        (Json.Document.ofText text').root →
      (Json.Document.ofText text').isAlone = true → (Json.Document.ofText text').root.nesting ≤ 127 →
      ofJsonText text' = .ok d := by
  intro h
  let kind : Option String × Json := (some "kind", .string (some "primary"))
  let note : Option String × Json := (some "note", .number (.decimal 1 400))
  have hroot : Json.Document.ofText (Json.object [kind]).text = ⟨.object [kind], true⟩ :=
    Json.Document.ofText_text (.object _ (by simp [kind]) (by simpa [kind] using .string "primary"))
  have hroot' : Json.Document.ofText (Json.object [note, kind]).text = ⟨.object [note, kind], true⟩ := by
    refine Json.ReadsBack.ofText (Json.readsBack_object (by simp [note, kind]) ?_)
    simpa [note, kind] using
      ⟨Json.readsBack_exponent (by decide) 400, (Json.IsPlain.string "primary").readsBack⟩
  have hread : ofJsonText (Json.object [kind]).text = .ok (.primary .blank) :=
    ofJsonText_negationsJson (k := 0) (by decide)
  have hinsert : Rearranged (fun v => v.isWhole = true) .diagram (.object [kind]) (.object [note, kind]) :=
    .insert (.of_name rfl List.mem_cons_self) (by simp [kindParts]) rfl
  have hread' := h _ (Json.object [note, kind]).text _ hread (by rw [hroot, hroot']; exact .single hinsert)
    (by rw [hroot']) (by rw [hroot']; decide)
  have hheld := isHoldable_of_readDiagram (readText_eq_ok_iff.mp hread').1
  rw [hroot'] at hheld
  exact absurd hheld (by decide)

end SpiderDiagrams.Diagram
