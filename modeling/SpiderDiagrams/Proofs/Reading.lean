import SpiderDiagrams.Proofs.Building
import SpiderDiagrams.Proofs.Kinds

/-!
# Reading raw diagrams

Reading what is written for a raw diagram does what building the raw diagram does, as long as there is room
for the nesting. Without that room it fails, whatever the diagram.
-/
namespace SpiderDiagrams.Interchange

variable {α γ κ : Type} {room : Nat}

/-! ## Arrays -/

theorem readAll_eq_mapM (item : Json → Except ReadError α) (items : List Json) :
    readAll item items = items.mapM item := by
  induction items with
  | nil => rfl
  | cons v vs ih => rw [readAll, ih, List.mapM_cons]

theorem readArray_map {xs : List γ} {f : γ → Json} {item : Nat → Json → Except ReadError α}
    {build : γ → Except DiagramError α}
    (h : ∀ c ∈ xs, ∀ room, (f c).nesting ≤ room → item room (f c) = (build c).mapError .diagram)
    (hroom : (Json.array (xs.map f)).nesting ≤ room) :
    readArray item room (.array (xs.map f)) = (xs.mapM build).mapError .diagram := by
  cases room with
  | zero => cases hroom
  | succ room =>
    rw [Json.nesting_array_le_iff, List.forall_mem_map] at hroom
    rw [readArray, readItems, readAll_eq_mapM]
    exact mapM_map_mapError fun c hc => h c hc room (hroom c hc)

theorem readNames_namesJson {names : List String} (hroom : (namesJson names).nesting ≤ room) :
    readNames room (namesJson names) = .ok (.ofList names) := by
  have hread : readArray (fun _ => readString) room (namesJson names) =
      (names.mapM (m := Except DiagramError) fun name => pure (id name)).mapError .diagram :=
    readArray_map (fun _ _ _ _ => rfl) hroom
  rw [List.mapM_pure, List.map_id, namesJson] at hread
  rw [namesJson, readNames, hread]
  rfl

/-! ## Zones and regions -/

/-- The fields of a zone in the order in which they are written. -/
theorem readContent_zone (inside outside : Json) :
    zoneFormat.readContent room
        (.fields [(some "in_contours", inside), (some "out_contours", outside)]) =
      (do
        let inside ← readNames room inside
        let outside ← readNames room outside
        (Zone.ofSides inside outside).mapError .diagram) := by
  simp only [RecordFormat.readContent, zoneFormat, fillByName, List.find?_cons, String.reduceEq,
    decide_true, decide_false, Option.isSome_none, Bool.false_eq_true, if_false, bind_assoc, pure_bind]
  rfl

theorem readZone_toJson {z : RawZone} (hroom : z.toJson.nesting ≤ room) :
    readZone room z.toJson = z.build.mapError .diagram := by
  cases room with
  | zero => cases hroom
  | succ room =>
    have hfields := Json.nesting_object_le_iff.mp hroom
    have hin := readNames_namesJson (hfields _ List.mem_cons_self)
    have hout := readNames_namesJson (hfields _ (List.mem_cons_of_mem _ List.mem_cons_self))
    show zoneFormat.readContent room (.fields _) = _
    rw [readContent_zone, hin, hout]
    rfl

theorem readRegion_toJson {r : RawRegion} (hroom : (RawRegion.toJson r).nesting ≤ room) :
    readRegion room (RawRegion.toJson r) = (RawRegion.build r).mapError .diagram := by
  have hread := readArray_map (fun z _ _ => readZone_toJson) hroom
  rw [RawRegion.toJson, readRegion, hread, RawRegion.build, mapError_bind]
  rfl

/-! ## Primary diagrams -/

theorem readHabitats_habitatsJson {habitats : List (String × RawRegion)}
    (hroom : (RawDiagram.habitatsJson habitats).nesting ≤ room) :
    readHabitats room (RawDiagram.habitatsJson habitats) =
      (habitats.mapM RawDiagram.buildHabitat).mapError .diagram >>= fun built =>
        .ok (.ofList built) := by
  cases room with
  | zero => cases hroom
  | succ room =>
    rw [RawDiagram.habitatsJson, Json.nesting_object_le_iff, List.forall_mem_map] at hroom
    have hread : ∀ h ∈ habitats, readHabitat room (some h.1, RawRegion.toJson h.2) =
        (RawDiagram.buildHabitat h).mapError .diagram := by
      intro h hh
      rw [readHabitat, readRegion_toJson (hroom h hh), RawDiagram.buildHabitat, mapError_bind]
      rfl
    rw [RawDiagram.habitatsJson, readHabitats, mapM_map_mapError hread]
    rfl

/-- The fields of a primary diagram in the order in which they are written. -/
theorem readContent_primary (spiders habitats shaded : Json) :
    primaryFormat.readContent room
        (.fields [(some "spiders", spiders), (some "habitats", habitats), (some "shaded_zones", shaded)]) =
      (do
        let spiders ← readNames room spiders
        let habitats ← readHabitats room habitats
        let shaded ← readRegion room shaded
        (Primary.ofParts spiders habitats shaded).mapError .diagram) := by
  simp only [RecordFormat.readContent, primaryFormat, fillByName, List.find?_cons, String.reduceEq,
    decide_true, decide_false, Option.isSome_none, Bool.false_eq_true, if_false, bind_assoc, pure_bind]
  rfl

theorem readContent_primaryFields {spiders : List String} {habitats : List (String × RawRegion)}
    {shaded : RawRegion}
    (hroom : ∀ f ∈ RawDiagram.primaryFields spiders habitats shaded, f.2.nesting ≤ room) :
    primaryFormat.readContent room (.fields (RawDiagram.primaryFields spiders habitats shaded)) =
      (RawDiagram.buildPrimary spiders habitats shaded).mapError .diagram := by
  simp only [RawDiagram.primaryFields, List.forall_mem_cons] at hroom
  obtain ⟨hspiders, hhabitats, hshaded, -⟩ := hroom
  rw [RawDiagram.primaryFields, readContent_primary, readNames_namesJson hspiders,
    readHabitats_habitatsJson hhabitats, readRegion_toJson hshaded, RawDiagram.buildPrimary]
  cases habitats.mapM RawDiagram.buildHabitat with
  | error e => rfl
  | ok built => cases RawRegion.build shaded <;> rfl

/-! ## Compounds -/

theorem readOperator_toJson (held : Bool) (op : Operator) : readOperator held room op.toJson = .ok op := by
  rcases op with _ | c
  · rfl
  · cases c <;> rfl

/-- The fields of a compound in the order in which they are written. -/
theorem readContent_compoundFields (held : Bool)
    (readOperands : Nat → Json → Except ReadError (List Diagram)) (op : Operator) (operands : List Json) :
    (compoundFormat held readOperands).readContent room (.fields (Diagram.compoundFields op operands)) =
      (do
        let operands ← readOperands room (.array operands)
        (Diagram.compound op operands).mapError .diagram) := by
  simp only [RecordFormat.readContent, compoundFormat, Diagram.compoundFields, fillByName,
    readOperator_toJson, List.find?_cons, String.reduceEq, decide_true, decide_false, Option.isSome_none,
    Bool.false_eq_true, if_false, bind_assoc, pure_bind]
  rfl

/-! ## Diagrams -/

/-- The operands of a compound are an array in it, read as any other array. -/
theorem readDiagram_succ (held : Bool) (room : Nat) (v : Json) :
    readDiagram held (room + 1) v =
      (do
        let (kind, content) ← takeKind diagramKinds held room v
        match kind with
        | .null => readNull content
        | .primary => return .primary (← primaryFormat.readContent room content)
        | .compound =>
          (compoundFormat true fun _ => readArray (readDiagram true) room).readContent room content) := by
  rw [readDiagram.eq_def]
  dsimp only
  cases takeKind diagramKinds held room v with
  | error e => rfl
  | ok taken =>
    obtain ⟨kind, content⟩ := taken
    cases kind with
    | null => rfl
    | primary => rfl
    | compound => cases room <;> rfl

end SpiderDiagrams.Interchange

namespace SpiderDiagrams.RawDiagram

open Interchange

variable {room : Nat}

def kind : RawDiagram → DiagramKind
  | null => .null
  | primary .. => .primary
  | compound .. => .compound

/-- The fields besides the kind. -/
def fields : RawDiagram → List (Option String × Json)
  | null => []
  | primary spiders habitats shaded => primaryFields spiders habitats shaded
  | compound op operands => Diagram.compoundFields op (toJsons operands)

theorem areHoldableFields_fields (x : RawDiagram) :
    Json.areHoldableFields room x.fields = true ↔ x.toJson.nesting ≤ room + 1 := by
  rw [← x.isPlain_toJson.isHoldable_iff]
  cases x <;>
    simp [toJson, fields, Json.isHoldable, Json.areHoldableFields]

theorem takeKind_toJson (held : Bool) (x : RawDiagram) :
    takeKind diagramKinds held room x.toJson =
      if x.toJson.nesting ≤ room + 1 then .ok (x.kind, .fields x.fields) else .error .invalid := by
  simp only [← areHoldableFields_fields]
  cases x with
  | null => exact takeKind_of_first held rfl (by simp)
  | primary spiders habitats shaded => exact takeKind_of_first held rfl (by simp [primaryFields])
  | compound op operands => exact takeKind_of_first held rfl (by simp [Diagram.compoundFields])

theorem readDiagram_eq_invalid (held : Bool) {x : RawDiagram} (hroom : room < x.toJson.nesting) :
    readDiagram held room x.toJson = .error .invalid := by
  cases room with
  | zero => rfl
  | succ room =>
    rw [readDiagram_succ, takeKind_toJson, if_neg (Nat.not_le_of_lt hroom)]
    rfl

theorem nesting_fields_le (x : RawDiagram) (hroom : x.toJson.nesting ≤ room + 1) :
    ∀ f ∈ x.fields, f.2.nesting ≤ room := by
  cases x with
  | null => simp [fields]
  | primary spiders habitats shaded =>
    exact (List.forall_mem_cons.mp (Json.nesting_object_le_iff.mp hroom)).2
  | compound op operands =>
    exact (List.forall_mem_cons.mp (Json.nesting_object_le_iff.mp hroom)).2

/-- With room for the nesting, reading does what building does. -/
theorem readDiagram_eq_build (held : Bool) (x : RawDiagram) (hroom : x.toJson.nesting ≤ room) :
    readDiagram held room x.toJson = x.build.mapError .diagram := by
  induction x using induct generalizing held room with
  | null =>
    cases room with
    | zero => cases hroom
    | succ room =>
      rw [readDiagram_succ, takeKind_toJson, if_pos hroom]
      rfl
  | primary spiders habitats shaded =>
    cases room with
    | zero => cases hroom
    | succ room =>
      have hread := readContent_primaryFields (nesting_fields_le _ hroom)
      rw [readDiagram_succ, takeKind_toJson, if_pos hroom]
      show (primaryFormat.readContent room (.fields (primaryFields spiders habitats shaded)) >>= _) = _
      rw [hread, build, mapError_bind]
      rfl
  | compound op operands ih =>
    cases room with
    | zero => cases hroom
    | succ room =>
      have hfields := nesting_fields_le _ hroom
      simp only [fields, Diagram.compoundFields, toJsons_eq_map, List.forall_mem_cons] at hfields
      have hread := readArray_map (fun x hx room hroom => ih x hx true hroom) hfields.2.1
      rw [readDiagram_succ, takeKind_toJson, if_pos hroom]
      show RecordFormat.readContent _ room (.fields (Diagram.compoundFields op (toJsons operands))) = _
      rw [readContent_compoundFields, toJsons_eq_map, hread, build, buildAll_eq_mapM, mapError_bind]

end SpiderDiagrams.RawDiagram
