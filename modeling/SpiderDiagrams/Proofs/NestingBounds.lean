import SpiderDiagrams.Proofs.RoundTrip

/-!
# How deep the text of what was read nests

A text may leave out the parts of a zone and of a primary diagram, and the text written for them has them as
empty lists. So what is written for a diagram that was read nests at most one deeper than the text that it
was read from, and that text nests no deeper than there is room.
-/
namespace SpiderDiagrams

variable {α δ κ : Type} {room n : Nat} {v : Json}

/-! ## What is written -/

theorem nesting_namesToJson_le (names : SortedSet String) : (namesToJson names).nesting ≤ 1 := by
  rw [namesToJson, Json.nesting_array_le_iff, List.forall_mem_map]
  exact fun name _ => Nat.le_refl 0

theorem Zone.nesting_toJson_le (z : Zone) : z.toJson.nesting ≤ 2 := by
  rw [toJson, Json.nesting_object_le_iff, List.forall_mem_cons, List.forall_mem_singleton]
  exact ⟨nesting_namesToJson_le z.inside, nesting_namesToJson_le z.outside⟩

theorem Region.nesting_toJson_le (r : Region) : (toJson r).nesting ≤ 3 := by
  rw [toJson, Json.nesting_array_le_iff, List.forall_mem_map]
  exact fun z _ => z.nesting_toJson_le

namespace Diagram

theorem nesting_toJson_negation (d : Diagram) : (negation d).toJson.nesting = d.toJson.nesting + 2 := by
  simp [toJson, compoundFields, Json.nesting, Json.nestingOfFields, Json.nestingOfItems, Operator.toJson]

theorem nesting_toJson_binary (c : Connective) (l r : Diagram) :
    (binary c l r).toJson.nesting = max l.toJson.nesting r.toJson.nesting + 2 := by
  simp [toJson, compoundFields, Json.nesting, Json.nestingOfFields, Json.nestingOfItems, Operator.toJson]

theorem toJson_compound {op : Operator} {operands : List Diagram} {d : Diagram}
    (h : compound op operands = .ok d) :
    d.toJson = .object ((some "kind", .string (some "compound")) ::
      compoundFields op (operands.map toJson)) := by
  unfold compound at h
  split at h
  · cases h
    rfl
  · cases h
    rfl
  · cases h

/-- The operands stand in an array in the object of the compound. -/
theorem nesting_toJson_compound_le_iff {op : Operator} {operands : List Diagram} {d : Diagram}
    (h : compound op operands = .ok d) :
    d.toJson.nesting ≤ n + 2 ↔ ∀ operand ∈ operands, operand.toJson.nesting ≤ n := by
  rw [toJson_compound h, Json.nesting_object_le_iff, compoundFields]
  simp only [List.forall_mem_cons, Json.nesting_array_le_iff, List.forall_mem_map]
  simp [Json.nesting, Operator.toJson]

end Diagram

namespace Interchange

/-! ## What records are read from -/

section Drafts

variable {slots : List (Slot δ)} {draft draft' : δ} {P : δ → Prop}

theorem fillByName_induct {fields : List (Option String × Json)}
    (h : fillByName slots draft fields = .ok draft') (start : P draft)
    (fill : ∀ slot ∈ slots, ∀ f ∈ fields, ∀ draft draft',
      P draft → slot.fill f.2 draft = .ok draft' → P draft') : P draft' := by
  induction fields generalizing draft with
  | nil =>
    cases h
    exact start
  | cons f fields ih =>
    obtain ⟨name, v⟩ := f
    have hlater : ∀ slot ∈ slots, ∀ f ∈ fields, ∀ draft draft',
        P draft → slot.fill f.2 draft = .ok draft' → P draft' :=
      fun slot hs f hf => fill slot hs f (List.mem_cons_of_mem _ hf)
    cases name with
    | none => cases h
    | some name =>
      rw [fillByName] at h
      split at h
      · rename_i slot hslot
        split at h
        · cases h
        · obtain ⟨next, hnext, h⟩ := bind_eq_ok_iff.mp h
          exact ih h (fill slot (List.mem_of_find?_eq_some hslot) _ List.mem_cons_self _ _ start hnext) hlater
      · split at h
        · exact ih h start hlater
        · cases h

theorem fillInOrder_induct {items : List Json} (h : fillInOrder slots draft items = .ok draft')
    (start : P draft)
    (fill : ∀ slot ∈ slots, ∀ v ∈ items, ∀ draft draft',
      P draft → slot.fill v draft = .ok draft' → P draft') : P draft' := by
  induction items generalizing slots draft with
  | nil =>
    cases slots <;> cases h <;> exact start
  | cons v items ih =>
    cases slots with
    | nil => cases h
    | cons slot slots =>
      obtain ⟨next, hnext, h⟩ := bind_eq_ok_iff.mp h
      refine ih h (fill slot List.mem_cons_self v List.mem_cons_self _ _ start hnext) ?_
      exact fun slot hs v hv => fill slot (List.mem_cons_of_mem _ hs) v (List.mem_cons_of_mem _ hv)

/-- A record is completed from a draft that has whatever the blank draft has and filling a slot with a value
of the record keeps. -/
theorem RecordFormat.exists_draft_of_readContent {format : RecordFormat δ α} {content : Content} {a : α}
    (h : format.readContent room content = .ok a) (blank : P format.blank)
    (fill : ∀ slot ∈ format.slots room, ∀ v ∈ content.values, ∀ draft draft',
      P draft → slot.fill v draft = .ok draft' → P draft') :
    ∃ missing draft, P draft ∧ format.complete missing draft = .ok a := by
  cases content with
  | fields fields =>
    obtain ⟨draft, hfill, h⟩ := bind_eq_ok_iff.mp h
    refine ⟨_, draft, fillByName_induct hfill blank fun slot hs f hf => ?_, h⟩
    exact fill slot hs f.2 (List.mem_map.mpr ⟨f, hf, rfl⟩)
  | items items =>
    obtain ⟨draft, hfill, h⟩ := bind_eq_ok_iff.mp h
    exact ⟨_, draft, fillInOrder_induct hfill blank fill, h⟩

end Drafts

theorem required_eq_ok_iff {missing : String → ReadError} {name : String} {part : Option α} {a : α} :
    required missing name part = .ok a ↔ part = some a := by
  cases part <;> simp [required]

theorem RecordFormat.nesting_pos_of_read {format : RecordFormat δ α} {a : α}
    (h : format.read room v = .ok a) : 0 < v.nesting := by
  unfold RecordFormat.read at h
  split at h
  · exact Nat.succ_pos _
  · exact Nat.succ_pos _
  · cases h

theorem readArray_eq_ok_iff {item : Nat → Json → Except ReadError α} {as : List α} :
    readArray item room v = .ok as ↔
      ∃ room' items, room = room' + 1 ∧ v = .array items ∧ items.mapM (item room') = .ok as := by
  cases room with
  | zero => simp [readArray]
  | succ room =>
    cases v with
    | array items => simp [readArray, readItems, readAll_eq_mapM]
    | _ => simp [readArray, readItems]

/-! ## Regions and habitats -/

theorem nesting_toJson_le_of_readRegion {r : Region} (h : readRegion room v = .ok r) :
    (Region.toJson r).nesting ≤ v.nesting + 1 := by
  obtain ⟨zones, hzones, hr⟩ := bind_eq_ok_iff.mp h
  obtain ⟨room', items, rfl, rfl, hitems⟩ := readArray_eq_ok_iff.mp hzones
  cases hr
  cases items with
  | nil =>
    cases hitems
    decide
  | cons item items =>
    -- Already the first zone takes two nestings, of the four that are left for the region.
    rw [List.mapM_cons] at hitems
    obtain ⟨z, hz, -⟩ := bind_eq_ok_iff.mp hitems
    have hitem := zoneFormat.nesting_pos_of_read hz
    have hle : item.nesting ≤ Json.nestingOfItems (item :: items) :=
      Json.nesting_le_nestingOfItems List.mem_cons_self
    have hregion := Region.nesting_toJson_le (.ofList zones)
    rw [Json.nesting]
    omega

theorem eq_of_readHabitat {room : Nat} {f : Option String × Json} {e : String × Region}
    (h : readHabitat room f = .ok e) : f.1 = some e.1 ∧ readRegion room f.2 = .ok e.2 := by
  obtain ⟨_ | spider, v⟩ := f
  · cases h
  · obtain ⟨r, hr, heq⟩ := bind_eq_ok_iff.mp h
    cases heq
    exact ⟨rfl, hr⟩

theorem nesting_habitats_le_of_readHabitats {habitats : SortedMap String Region}
    (h : readHabitats room v = .ok habitats) (hv : v.nesting ≤ n) :
    (Json.object (habitats.entries.map fun e => (some e.1, Region.toJson e.2))).nesting ≤ n + 1 := by
  rw [Json.nesting_object_le_iff, List.forall_mem_map]
  intro e he
  unfold readHabitats at h
  split at h
  · rename_i room fields
    obtain ⟨built, hbuilt, hhabitats⟩ := bind_eq_ok_iff.mp h
    cases hhabitats
    obtain ⟨f, hf, hread⟩ := exists_of_mem_mapM hbuilt (SortedMap.mem_of_mem_ofList he)
    obtain ⟨-, hr⟩ := eq_of_readHabitat hread
    have hf : f.2.nesting ≤ Json.nestingOfFields fields := Json.nesting_le_nestingOfFields hf
    have hregion := nesting_toJson_le_of_readRegion hr
    rw [Json.nesting] at hv
    show (Region.toJson e.2).nesting ≤ n
    omega
  · cases h

/-! ## Primary diagrams -/

/-- Whatever a draft has so far is written without nesting deeper. -/
structure PrimaryDraft.NestsIn (n : Nat) (draft : PrimaryDraft) : Prop where
  habitats : ∀ habitats, draft.habitats = some habitats →
    (Json.object (habitats.entries.map fun e => (some e.1, Region.toJson e.2))).nesting ≤ n
  shaded : ∀ shaded, draft.shaded = some shaded → (Region.toJson shaded).nesting ≤ n

theorem PrimaryDraft.nestsIn_of_fill {draft draft' : PrimaryDraft} (h : draft.NestsIn (n + 1))
    (hv : v.nesting ≤ n) {slot : Slot PrimaryDraft} (hs : slot ∈ primaryFormat.slots room)
    (hfill : slot.fill v draft = .ok draft') : draft'.NestsIn (n + 1) := by
  simp only [primaryFormat, List.mem_cons, List.not_mem_nil, or_false] at hs
  rcases hs with rfl | rfl | rfl
  · obtain ⟨spiders, -, hdraft⟩ := bind_eq_ok_iff.mp hfill
    cases hdraft
    exact ⟨h.habitats, h.shaded⟩
  · obtain ⟨habitats, hhabitats, hdraft⟩ := bind_eq_ok_iff.mp hfill
    cases hdraft
    refine ⟨fun _ heq => ?_, h.shaded⟩
    cases heq
    exact nesting_habitats_le_of_readHabitats hhabitats hv
  · obtain ⟨shaded, hshaded, hdraft⟩ := bind_eq_ok_iff.mp hfill
    cases hdraft
    refine ⟨h.habitats, fun _ heq => ?_⟩
    cases heq
    exact Nat.le_trans (nesting_toJson_le_of_readRegion hshaded) (Nat.add_le_add_right hv 1)

theorem nesting_fields_le_of_readContent {content : Content} {p : Primary}
    (h : primaryFormat.readContent room content = .ok p) (hv : ∀ v ∈ content.values, v.nesting ≤ n) :
    ∀ f ∈ p.fields, f.2.nesting ≤ n + 1 := by
  have hblank : primaryFormat.blank.NestsIn (n + 1) := by
    constructor <;> intro _ heq <;> cases heq
  obtain ⟨missing, draft, hdraft, hcomplete⟩ := primaryFormat.exists_draft_of_readContent h hblank
    fun slot hs v hmem draft draft' hd hfill => PrimaryDraft.nestsIn_of_fill hd (hv v hmem) hs hfill
  have hp : Primary.ofParts (draft.spiders.getD ∅) (draft.habitats.getD ∅) (draft.shaded.getD ∅) =
      .ok p := mapError_eq_ok_iff.mp hcomplete
  obtain ⟨-, hhabitats, hshaded⟩ := Primary.parts_of_ofParts hp
  rw [Primary.fields, List.forall_mem_cons, List.forall_mem_cons, List.forall_mem_singleton,
    hhabitats, hshaded]
  refine ⟨Nat.le_trans (nesting_namesToJson_le p.spiders) (Nat.le_add_left 1 n), ?_, ?_⟩
  · cases hd : draft.habitats with
    | none => exact Nat.le_add_left 1 n
    | some habitats => exact hdraft.habitats habitats hd
  · cases hd : draft.shaded with
    | none => exact Nat.le_add_left 1 n
    | some shaded => exact hdraft.shaded shaded hd

/-! ## Compounds -/

/-- Whatever operands a draft has so far are written without nesting deeper. -/
def CompoundDraft.NestsIn (n : Nat) (draft : CompoundDraft) : Prop :=
  ∀ operands, draft.operands = some operands → ∀ operand ∈ operands, operand.toJson.nesting ≤ n

section Operands

variable {held : Bool} {readOperands : Nat → Json → Except ReadError (List Diagram)}

theorem CompoundDraft.nestsIn_of_fill {draft draft' : CompoundDraft} (h : draft.NestsIn n)
    (hv : ∀ operands, readOperands room v = .ok operands →
      ∀ operand ∈ operands, operand.toJson.nesting ≤ n)
    {slot : Slot CompoundDraft} (hs : slot ∈ (compoundFormat held readOperands).slots room)
    (hfill : slot.fill v draft = .ok draft') : draft'.NestsIn n := by
  simp only [compoundFormat, List.mem_cons, List.not_mem_nil, or_false] at hs
  rcases hs with rfl | rfl
  · obtain ⟨op, -, hdraft⟩ := bind_eq_ok_iff.mp hfill
    cases hdraft
    exact h
  · obtain ⟨operands, hoperands, hdraft⟩ := bind_eq_ok_iff.mp hfill
    cases hdraft
    intro _ heq
    cases heq
    exact hv operands hoperands

theorem nesting_toJson_le_of_readContent {content : Content} {d : Diagram}
    (h : (compoundFormat held readOperands).readContent room content = .ok d)
    (hv : ∀ v ∈ content.values, ∀ operands, readOperands room v = .ok operands →
      ∀ operand ∈ operands, operand.toJson.nesting ≤ n) :
    d.toJson.nesting ≤ n + 2 := by
  have hblank : (compoundFormat held readOperands).blank.NestsIn n := by
    intro _ heq
    cases heq
  obtain ⟨missing, draft, hdraft, hcomplete⟩ :=
    (compoundFormat held readOperands).exists_draft_of_readContent h hblank
      fun slot hs v hmem draft draft' hd hfill => CompoundDraft.nestsIn_of_fill hd (hv v hmem) hs hfill
  obtain ⟨op, -, hcomplete⟩ := bind_eq_ok_iff.mp hcomplete
  obtain ⟨operands, hoperands, hcomplete⟩ := bind_eq_ok_iff.mp hcomplete
  have hd : Diagram.compound op operands = .ok d := mapError_eq_ok_iff.mp hcomplete
  rw [Diagram.nesting_toJson_compound_le_iff hd]
  exact hdraft operands (required_eq_ok_iff.mp hoperands)

end Operands

/-! ## Kinds -/

variable {kinds : List (String × κ)} {held : Bool} {kind : κ}

/-- All that a value holds besides its kind is one nesting further in. -/
theorem takeKind_ok {content : Content} (h : takeKind kinds held room v = .ok (kind, content)) :
    ∃ n ≤ room, v.nesting = n + 1 ∧ ∀ w ∈ content.values, w.nesting ≤ n := by
  have hnesting := Json.nesting_le_of_isHoldable (isHoldable_of_takeKind h).1
  cases v with
  | object fields =>
    obtain ⟨rfl, -⟩ := takeKind_object_ok h
    refine ⟨Json.nestingOfFields fields, Nat.le_of_succ_le_succ hnesting, rfl, ?_⟩
    rw [Content.values, List.forall_mem_map]
    exact fun f hf => Json.nesting_le_nestingOfFields (List.mem_filter.mp hf).1
  | array items =>
    cases items with
    | nil => cases h
    | cons first items =>
      obtain ⟨rfl, -, -⟩ := takeKind_array_eq_ok_iff.mp h
      refine ⟨Json.nestingOfItems (first :: items), Nat.le_of_succ_le_succ hnesting, rfl, ?_⟩
      exact fun w hw => Json.nesting_le_nestingOfItems (List.mem_cons_of_mem _ hw)
  | _ => cases h

/-! ## Diagrams -/

/-- What is written for a diagram nests at most one deeper than the value it was read from. -/
theorem nesting_of_readDiagram {d : Diagram} (h : readDiagram held room v = .ok d) :
    v.nesting ≤ room ∧ d.toJson.nesting ≤ v.nesting + 1 := by
  induction room using Nat.strongRecOn generalizing held v d with
  | ind room ih =>
  cases room with
  | zero => cases h
  | succ room =>
    rw [readDiagram_succ] at h
    obtain ⟨⟨kind, content⟩, hkind, h⟩ := bind_eq_ok_iff.mp h
    obtain ⟨n, hn, hv, hcontent⟩ := takeKind_ok hkind
    refine ⟨by omega, ?_⟩
    rw [hv]
    cases kind with
    | null =>
      have hd : d.toJson.nesting = 1 := by
        cases content with
        | fields named =>
          cases h
          rfl
        | items ordered =>
          cases ordered <;> cases h
          rfl
      omega
    | primary =>
      obtain ⟨p, hp, h⟩ := bind_eq_ok_iff.mp h
      cases h
      rw [Diagram.toJson, Json.nesting_object_le_iff, List.forall_mem_cons]
      exact ⟨Nat.zero_le _, nesting_fields_le_of_readContent hp hcontent⟩
    | compound =>
      refine nesting_toJson_le_of_readContent h fun w hw operands hread operand hmem => ?_
      obtain ⟨room', items, rfl, rfl, hitems⟩ := readArray_eq_ok_iff.mp hread
      obtain ⟨item, hitem, hread⟩ := exists_of_mem_mapM hitems hmem
      have hwritten : operand.toJson.nesting ≤ item.nesting + 1 := (ih room' (by omega) hread).2
      have hinside : item.nesting ≤ Json.nestingOfItems items :=
        Json.nesting_le_nestingOfItems hitem
      have harray : Json.nestingOfItems items + 1 ≤ n := hcontent _ hw
      omega

theorem readText_eq_ok_iff {read : Json → Except ReadError α} {text : String} {a : α} :
    readText read text = .ok a ↔
      read (Json.Document.ofText text).root = .ok a ∧ (Json.Document.ofText text).isAlone = true := by
  unfold readText
  rw [bind_eq_ok_iff]
  cases (Json.Document.ofText text).isAlone <;> simp [pure, Except.pure]

end Interchange

theorem Diagram.nesting_of_ofJsonText {d : Diagram} {text : String} (h : ofJsonText text = .ok d) :
    (Json.Document.ofText text).root.nesting ≤ Interchange.nestingLimit ∧
      d.toJson.nesting ≤ (Json.Document.ofText text).root.nesting + 1 :=
  Interchange.nesting_of_readDiagram (Interchange.readText_eq_ok_iff.mp h).1

/-! ## Texts of which the written ones nest deeper -/

/-- Negations around a primary diagram all parts of which are left out. -/
def negationsJson : Nat → Json
  | 0 => .object [(some "kind", .string (some "primary"))]
  | k + 1 =>
    .object ((some "kind", .string (some "compound")) ::
      Diagram.compoundFields .negation [negationsJson k])

theorem isPlain_negationsJson (k : Nat) : (negationsJson k).IsPlain := by
  induction k with
  | zero => exact .object _ (by simp) (by simpa using .string "primary")
  | succ k ih =>
    have hoperands : (Json.array [negationsJson k]).IsPlain := .array _ (by simpa using ih)
    refine .object _ (by simp [Diagram.compoundFields]) ?_
    simpa [Diagram.compoundFields] using ⟨.string "compound", .string (Operator.key .negation), hoperands⟩

theorem nesting_negationsJson (k : Nat) : (negationsJson k).nesting = 2 * k + 1 := by
  induction k with
  | zero => rfl
  | succ k ih =>
    simp only [negationsJson, Diagram.compoundFields, Operator.toJson, Json.nesting, Json.nestingOfFields,
      Json.nestingOfItems, ih]
    omega

theorem nesting_toJson_negations (k : Nat) :
    (Nat.repeat Diagram.negation k (.primary .blank)).toJson.nesting = 2 * k + 2 := by
  induction k with
  | zero => decide
  | succ k ih =>
    rw [Nat.repeat, Diagram.nesting_toJson_negation, ih]
    omega

namespace Interchange

theorem readDiagram_negation (held : Bool) {room : Nat} {v : Json} (hv : v.isHoldable room = true) :
    readDiagram held (room + 2) (.object ((some "kind", .string (some "compound")) ::
        Diagram.compoundFields .negation [v])) =
      readDiagram true room v >>= fun d => .ok (.negation d) := by
  have hheld : Json.areHoldableFields (room + 1) (Diagram.compoundFields .negation [v]) = true := by
    simp [Diagram.compoundFields, Operator.toJson, Json.areHoldableFields, Json.areHoldable,
      Json.isHoldable, hv]
  rw [readDiagram_succ, takeKind_of_first held rfl (by simp [Diagram.compoundFields]), if_pos hheld]
  show RecordFormat.readContent _ (room + 1) (.fields (Diagram.compoundFields .negation [v])) = _
  rw [readContent_compoundFields, readArray, readItems, readAll, readAll]
  cases readDiagram true room v <;> rfl

theorem readDiagram_negationsJson (held : Bool) (k : Nat) {room : Nat} (h : 2 * k + 1 ≤ room) :
    readDiagram held room (negationsJson k) = .ok (Nat.repeat Diagram.negation k (.primary .blank)) := by
  induction k generalizing held room with
  | zero =>
    obtain ⟨room, rfl⟩ := Nat.exists_eq_add_of_le h
    rw [Nat.add_comm, readDiagram_succ]
    rfl
  | succ k ih =>
    obtain ⟨room, rfl⟩ := Nat.exists_eq_add_of_le' (m := 2) (show 2 ≤ room by omega)
    have hv : (negationsJson k).isHoldable room = true := by
      rw [(isPlain_negationsJson k).isHoldable_iff, nesting_negationsJson]
      omega
    rw [negationsJson, readDiagram_negation held hv, ih true (by omega)]
    rfl

end Interchange

theorem ofJsonText_negationsJson {k : Nat} (h : 2 * k + 1 ≤ Interchange.nestingLimit) :
    Diagram.ofJsonText (negationsJson k).text = .ok (Nat.repeat Diagram.negation k (.primary .blank)) := by
  rw [Diagram.ofJsonText, Interchange.readText_text (isPlain_negationsJson k)]
  exact Interchange.readDiagram_negationsJson false k h

end SpiderDiagrams
