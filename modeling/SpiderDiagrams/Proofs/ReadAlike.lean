import SpiderDiagrams.Proofs.FieldOrder
import SpiderDiagrams.Proofs.NestingBounds

/-!
# Values that are read alike

One value is read as another if, wherever it can be held, it gives whatever the other one gives. So it is with
arrays of the same elements where a set is read, with the habitats of different spiders in another order, and
with records that have the same fields of their own, in whatever order and among whatever other fields. A part
of any of them may be replaced by one that is read as it.
-/
namespace SpiderDiagrams.Interchange

variable {α δ κ : Type}

/-! ## The parts of a diagram -/

/-- The parts of a diagram in which something may be rearranged. -/
inductive Part where
  | diagram
  | operands
  | habitats
  | region
  | zone
  | names

/-- The fields of a zone in the order of its array form, each with the part that stands in it. -/
def zoneParts : List (String × Option Part) :=
  [("in_contours", some .names), ("out_contours", some .names)]

/-- The fields of a diagram besides its kind. -/
def kindParts : DiagramKind → List (String × Option Part)
  | .null => []
  | .primary => [("spiders", some .names), ("habitats", some .habitats), ("shaded_zones", some .region)]
  | .compound => [("operator", none), ("operands", some .operands)]

/-- Some field `kind` of an object, or the first item of an array, is the kind. -/
inductive HasKind : Json → DiagramKind → Prop
  | field {fields : List (Option String × Json)} {v : Json} {kind : DiagramKind}
      (mem : (some "kind", v) ∈ fields) (read : readKind diagramKinds true v = .ok kind) :
      HasKind (.object fields) kind
  | item {items : List Json} {v : Json} {kind : DiagramKind} (read : readKind diagramKinds true v = .ok kind) :
      HasKind (.array (v :: items)) kind

/-! ## Arrays, sets and habitats -/

/-- Wherever the second value can be held, it is read as whatever the first one is read as. -/
def IsReadAs (read : Nat → Json → Except ReadError α) (v v' : Json) : Prop :=
  ∀ {room a}, v'.isHoldable room = true → read room v = .ok a → read room v' = .ok a

def Part.IsReadAs : Part → Json → Json → Prop
  | diagram => fun v v' => ∀ held, Interchange.IsReadAs (readDiagram held) v v'
  | operands => Interchange.IsReadAs (readArray (readDiagram true))
  | habitats => Interchange.IsReadAs readHabitats
  | region => Interchange.IsReadAs readRegion
  | zone => Interchange.IsReadAs readZone
  | names => Interchange.IsReadAs readNames

section Arrays

variable {item : Nat → Json → Except ReadError α} {items items' before after : List Json} {v v' : Json}

theorem IsReadAs.array (h : IsReadAs item v v') :
    IsReadAs (readArray item) (.array (before ++ v :: after)) (.array (before ++ v' :: after)) := by
  intro room as hheld hread
  obtain ⟨room, items, rfl, heq, hread⟩ := readArray_eq_ok_iff.mp hread
  cases heq
  rw [Json.isHoldable_array_iff] at hheld
  have hv' : v'.isHoldable room = true := hheld v' (by simp)
  exact readArray_eq_ok_iff.mpr ⟨room, _, rfl, rfl, mapM_replace (fun _ => h hv') hread⟩

variable [Ordered α]

/-- The set of the items of an array. -/
def readSet (item : Nat → Json → Except ReadError α) (room : Nat) (v : Json) : Except ReadError (SortedSet α) := do
  return .ofList (← readArray item room v)

theorem readNames_eq_readSet : readNames = readSet fun _ => readString := rfl

theorem readRegion_eq_readSet : readRegion = readSet readZone := rfl

theorem IsReadAs.set (h : IsReadAs item v v') :
    IsReadAs (readSet item) (.array (before ++ v :: after)) (.array (before ++ v' :: after)) := by
  intro room s hheld hread
  obtain ⟨as, has, heq⟩ := bind_eq_ok_iff.mp hread
  exact bind_eq_ok_iff.mpr ⟨as, h.array hheld has, heq⟩

/-- A set has its elements in no order and once only. -/
theorem isReadAs_set_of_mem_iff (same : ∀ v, v ∈ items ↔ v ∈ items') :
    IsReadAs (readSet item) (.array items) (.array items') := by
  intro room s _ hread
  obtain ⟨as, has, heq⟩ := bind_eq_ok_iff.mp hread
  cases heq
  obtain ⟨room, items, rfl, heq, has⟩ := readArray_eq_ok_iff.mp has
  cases heq
  obtain ⟨as', has', hmem⟩ := exists_mapM_of_mem_iff same has
  refine bind_eq_ok_iff.mpr ⟨as', readArray_eq_ok_iff.mpr ⟨room, items', rfl, rfl, has'⟩, ?_⟩
  exact congrArg Except.ok (SortedSet.ofList_eq_ofList_iff.mpr fun a => (hmem a).symm)

end Arrays

section Habitats

variable {fields fields' before after : List (Option String × Json)} {spider : Option String} {v v' : Json}

theorem IsReadAs.habitats (h : IsReadAs readRegion v v') :
    IsReadAs readHabitats (.object (before ++ (spider, v) :: after))
      (.object (before ++ (spider, v') :: after)) := by
  intro room habitats hheld hread
  cases room with
  | zero => cases hread
  | succ room =>
    obtain ⟨entries, hentries, heq⟩ := bind_eq_ok_iff.mp hread
    rw [Json.isHoldable_object_iff] at hheld
    have hv' : v'.isHoldable room = true := (hheld (spider, v') (by simp)).2
    refine bind_eq_ok_iff.mpr ⟨entries, mapM_replace (fun e he => ?_) hentries, heq⟩
    obtain ⟨hspider, hregion⟩ := eq_of_readHabitat he
    cases hspider
    exact bind_eq_ok_iff.mpr ⟨e.2, h hv' hregion, rfl⟩

/-- The habitats of different spiders may stand in any order. -/
theorem isReadAs_habitats_of_perm (distinct : (fields.map (·.1)).Nodup) (perm : fields.Perm fields') :
    IsReadAs readHabitats (.object fields) (.object fields') := by
  intro room habitats _ hread
  cases room with
  | zero => cases hread
  | succ room =>
    obtain ⟨entries, hentries, heq⟩ := bind_eq_ok_iff.mp hread
    cases heq
    obtain ⟨entries', hentries', hperm⟩ := exists_mapM_of_perm perm hentries
    have hnames : entries.map (fun e => some e.1) = fields.map (·.1) :=
      map_eq_of_mapM (fun f e he => (eq_of_readHabitat he).1.symm) hentries
    have hdistinct : (entries.map (·.1)).Nodup := by
      rw [← hnames, ← Function.comp_def some, ← List.map_map] at distinct
      exact List.Pairwise.of_map some (fun _ _ => mt (congrArg some)) distinct
    refine bind_eq_ok_iff.mpr ⟨entries', hentries', ?_⟩
    exact congrArg Except.ok (SortedMap.ofList_eq_of_perm hperm hdistinct).symm

end Habitats

/-! ## Records -/

namespace Content

/-- A rearrangement of the content of a record, or of a part in it that is read alike. -/
inductive Rearranged (parts : List (String × Option Part)) : Content → Content → Prop
  | perm {named named' : List (Option String × Json)} (h : named.Perm named') :
      Rearranged parts (fields named) (fields named')
  | insert {named : List (Option String × Json)} {name : String} {v : Json}
      (other : name ∉ parts.map (·.1)) : Rearranged parts (fields named) (fields ((some name, v) :: named))
  | field {before after : List (Option String × Json)} {name : String} {inner : Part} {v v' : Json}
      (own : (name, some inner) ∈ parts) (h : inner.IsReadAs v v') :
      Rearranged parts (fields (before ++ (some name, v) :: after))
        (fields (before ++ (some name, v') :: after))
  | item {before after : List Json} {name : String} {inner : Part} {v v' : Json}
      (own : parts[before.length]? = some (name, some inner)) (h : inner.IsReadAs v v') :
      Rearranged parts (items (before ++ v :: after)) (items (before ++ v' :: after))

end Content

/-- The slot is filled alike from values of the part that are read alike. -/
def Slot.IsFor (slot : Slot δ) (room : Nat) (part : Part) : Prop :=
  ∀ {v v'}, part.IsReadAs v v' → v'.isHoldable room = true →
    ∀ draft draft', slot.fill v draft = .ok draft' → slot.fill v' draft = .ok draft'

theorem Slot.isFor_of_put {slot : Slot δ} {room : Nat} {part : Part} {read : Nat → Json → Except ReadError α}
    {put : δ → α → δ} (hpart : ∀ {v v'}, part.IsReadAs v v' → Interchange.IsReadAs read v v')
    (hfill : ∀ v draft, slot.fill v draft = read room v >>= fun a => .ok (put draft a)) :
    slot.IsFor room part := by
  intro v v' h hheld draft draft' hv
  rw [hfill] at hv ⊢
  obtain ⟨a, ha, heq⟩ := bind_eq_ok_iff.mp hv
  exact bind_eq_ok_iff.mpr ⟨a, hpart h hheld ha, heq⟩

namespace RecordFormat

/-- The slots of the format are the fields with their parts. -/
structure HasParts (format : RecordFormat δ α) (room : Nat) (parts : List (String × Option Part)) : Prop where
  separate : AreSeparate (format.slots room)
  names : (format.slots room).map (·.name) = parts.map (·.1)
  slots : ∀ slot ∈ format.slots room, ∀ part, (slot.name, some part) ∈ parts → slot.IsFor room part

variable {format : RecordFormat δ α} {room : Nat} {parts : List (String × Option Part)}
  {content content' : Content}

theorem readContent_of_rearranged (hformat : format.HasParts room parts)
    (h : content.Rearranged parts content') (hheld : ∀ v ∈ content'.values, v.isHoldable room = true) {a : α}
    (hread : format.readContent room content = .ok a) : format.readContent room content' = .ok a := by
  cases h with
  | perm h => exact readContent_perm hformat.separate h hread
  | @insert named name v other =>
    have hv : v.isHoldable room = true := hheld v List.mem_cons_self
    have hname : ∀ slot ∈ format.slots room, slot.name ≠ name := by
      rintro slot hs rfl
      exact other (hformat.names ▸ List.mem_map_of_mem hs)
    rwa [readContent_cons_other hname (Json.isHoldable_iff.mp hv).1.isWhole]
  | @field before after name inner v v' own h =>
    have hv' : v'.isHoldable room = true := hheld v' (by simp [Content.values])
    refine readContent_replace_field ?_ (fun _ => (Json.isHoldable_iff.mp hv').1.isWhole) hread
    rintro slot hs rfl
    exact hformat.slots slot hs inner own h hv'
  | @item before after name inner v v' own h =>
    have hv' : v'.isHoldable room = true := hheld v' (by simp [Content.values])
    obtain ⟨draft, hdraft, hread⟩ := bind_eq_ok_iff.mp hread
    refine bind_eq_ok_iff.mpr ⟨draft, fillInOrder_replace (fun slot hs => ?_) hdraft, hread⟩
    have hname : some slot.name = some name := by
      have hplace := congrArg (·[before.length]?) hformat.names
      simpa [hs, own] using hplace
    refine hformat.slots slot (List.mem_of_getElem? hs) inner ?_ h hv'
    exact Option.some.inj hname ▸ List.mem_of_getElem? own

theorem read_toJson (format : RecordFormat δ α) (room : Nat) (content : Content) :
    format.read (room + 1) content.toJson = format.readContent room content := by
  cases content <;> rfl

end RecordFormat

theorem hasParts_zone (room : Nat) : zoneFormat.HasParts room zoneParts where
  separate := areSeparate_zone room
  names := rfl
  slots := by
    intro slot hs part hpart
    simp only [zoneFormat, List.mem_cons, List.not_mem_nil, or_false] at hs
    rcases hs with rfl | rfl
    · obtain rfl : part = .names := by simpa [zoneParts] using hpart
      exact Slot.isFor_of_put id fun _ _ => rfl
    · obtain rfl : part = .names := by simpa [zoneParts] using hpart
      exact Slot.isFor_of_put id fun _ _ => rfl

theorem hasParts_primary (room : Nat) : primaryFormat.HasParts room (kindParts .primary) where
  separate := areSeparate_primary room
  names := rfl
  slots := by
    intro slot hs part hpart
    simp only [primaryFormat, List.mem_cons, List.not_mem_nil, or_false] at hs
    rcases hs with rfl | rfl | rfl
    · obtain rfl : part = .names := by simpa [kindParts] using hpart
      exact Slot.isFor_of_put id fun _ _ => rfl
    · obtain rfl : part = .habitats := by simpa [kindParts] using hpart
      exact Slot.isFor_of_put id fun _ _ => rfl
    · obtain rfl : part = .region := by simpa [kindParts] using hpart
      exact Slot.isFor_of_put id fun _ _ => rfl

theorem hasParts_compound (held : Bool) (room : Nat) :
    (compoundFormat held fun _ => readArray (readDiagram true) room).HasParts room (kindParts .compound) where
  separate := areSeparate_compound held _ room
  names := rfl
  slots := by
    intro slot hs part hpart
    simp only [compoundFormat, List.mem_cons, List.not_mem_nil, or_false] at hs
    rcases hs with rfl | rfl
    · simp [kindParts] at hpart
    · obtain rfl : part = .operands := by simpa [kindParts] using hpart
      exact Slot.isFor_of_put id fun _ _ => rfl

theorem isReadAs_zone {content content' : Content} (h : content.Rearranged zoneParts content') :
    IsReadAs readZone content.toJson content'.toJson := by
  intro room z hheld hread
  cases room with
  | zero => cases content <;> cases hread
  | succ room =>
    rw [readZone, RecordFormat.read_toJson] at hread ⊢
    exact RecordFormat.readContent_of_rearranged (hasParts_zone room) h
      (Content.isHoldable_of_toJson hheld) hread

/-! ## Kinds -/

section Kinds

variable {kinds : List (String × κ)} {held : Bool} {room : Nat} {kind : κ}
  {fields : List (Option String × Json)} {content content' rest : Content} {v : Json}

/-- The kind is taken from a rearranged value as it was before, and what is left is rearranged. -/
theorem takeKind_of_rearranged {parts : List (String × Option Part)} (hparts : "kind" ∉ parts.map (·.1))
    (h : content.Rearranged (("kind", none) :: parts) content')
    (hheld : content'.toJson.isHoldable (room + 1) = true)
    (htake : takeKind kinds held room content.toJson = .ok (kind, rest)) :
    ∃ rest', takeKind kinds held room content'.toJson = .ok (kind, rest') ∧ rest.Rearranged parts rest' := by
  cases h with
  | @perm named named' h =>
    obtain ⟨others', htake', _, rfl, hothers⟩ := takeKind_object_of_perm h htake
    exact ⟨_, htake', .perm hothers⟩
  | @insert named name v other =>
    obtain ⟨rfl, hkind⟩ := takeKind_object_ok htake
    rw [List.map_cons, List.mem_cons, not_or] at other
    have hothers : ((some name, v) :: named).filter (·.1 ≠ some "kind") =
        (some name, v) :: named.filter (·.1 ≠ some "kind") := List.filter_cons_of_pos (by simpa using other.1)
    have hkinds : ((some name, v) :: named).filter (·.1 = some "kind") =
        named.filter (·.1 = some "kind") := List.filter_cons_of_neg (by simpa using other.1)
    refine ⟨_, takeKind_object_of_isHoldable hheld (hkinds ▸ hkind), ?_⟩
    rw [hothers]
    exact .insert other.2
  | @field before after name inner v v' own h =>
    obtain ⟨rfl, hkind⟩ := takeKind_object_ok htake
    have hown : (name, some inner) ∈ parts := by simpa using own
    have hname : name ≠ "kind" := by
      rintro rfl
      exact hparts (List.mem_map_of_mem hown)
    have hothers (w : Json) : (before ++ (some name, w) :: after).filter (·.1 ≠ some "kind") =
        before.filter (·.1 ≠ some "kind") ++ (some name, w) :: after.filter (·.1 ≠ some "kind") := by
      rw [List.filter_append, List.filter_cons_of_pos (by simpa using hname)]
    have hkinds (w : Json) : (before ++ (some name, w) :: after).filter (·.1 = some "kind") =
        before.filter (·.1 = some "kind") ++ after.filter (·.1 = some "kind") := by
      rw [List.filter_append, List.filter_cons_of_neg (by simpa using hname)]
    rw [hkinds v, ← hkinds v'] at hkind
    refine ⟨_, takeKind_object_of_isHoldable hheld hkind, ?_⟩
    rw [hothers, hothers]
    exact .field hown h
  | @item before after name inner v v' own h =>
    cases before with
    | nil => simp at own
    | cons first before =>
      obtain ⟨rfl, hkind, -⟩ := takeKind_array_eq_ok_iff.mp htake
      refine ⟨_, takeKind_array_eq_ok_iff.mpr ⟨rfl, hkind, fun w hw => ?_⟩, .item own h⟩
      exact Json.isHoldable_array_iff.mp hheld w (List.mem_cons_of_mem _ hw)

end Kinds

section Diagrams

variable {held : Bool} {room : Nat} {kind kind' : DiagramKind} {content content' : Content} {v : Json}

theorem kind_eq_of_takeKind (h : HasKind v kind)
    (htake : takeKind diagramKinds held room v = .ok (kind', content)) : kind' = kind := by
  cases h with
  | field mem read =>
    obtain ⟨_, -, htake⟩ := takeKind_object_eq_ok_iff.mp htake
    have hkind := readKind_of_held (readKind_of_takeKindField htake mem)
    exact Except.ok.inj (hkind.symm.trans read)
  | item read =>
    have hkind := readKind_of_held (takeKind_array_eq_ok_iff.mp htake).2.1
    exact Except.ok.inj (hkind.symm.trans read)

theorem isReadAs_diagram (hkind : HasKind content.toJson kind)
    (h : content.Rearranged (("kind", none) :: kindParts kind) content') (held : Bool) :
    IsReadAs (readDiagram held) content.toJson content'.toJson := by
  intro room d hheld hread
  cases room with
  | zero => cases hread
  | succ room =>
    rw [readDiagram_succ] at hread ⊢
    obtain ⟨⟨kind', rest⟩, htake, hread⟩ := bind_eq_ok_iff.mp hread
    obtain rfl := kind_eq_of_takeKind hkind htake
    have hparts : "kind" ∉ (kindParts kind').map (·.1) := by cases kind' <;> simp [kindParts]
    obtain ⟨rest', htake', hrest⟩ := takeKind_of_rearranged hparts h hheld htake
    have hvalues := (isHoldable_of_takeKind htake').2
    refine bind_eq_ok_iff.mpr ⟨_, htake', ?_⟩
    cases kind' with
    | null =>
      cases hrest with
      | perm => exact hread
      | insert => exact hread
      | field own => cases own
      | item own => cases own
    | primary =>
      obtain ⟨p, hp, hread⟩ := bind_eq_ok_iff.mp hread
      exact bind_eq_ok_iff.mpr
        ⟨p, RecordFormat.readContent_of_rearranged (hasParts_primary room) hrest hvalues hp, hread⟩
    | compound =>
      exact RecordFormat.readContent_of_rearranged (hasParts_compound true room) hrest hvalues hread

end Diagrams

end SpiderDiagrams.Interchange
