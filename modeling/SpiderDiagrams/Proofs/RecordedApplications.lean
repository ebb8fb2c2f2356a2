import Mathlib.Algebra.Group.Nat.Defs
import Mathlib.Logic.Relation
import SpiderDiagrams.Interchange.Reasoning
import SpiderDiagrams.Proofs.NestingBounds
import SpiderDiagrams.Proofs.FieldOrder
import SpiderDiagrams.Proofs.Kinds
import SpiderDiagrams.Proofs.RoundTrip

/-!
# Recorded applications

An application of a rule is written with its argument in it, and is read back as it was as long as its indices
have 64 bits. Neither the fields of the application nor those of its argument have to stand in the order in
which they are written; the kind of the argument may come last.
-/
namespace SpiderDiagrams

namespace Interchange

variable {room : Nat} {fields fields' : List (Option String × Json)} {v v' : Json} {argument : Argument}
  {a : Application}

/-! ## Arguments -/

theorem readIndex_indexToJson {index : Nat} (small : index < Decimal.naturalBound) :
    readIndex (indexToJson index) = .ok index := if_pos small

theorem isPlain_argument (small : ∀ i ∈ argument.indices, i < Decimal.naturalBound) :
    argument.toJson.IsPlain := by
  have hplain : ∀ i ∈ argument.indices, (indexToJson i).IsPlain := fun i hi => .natural i (small i hi)
  cases argument with
  | subDiagram index =>
    refine .object _ (by simp) ?_
    simpa using ⟨.string "sub_diagram", hplain index (by simp [Argument.indices])⟩
  | subDiagrams first second =>
    refine .object _ (by simp) ?_
    simpa using ⟨.string "sub_diagrams", hplain first (by simp [Argument.indices]),
      hplain second (by simp [Argument.indices])⟩
  | spider name index =>
    refine .object _ (by simp) ?_
    simpa using ⟨.string "spider", .string name, hplain index (by simp [Argument.indices])⟩

/-- The fields besides the kind. -/
def argumentFields : Argument → List (Option String × Json)
  | .subDiagram index => [(some "index", indexToJson index)]
  | .subDiagrams first second => [(some "first", indexToJson first), (some "second", indexToJson second)]
  | .spider name index => [(some "spider", .string (some name)), (some "index", indexToJson index)]

/-- An argument holds no arrays and objects, so there is always room for what it holds. -/
theorem takeKind_argument (room : Nat) (argument : Argument) :
    takeKind argumentKinds false room argument.toJson =
      .ok (argument.kind, .fields (argumentFields argument)) := by
  cases argument <;> exact takeKind_of_first false rfl (by simp)

theorem readContent_subDiagram (index : Json) :
    (argumentFormat .subDiagram).readContent room (.fields [(some "index", index)]) =
      (do return .subDiagram (← readIndex index)) := by
  simp only [RecordFormat.readContent, argumentFormat, indexSlot, fillByName, List.find?_cons, decide_true,
    Option.isSome_none, Bool.false_eq_true, if_false, bind_assoc, pure_bind]
  rfl

theorem readContent_subDiagrams (first second : Json) :
    (argumentFormat .subDiagrams).readContent room
        (.fields [(some "first", first), (some "second", second)]) =
      (do
        let first ← readIndex first
        return .subDiagrams first (← readIndex second)) := by
  simp only [RecordFormat.readContent, argumentFormat, indexSlot, secondSlot, fillByName, List.find?_cons,
    String.reduceEq, decide_true, decide_false, Option.isSome_none, Bool.false_eq_true, if_false, bind_assoc,
    pure_bind]
  rfl

theorem readContent_spider (spider index : Json) :
    (argumentFormat .spider).readContent room (.fields [(some "spider", spider), (some "index", index)]) =
      (do
        let spider ← readString spider
        return .spider spider (← readIndex index)) := by
  simp only [RecordFormat.readContent, argumentFormat, spiderSlot, indexSlot, fillByName, List.find?_cons,
    String.reduceEq, decide_true, decide_false, Option.isSome_none, Bool.false_eq_true, if_false, bind_assoc,
    pure_bind]
  rfl

theorem readContent_argumentFields (small : ∀ i ∈ argument.indices, i < Decimal.naturalBound) :
    (argumentFormat argument.kind).readContent room (.fields (argumentFields argument)) = .ok argument := by
  have hread : ∀ i ∈ argument.indices, readIndex (indexToJson i) = .ok i :=
    fun i hi => readIndex_indexToJson (small i hi)
  cases argument with
  | subDiagram index =>
    rw [Argument.kind, argumentFields, readContent_subDiagram, hread index (by simp [Argument.indices])]
    rfl
  | subDiagrams first second =>
    rw [Argument.kind, argumentFields, readContent_subDiagrams, hread first (by simp [Argument.indices]),
      hread second (by simp [Argument.indices])]
    rfl
  | spider name index =>
    rw [Argument.kind, argumentFields, readContent_spider, hread index (by simp [Argument.indices])]
    rfl

theorem readArgument_toJson (small : ∀ i ∈ argument.indices, i < Decimal.naturalBound) :
    readArgument (room + 1) argument.toJson = .ok argument :=
  bind_eq_ok_iff.mpr ⟨_, takeKind_argument room argument, readContent_argumentFields small⟩

theorem areSeparate_argument (kind : ArgumentKind) (room : Nat) :
    AreSeparate ((argumentFormat kind).slots room) := by
  intro s hs t ht
  cases kind with
  | subDiagram =>
    simp only [argumentFormat, indexSlot, List.mem_singleton] at hs ht
    subst hs ht
    exact Slot.isSeparateFrom_of_put (fun _ _ => rfl) (fun _ _ => rfl) (by simp) (by simp)
  | subDiagrams =>
    simp only [argumentFormat, indexSlot, secondSlot, List.mem_cons, List.not_mem_nil, or_false] at hs ht
    rcases hs with rfl | rfl <;> rcases ht with rfl | rfl <;>
      exact Slot.isSeparateFrom_of_put (fun _ _ => rfl) (fun _ _ => rfl) (by simp) (by simp)
  | spider =>
    simp only [argumentFormat, indexSlot, spiderSlot, List.mem_cons, List.not_mem_nil, or_false] at hs ht
    rcases hs with rfl | rfl <;> rcases ht with rfl | rfl <;>
      exact Slot.isSeparateFrom_of_put (fun _ _ => rfl) (fun _ _ => rfl) (by simp) (by simp)

/-- The kind is taken out before the other fields are read, and neither step depends on the order. -/
theorem readArgument_perm (hperm : fields.Perm fields')
    (h : readArgument room (.object fields) = .ok argument) :
    readArgument room (.object fields') = .ok argument := by
  cases room with
  | zero => cases h
  | succ room =>
    obtain ⟨⟨kind, content⟩, htake, hread⟩ := bind_eq_ok_iff.mp h
    obtain ⟨others', htake', others, rfl, hothers⟩ := takeKind_object_of_perm hperm htake
    exact bind_eq_ok_iff.mpr
      ⟨_, htake', RecordFormat.readContent_perm (areSeparate_argument kind room) hothers hread⟩

/-! ## Applications -/

theorem isPlain_application (small : ∀ i ∈ a.argument.indices, i < Decimal.naturalBound) :
    a.toJson.IsPlain := by
  refine .object _ (by simp) ?_
  simpa using ⟨.string a.rule, isPlain_argument small, .string a.style.key⟩

theorem readStyle_toJson (style : Style) : readStyle room style.toJson = .ok style := by
  cases style <;> rfl

/-- The fields of an application in the order in which they are written. -/
theorem readContent_application (rule argument style : Json) :
    applicationFormat.readContent room
        (.fields [(some "rule", rule), (some "arg", argument), (some "style", style)]) =
      (do
        let rule ← readString rule
        let argument ← readArgument room argument
        return ⟨rule, argument, ← readStyle room style⟩) := by
  simp only [RecordFormat.readContent, applicationFormat, fillByName, List.find?_cons, String.reduceEq,
    decide_true, decide_false, Option.isSome_none, Bool.false_eq_true, if_false, bind_assoc, pure_bind]
  rfl

theorem readApplication_toJson (small : ∀ i ∈ a.argument.indices, i < Decimal.naturalBound) :
    readApplication (room + 2) a.toJson = .ok a := by
  show applicationFormat.readContent (room + 1) (.fields _) = _
  rw [readContent_application, readArgument_toJson small, readStyle_toJson]
  rfl

theorem areSeparate_application (room : Nat) : AreSeparate (applicationFormat.slots room) := by
  intro s hs t ht
  simp only [applicationFormat, List.mem_cons, List.not_mem_nil, or_false] at hs ht
  rcases hs with rfl | rfl | rfl <;> rcases ht with rfl | rfl | rfl <;>
    exact Slot.isSeparateFrom_of_put (fun _ _ => rfl) (fun _ _ => rfl) (by simp) (by simp)

/-! ## Reordered fields -/

/-- One change of the order of fields: of those of an application, or of those of the argument in it. -/
inductive Reordered : Json → Json → Prop
  | fields {fields fields' : List (Option String × Json)} (perm : fields.Perm fields') :
      Reordered (.object fields) (.object fields')
  | argument {before after fields fields' : List (Option String × Json)} (perm : fields.Perm fields') :
      Reordered (.object (before ++ (some "arg", .object fields) :: after))
        (.object (before ++ (some "arg", .object fields') :: after))
  | item {rule : Json} {others : List Json} {fields fields' : List (Option String × Json)}
      (perm : fields.Perm fields') :
      Reordered (.array (rule :: .object fields :: others)) (.array (rule :: .object fields' :: others))

instance : Std.Symm Reordered where
  symm _ _ h := by
    cases h with
    | fields perm => exact .fields perm.symm
    | argument perm => exact .argument perm.symm
    | item perm => exact .item perm.symm

theorem isPlain_object_of_perm (hperm : fields.Perm fields') (h : (Json.object fields).IsPlain) :
    (Json.object fields').IsPlain := by
  cases h with
  | object _ names plain =>
    have hmem {f} (hf : f ∈ fields') : f ∈ fields := hperm.mem_iff.mpr hf
    exact .object fields' (fun f hf => names f (hmem hf)) fun f hf => plain f (hmem hf)

theorem isWhole_object_of_perm (hperm : fields.Perm fields') (h : (Json.object fields).isWhole = true) :
    (Json.object fields').isWhole = true :=
  Json.areWholeFields_iff.mpr fun f hf => Json.areWholeFields_iff.mp h f (hperm.mem_iff.mpr hf)

theorem Reordered.isPlain (h : Reordered v v') (hplain : v.IsPlain) : v'.IsPlain := by
  cases h with
  | fields perm => exact isPlain_object_of_perm perm hplain
  | @argument before after fields fields' perm =>
    cases hplain with
    | object _ names plain =>
      simp only [List.forall_mem_append, List.forall_mem_cons] at names plain
      refine .object _ ?_ ?_ <;> simp only [List.forall_mem_append, List.forall_mem_cons]
      · exact names
      · exact ⟨plain.1, isPlain_object_of_perm perm plain.2.1, plain.2.2⟩
  | @item rule others fields fields' perm =>
    cases hplain with
    | array _ plain =>
      simp only [List.forall_mem_cons] at plain
      refine .array _ ?_
      simp only [List.forall_mem_cons]
      exact ⟨plain.1, isPlain_object_of_perm perm plain.2.1, plain.2.2⟩

/-- The slot of the argument is filled alike, whatever the order of the fields of the argument. -/
theorem fill_argument_of_perm (hperm : fields.Perm fields') {slot : Slot ApplicationDraft}
    (hslot : slot ∈ applicationFormat.slots room) (hname : slot.name = "arg") {draft draft' : ApplicationDraft}
    (h : slot.fill (.object fields) draft = .ok draft') : slot.fill (.object fields') draft = .ok draft' := by
  simp only [applicationFormat, List.mem_cons, List.not_mem_nil, or_false] at hslot
  rcases hslot with rfl | rfl | rfl
  · simp at hname
  · obtain ⟨argument, hargument, heq⟩ := bind_eq_ok_iff.mp h
    exact bind_eq_ok_iff.mpr ⟨argument, readArgument_perm hperm hargument, heq⟩
  · simp at hname

theorem readApplication_of_reordered (h : Reordered v v') (hread : readApplication room v = .ok a) :
    readApplication room v' = .ok a := by
  cases room with
  | zero => cases v <;> cases hread
  | succ room =>
    cases h with
    | fields perm => exact RecordFormat.readContent_perm (areSeparate_application room) perm hread
    | argument perm =>
      exact RecordFormat.readContent_replace_field
        (fun slot hslot hname _ _ hfill => fill_argument_of_perm perm hslot hname hfill)
        (isWhole_object_of_perm perm) hread
    | @item rule others fields fields' perm =>
      obtain ⟨draft, hdraft, hread⟩ := bind_eq_ok_iff.mp hread
      refine bind_eq_ok_iff.mpr ⟨draft, ?_, hread⟩
      refine @fillInOrder_replace _ _ _ _ _ _ [rule] others (fun slot hslot _ _ hfill => ?_) hdraft
      obtain rfl := Option.some.inj hslot
      exact fill_argument_of_perm perm (List.mem_cons_of_mem _ List.mem_cons_self) rfl hfill

/-- What one change of the order preserves, any number of them preserves. -/
theorem readApplication_of_reflTransGen (h : Relation.ReflTransGen Reordered v v')
    (hread : readApplication room v = .ok a) : readApplication room v' = .ok a := by
  induction h with
  | refl => exact hread
  | tail _ hstep ih => exact readApplication_of_reordered hstep ih

theorem Reordered.isPlain_of_reflTransGen (h : Relation.ReflTransGen Reordered v v') (hplain : v.IsPlain) :
    v'.IsPlain := by
  induction h with
  | refl => exact hplain
  | tail _ hstep ih => exact hstep.isPlain ih

end Interchange

open Interchange

/-- An application is read back from its text, also where the fields of the application and of its argument
are written in another order; and of two texts that differ in the order of those fields alone, one is read as
an application just where the other one is read as the same application. -/
theorem Application.readText_of_reordered (a : Application) (small : ∀ i ∈ a.argument.indices, i < 2 ^ 64) :
    readText (readApplication nestingLimit) a.toJson.text = .ok a ∧
      (∀ v, Relation.ReflTransGen Reordered a.toJson v →
        readText (readApplication nestingLimit) v.text = .ok a) ∧
      ∀ text text', Relation.ReflTransGen Reordered (Json.Document.ofText text).root
          (Json.Document.ofText text').root →
        (Json.Document.ofText text).isAlone = (Json.Document.ofText text').isAlone →
          ∀ b, readText (readApplication nestingLimit) text = .ok b ↔
            readText (readApplication nestingLimit) text' = .ok b := by
  have hplain : a.toJson.IsPlain := isPlain_application small
  have hread : readApplication nestingLimit a.toJson = .ok a := readApplication_toJson small
  have hreordered : ∀ v, Relation.ReflTransGen Reordered a.toJson v →
      readText (readApplication nestingLimit) v.text = .ok a := by
    intro v h
    rw [readText_text (Reordered.isPlain_of_reflTransGen h hplain)]
    exact readApplication_of_reflTransGen h hread
  refine ⟨hreordered _ .refl, hreordered, fun text text' h halone b => ?_⟩
  have hback := Std.Symm.symm _ _ h
  rw [readText_eq_ok_iff, readText_eq_ok_iff, halone]
  exact and_congr_left fun _ => ⟨readApplication_of_reflTransGen h, readApplication_of_reflTransGen hback⟩

/-- Names that are quoted with escapes, the greatest index, and all fields in the opposite order. -/
theorem Application.readText_of_reordered_quoted :
    let a : Application := ⟨"copy \"it\"\n", .spider "s\x00é" (2 ^ 64 - 1), .backward⟩
    let argument : Json := .object [(some "index", indexToJson (2 ^ 64 - 1)),
      (some "spider", .string (some "s\x00é")), (some "kind", .string (some "spider"))]
    let v : Json := .object [(some "style", .string (some "backward")), (some "arg", argument),
      (some "rule", .string (some "copy \"it\"\n"))]
    readText (readApplication nestingLimit) a.toJson.text = .ok a ∧
      readText (readApplication nestingLimit) v.text = .ok a ∧
      ∀ b, readText (readApplication nestingLimit) (a.toJson.text ++ " ") = .ok b ↔
        readText (readApplication nestingLimit) (v.text ++ " ") = .ok b := by
  intro a argument v
  have small : ∀ i ∈ a.argument.indices, i < 2 ^ 64 := by decide
  let w : Json := .object [(some "rule", .string (some a.rule)), (some "arg", argument),
    (some "style", a.style.toJson)]
  have harguments : Reordered a.toJson w :=
    @Reordered.argument [_] [_] _ _ (List.reverse_perm [_, _, _]).symm
  have hfields : Reordered w v := .fields (List.reverse_perm [_, _, _]).symm
  have hsteps : Relation.ReflTransGen Reordered a.toJson v :=
    (Relation.ReflTransGen.single harguments).tail hfields
  have hplain : a.toJson.IsPlain := isPlain_application small
  have hblank : ∀ c ∈ [' '], Json.isBlank c = true := by simp [Json.isBlank]
  have hroot : Json.Document.ofText (a.toJson.text ++ " ") = ⟨a.toJson, true⟩ :=
    Json.Document.ofText_text_append hplain hblank
  have hroot' : Json.Document.ofText (v.text ++ " ") = ⟨v, true⟩ :=
    Json.Document.ofText_text_append (Reordered.isPlain_of_reflTransGen hsteps hplain) hblank
  obtain ⟨hread, hreordered, hsame⟩ := Application.readText_of_reordered a small
  exact ⟨hread, hreordered v hsteps, hsame _ _ (by rw [hroot, hroot']; exact hsteps) (by rw [hroot, hroot'])⟩

end SpiderDiagrams
