import Mathlib.Logic.Basic
import SpiderDiagrams.Json
import SpiderDiagrams.Decimal

/-!
# How deep values nest

A representable value has only strings and names with characters and numbers that fit double precision; it
is plain if its numbers are indices. Whether such a value can be held depends on nothing but how deep its
arrays and objects nest.
-/
namespace SpiderDiagrams.Json

inductive IsPlain : Json → Prop
  | null : IsPlain null
  | bool (b : Bool) : IsPlain (bool b)
  | natural (n : Nat) (small : n < Decimal.naturalBound) : IsPlain (number (.natural n))
  | string (s : String) : IsPlain (string (some s))
  | array (items : List Json) (plain : ∀ v ∈ items, IsPlain v) : IsPlain (array items)
  | object (fields : List (Option String × Json)) (names : ∀ f ∈ fields, f.1.isSome = true)
      (plain : ∀ f ∈ fields, IsPlain f.2) : IsPlain (object fields)

inductive IsRepresentable : Json → Prop
  | null : IsRepresentable null
  | bool (b : Bool) : IsRepresentable (bool b)
  | number (n : Numeral) (fits : n.fitsDouble = true) : IsRepresentable (number n)
  | string (s : String) : IsRepresentable (string (some s))
  | array (items : List Json) (parts : ∀ v ∈ items, IsRepresentable v) : IsRepresentable (array items)
  | object (fields : List (Option String × Json)) (names : ∀ f ∈ fields, f.1.isSome = true)
      (parts : ∀ f ∈ fields, IsRepresentable f.2) : IsRepresentable (object fields)

theorem IsPlain.isRepresentable {v : Json} (h : v.IsPlain) : v.IsRepresentable := by
  induction h with
  | null => exact .null
  | bool b => exact .bool b
  | natural n small => exact .number _ rfl
  | string s => exact .string s
  | array items plain ih => exact .array items ih
  | object fields names plain ih => exact .object fields names ih

/-- Induction over a value and all that stands in it. -/
@[elab_as_elim]
theorem induct {motive : Json → Prop} (broken : motive broken) (null : motive null)
    (bool : ∀ b, motive (bool b)) (number : ∀ n, motive (number n)) (string : ∀ s, motive (string s))
    (array : ∀ items, (∀ v ∈ items, motive v) → motive (array items))
    (object : ∀ fields, (∀ f ∈ fields, motive f.2) → motive (object fields)) : ∀ v, motive v
  | .broken => broken
  | .null => null
  | .bool b => bool b
  | .number n => number n
  | .string s => string s
  | .array items => array items fun v _ => induct broken null bool number string array object v
  | .object fields => object fields fun f _ => induct broken null bool number string array object f.2
  decreasing_by
  · have := List.sizeOf_lt_of_mem ‹v ∈ items›
    simp only [Json.array.sizeOf_spec]
    omega
  · have := List.sizeOf_lt_of_mem ‹f ∈ fields›
    cases f
    simp only [Prod.mk.sizeOf_spec] at this
    simp only [Json.object.sizeOf_spec]
    omega

/-! ## Nesting -/

mutual

/-- How many arrays and objects stand inside one another. -/
def nesting : Json → Nat
  | array items => nestingOfItems items + 1
  | object fields => nestingOfFields fields + 1
  | _ => 0

def nestingOfItems : List Json → Nat
  | [] => 0
  | v :: vs => max v.nesting (nestingOfItems vs)

def nestingOfFields : List (Option String × Json) → Nat
  | [] => 0
  | (_, v) :: fields => max v.nesting (nestingOfFields fields)

end

variable {v : Json} {items : List Json} {fields : List (Option String × Json)} {room : Nat}

theorem nestingOfItems_le_iff : nestingOfItems items ≤ room ↔ ∀ v ∈ items, v.nesting ≤ room := by
  induction items with
  | nil => simp [nestingOfItems]
  | cons v vs ih => rw [nestingOfItems, Nat.max_le, ih, List.forall_mem_cons]

theorem nestingOfFields_le_iff : nestingOfFields fields ≤ room ↔ ∀ f ∈ fields, f.2.nesting ≤ room := by
  induction fields with
  | nil => simp [nestingOfFields]
  | cons f fields ih =>
    obtain ⟨name, v⟩ := f
    rw [nestingOfFields, Nat.max_le, ih, List.forall_mem_cons]

theorem nesting_le_nestingOfItems (h : v ∈ items) : v.nesting ≤ nestingOfItems items :=
  nestingOfItems_le_iff.mp (Nat.le_refl _) v h

theorem nesting_le_nestingOfFields {f : Option String × Json} (h : f ∈ fields) :
    f.2.nesting ≤ nestingOfFields fields :=
  nestingOfFields_le_iff.mp (Nat.le_refl _) f h

theorem nesting_array_le_iff :
    (array items).nesting ≤ room + 1 ↔ ∀ v ∈ items, v.nesting ≤ room := by
  rw [nesting, Nat.add_le_add_iff_right, nestingOfItems_le_iff]

theorem nesting_object_le_iff :
    (object fields).nesting ≤ room + 1 ↔ ∀ f ∈ fields, f.2.nesting ≤ room := by
  rw [nesting, Nat.add_le_add_iff_right, nestingOfFields_le_iff]

theorem nesting_array_le_array {items' : List Json} (h : ∀ v ∈ items, ∃ v' ∈ items', v.nesting ≤ v'.nesting) :
    (array items).nesting ≤ (array items').nesting := by
  show _ ≤ nestingOfItems items' + 1
  rw [nesting_array_le_iff]
  intro v hv
  obtain ⟨v', hv', hle⟩ := h v hv
  exact Nat.le_trans hle (nesting_le_nestingOfItems hv')

theorem nesting_object_le_object {fields' : List (Option String × Json)}
    (h : ∀ f ∈ fields, ∃ f' ∈ fields', f.2.nesting ≤ f'.2.nesting) :
    (object fields).nesting ≤ (object fields').nesting := by
  show _ ≤ nestingOfFields fields' + 1
  rw [nesting_object_le_iff]
  intro f hf
  obtain ⟨f', hf', hle⟩ := h f hf
  exact Nat.le_trans hle (nesting_le_nestingOfFields hf')

theorem areWhole_iff : areWhole items = true ↔ ∀ v ∈ items, v.isWhole = true := by
  induction items with
  | nil => simp [areWhole]
  | cons v vs ih => simp [areWhole, ih]

theorem areWholeFields_iff : areWholeFields fields = true ↔ ∀ f ∈ fields, f.2.isWhole = true := by
  induction fields with
  | nil => simp [areWholeFields]
  | cons f fields ih =>
    obtain ⟨name, v⟩ := f
    simp [areWholeFields, ih]

theorem areHoldable_iff : areHoldable room items = true ↔ ∀ v ∈ items, v.isHoldable room = true := by
  induction items with
  | nil => simp [areHoldable]
  | cons v vs ih => simp [areHoldable, ih]

theorem areHoldableFields_iff : areHoldableFields room fields = true ↔
    ∀ f ∈ fields, f.1.isSome = true ∧ f.2.isHoldable room = true := by
  induction fields with
  | nil => simp [areHoldableFields]
  | cons f fields ih =>
    obtain ⟨name, v⟩ := f
    simp [areHoldableFields, ih]

theorem isRepresentable_array_iff : (array items).IsRepresentable ↔ ∀ v ∈ items, v.IsRepresentable :=
  ⟨fun h => by cases h with | array _ parts => exact parts, .array items⟩

theorem isRepresentable_object_iff : (object fields).IsRepresentable ↔
    ∀ f ∈ fields, f.1.isSome = true ∧ f.2.IsRepresentable := by
  constructor
  · intro h f hf
    cases h with
    | object _ names parts => exact ⟨names f hf, parts f hf⟩
  · exact fun h => .object fields (fun f hf => (h f hf).1) fun f hf => (h f hf).2

theorem isHoldable_array_iff :
    (array items).isHoldable (room + 1) = true ↔ ∀ v ∈ items, v.isHoldable room = true := by
  simp [isHoldable, areHoldable_iff]

theorem isHoldable_object_iff : (object fields).isHoldable (room + 1) = true ↔
    ∀ f ∈ fields, f.1.isSome = true ∧ f.2.isHoldable room = true := by
  simp [isHoldable, areHoldableFields_iff]

/-- Representable values are held where there is room for their nesting, and no others are. -/
theorem isHoldable_iff : v.isHoldable room = true ↔ v.IsRepresentable ∧ v.nesting ≤ room := by
  induction v using induct generalizing room with
  | broken =>
    refine iff_of_false (by simp [isHoldable]) fun h => ?_
    cases h.1
  | null => simp [isHoldable, nesting, IsRepresentable.null]
  | bool b => simp [isHoldable, nesting, IsRepresentable.bool]
  | number n =>
    refine ⟨fun h => ⟨.number n h, Nat.zero_le room⟩, fun h => ?_⟩
    cases h.1 with
    | number _ fits => exact fits
  | string s =>
    cases s with
    | none =>
      refine iff_of_false (by simp [isHoldable]) fun h => ?_
      cases h.1
    | some s => simp [isHoldable, nesting, IsRepresentable.string]
  | array items ih =>
    cases room with
    | zero => simp [isHoldable, nesting]
    | succ room =>
      rw [isHoldable_array_iff, isRepresentable_array_iff, nesting_array_le_iff, ← forall₂_and]
      exact forall₂_congr fun v hv => ih v hv
  | object fields ih =>
    cases room with
    | zero => simp [isHoldable, nesting]
    | succ room =>
      rw [isHoldable_object_iff, isRepresentable_object_iff, nesting_object_le_iff, ← forall₂_and]
      exact forall₂_congr fun f hf => by rw [ih f hf, and_assoc]

/-- Nothing but its nesting keeps a plain value from being held. -/
theorem IsPlain.isHoldable_iff (h : v.IsPlain) : v.isHoldable room = true ↔ v.nesting ≤ room := by
  rw [Json.isHoldable_iff, and_iff_right h.isRepresentable]

/-- What can be held nests no deeper than there is room. -/
theorem nesting_le_of_isHoldable (h : v.isHoldable room = true) : v.nesting ≤ room :=
  (Json.isHoldable_iff.mp h).2

/-- What is representable is JSON to its end. -/
theorem IsRepresentable.isWhole (h : v.IsRepresentable) : v.isWhole = true := by
  induction h with
  | array items parts ih => exact areWhole_iff.mpr ih
  | object fields names parts ih => exact areWholeFields_iff.mpr ih
  | _ => rfl

end SpiderDiagrams.Json
