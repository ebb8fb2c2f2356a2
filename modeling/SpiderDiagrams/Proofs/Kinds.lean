import SpiderDiagrams.Interchange.Diagram
import SpiderDiagrams.Proofs.Failing
import SpiderDiagrams.Proofs.Nesting

/-!
# Values of several kinds

The kind of a value is taken out of it, wherever it stands, and all else is held: the kind has to be the only
field of its name, and the other fields need names and values that can be held. So a value whose kind can be
taken can be held as a whole.
-/
namespace SpiderDiagrams.Interchange

variable {κ : Type} {kinds : List (String × κ)} {held : Bool} {room : Nat} {found : Option κ} {kind : κ}
  {fields others : List (Option String × Json)} {content rest : Content} {v : Json}

/-! ## The content of a value -/

namespace Content

/-- The values in a record, whether in its fields or in order. -/
def values : Content → List Json
  | .fields named => named.map (·.2)
  | .items ordered => ordered

def toJson : Content → Json
  | .fields named => .object named
  | .items ordered => .array ordered

theorem isHoldable_of_toJson (h : content.toJson.isHoldable (room + 1) = true) :
    ∀ v ∈ content.values, v.isHoldable room = true := by
  cases content with
  | fields named =>
    rw [values, List.forall_mem_map]
    exact fun f hf => (Json.isHoldable_object_iff.mp h f hf).2
  | items ordered => exact Json.isHoldable_array_iff.mp h

end Content

/-! ## The field of the kind -/

theorem takeKindField_of_found (h : ∀ f ∈ fields, ∃ name ≠ "kind", f.1 = some name) :
    takeKindField kinds held room (some kind) fields =
      if Json.areHoldableFields room fields = true then .ok (kind, fields) else .error .invalid := by
  induction fields with
  | nil => rfl
  | cons f fields ih =>
    obtain ⟨name, v⟩ := f
    obtain ⟨t, hne, rfl⟩ := h _ List.mem_cons_self
    rw [takeKindField, if_neg hne, ih fun f hf => h f (List.mem_cons_of_mem _ hf),
      Json.areHoldableFields]
    cases v.isHoldable room with
    | false => rfl
    | true => cases Json.areHoldableFields room fields <;> rfl

/-- The kind stands in exactly one field, unless it was found before, and all other fields have names and can
be held. -/
theorem takeKindField_eq_ok_iff : takeKindField kinds held room found fields = .ok (kind, others) ↔
      fields.filter (·.1 ≠ some "kind") = others ∧
        (∀ f ∈ others, f.1.isSome = true ∧ f.2.isHoldable room = true) ∧
        found.toList.map .ok ++ (fields.filter (·.1 = some "kind")).map (fun f => readKind kinds held f.2) =
          [.ok kind] := by
  fun_induction takeKindField kinds held room found fields generalizing kind others with
  | case1 kind' =>
    constructor
    · intro h
      cases h
      simp
    · rintro ⟨rfl, -, hkind⟩
      cases hkind
      rfl
  | case2 => simp
  | case3 found v fields =>
    refine iff_of_false (by simp) fun ⟨hothers, hheld, _⟩ => ?_
    have hnamed := hheld (none, v) (hothers ▸ by simp)
    simp at hnamed
  | case4 v fields found => simp
  | case5 v fields ih =>
    constructor
    · intro h
      obtain ⟨kind', hread, h⟩ := bind_eq_ok_iff.mp h
      obtain ⟨hothers, hheld, hkind⟩ := (ih kind').mp h
      exact ⟨by simpa using hothers, hheld, by simpa [hread] using hkind⟩
    · rintro ⟨hothers, hheld, hkind⟩
      have hread : readKind kinds held v = .ok kind := by simpa using And.left (List.cons.inj hkind)
      refine bind_eq_ok_iff.mpr ⟨kind, hread, (ih kind).mpr ⟨by simpa using hothers, hheld, ?_⟩⟩
      simpa [hread] using hkind
  | case6 found name v fields hname hheld ih =>
    have hother : ((some name, v) :: fields).filter (·.1 ≠ some "kind") =
        (some name, v) :: fields.filter (·.1 ≠ some "kind") := List.filter_cons_of_pos (by simpa using hname)
    have hkinds : ((some name, v) :: fields).filter (·.1 = some "kind") =
        fields.filter (·.1 = some "kind") := List.filter_cons_of_neg (by simpa using hname)
    rw [hother, hkinds]
    constructor
    · intro h
      obtain ⟨⟨kind', others'⟩, htake, h⟩ := bind_eq_ok_iff.mp h
      cases h
      obtain ⟨rfl, hall, hkind⟩ := ih.mp htake
      exact ⟨rfl, List.forall_mem_cons.mpr ⟨⟨rfl, hheld⟩, hall⟩, hkind⟩
    · rintro ⟨rfl, hall, hkind⟩
      exact bind_eq_ok_iff.mpr ⟨_, ih.mpr ⟨rfl, (List.forall_mem_cons.mp hall).2, hkind⟩, rfl⟩
  | case7 found name v fields hname hheld =>
    refine iff_of_false (by simp) fun ⟨hothers, hall, _⟩ => hheld ?_
    exact (hall (some name, v) (hothers ▸ by simp [hname])).2

theorem readKind_of_takeKindField
    (h : takeKindField kinds held room found fields = .ok (kind, others))
    (hv : (some "kind", v) ∈ fields) : readKind kinds held v = .ok kind := by
  obtain ⟨-, -, hkind⟩ := takeKindField_eq_ok_iff.mp h
  have hmem : (some "kind", v) ∈ fields.filter (·.1 = some "kind") := List.mem_filter.mpr ⟨hv, by simp⟩
  have hread := List.mem_append_right (found.toList.map .ok)
    (List.mem_map_of_mem (f := fun f => readKind kinds held f.2) hmem)
  rw [hkind] at hread
  exact List.mem_singleton.mp hread

/-- The name of the kind comes first, so the other fields are held where there is room for them. -/
theorem takeKind_of_first (held : Bool) {name : String} (hkind : findVariant kinds name = .ok kind)
    (h : ∀ f ∈ fields, ∃ name ≠ "kind", f.1 = some name) :
    takeKind kinds held room (.object ((some "kind", .string (some name)) :: fields)) =
      if Json.areHoldableFields room fields = true then .ok (kind, .fields fields)
      else .error .invalid := by
  rw [takeKind, takeKindField, if_pos rfl]
  simp only [readKind, hkind]
  show (takeKindField kinds held room (some kind) fields >>= _) = _
  rw [takeKindField_of_found h]
  split <;> rfl

/-! ## Taking the kind -/

theorem takeKind_object_eq_ok_iff : takeKind kinds held room (.object fields) = .ok (kind, rest) ↔
    ∃ others, rest = .fields others ∧ takeKindField kinds held room none fields = .ok (kind, others) := by
  rw [takeKind, bind_eq_ok_iff]
  constructor
  · rintro ⟨⟨kind', others⟩, htake, heq⟩
    cases heq
    exact ⟨others, rfl, htake⟩
  · rintro ⟨others, rfl, htake⟩
    exact ⟨_, htake, rfl⟩

theorem takeKind_array_eq_ok_iff {items : List Json} :
    takeKind kinds held room (.array (v :: items)) = .ok (kind, rest) ↔
      rest = .items items ∧ readKind kinds held v = .ok kind ∧ ∀ w ∈ items, w.isHoldable room = true := by
  rw [takeKind, bind_eq_ok_iff]
  constructor
  · rintro ⟨kind', hkind, h⟩
    split at h
    · rename_i hheld
      cases h
      exact ⟨rfl, hkind, List.all_eq_true.mp hheld⟩
    · cases h
  · rintro ⟨rfl, hkind, hheld⟩
    exact ⟨kind, hkind, by rw [if_pos (List.all_eq_true.mpr hheld)]; rfl⟩

/-- Of an object without the field of its kind everything is left, in the order in which it stands. -/
theorem takeKind_object_ok (h : takeKind kinds held room (.object fields) = .ok (kind, rest)) :
    rest = .fields (fields.filter (·.1 ≠ some "kind")) ∧
      (fields.filter (·.1 = some "kind")).map (fun f => readKind kinds held f.2) = [.ok kind] := by
  obtain ⟨_, rfl, htake⟩ := takeKind_object_eq_ok_iff.mp h
  obtain ⟨rfl, -, hkind⟩ := takeKindField_eq_ok_iff.mp htake
  exact ⟨rfl, hkind⟩

/-- The field of the kind may stand anywhere, and what is left keeps its order. -/
theorem takeKind_object_of_perm {fields' : List (Option String × Json)} (hperm : fields.Perm fields')
    (h : takeKind kinds held room (.object fields) = .ok (kind, rest)) :
    ∃ others', takeKind kinds held room (.object fields') = .ok (kind, .fields others') ∧
      ∃ others, rest = .fields others ∧ others.Perm others' := by
  obtain ⟨_, rfl, htake⟩ := takeKind_object_eq_ok_iff.mp h
  obtain ⟨rfl, hheld, hkind⟩ := takeKindField_eq_ok_iff.mp htake
  have hothers := hperm.filter (·.1 ≠ some "kind")
  refine ⟨_, takeKind_object_eq_ok_iff.mpr ⟨_, rfl, takeKindField_eq_ok_iff.mpr ⟨rfl, ?_, ?_⟩⟩, _, rfl, hothers⟩
  · exact fun f hf => hheld f (hothers.mem_iff.mpr hf)
  · have hkinds := (hperm.filter (·.1 = some "kind")).map fun f => readKind kinds held f.2
    exact (List.singleton_perm.mp ((List.Perm.of_eq hkind.symm).trans hkinds)).symm

/-- In an object that can be held nothing but the kind is in question. -/
theorem takeKind_object_of_isHoldable (hheld : (Json.object fields).isHoldable (room + 1) = true)
    (hkind : (fields.filter (·.1 = some "kind")).map (fun f => readKind kinds held f.2) = [.ok kind]) :
    takeKind kinds held room (.object fields) = .ok (kind, .fields (fields.filter (·.1 ≠ some "kind"))) := by
  refine takeKind_object_eq_ok_iff.mpr ⟨_, rfl, takeKindField_eq_ok_iff.mpr ⟨rfl, fun f hf => ?_, hkind⟩⟩
  exact Json.isHoldable_object_iff.mp hheld f (List.mem_filter.mp hf).1

theorem isHoldable_of_readKind (h : readKind kinds held v = .ok kind) : v.isHoldable room = true := by
  unfold readKind at h
  split at h
  · rfl
  · rfl
  · cases h

/-- A kind that is read outside a held value is read inside one too. -/
theorem readKind_of_held (h : readKind kinds held v = .ok kind) : readKind kinds true v = .ok kind := by
  cases held with
  | true => exact h
  | false =>
    unfold readKind at h ⊢
    split at h
    · exact h
    · cases h
    · cases h

/-- A value from which the kind is taken is held as a whole. -/
theorem isHoldable_of_takeKind (h : takeKind kinds held room v = .ok (kind, rest)) :
    v.isHoldable (room + 1) = true ∧ ∀ w ∈ rest.values, w.isHoldable room = true := by
  cases v with
  | object fields =>
    obtain ⟨others, rfl, htake⟩ := takeKind_object_eq_ok_iff.mp h
    obtain ⟨rfl, hheld, -⟩ := takeKindField_eq_ok_iff.mp htake
    refine ⟨Json.isHoldable_object_iff.mpr fun f hf => ?_, ?_⟩
    · obtain ⟨name, w⟩ := f
      by_cases hname : name = some "kind"
      · subst hname
        exact ⟨rfl, isHoldable_of_readKind (readKind_of_takeKindField htake hf)⟩
      · exact hheld _ (List.mem_filter.mpr ⟨hf, by simpa using hname⟩)
    · rw [Content.values, List.forall_mem_map]
      exact fun f hf => (hheld f hf).2
  | array items =>
    cases items with
    | nil => cases h
    | cons first items =>
      obtain ⟨rfl, hkind, hheld⟩ := takeKind_array_eq_ok_iff.mp h
      refine ⟨Json.isHoldable_array_iff.mpr ?_, hheld⟩
      exact List.forall_mem_cons.mpr ⟨isHoldable_of_readKind hkind, hheld⟩
  | _ => cases h

end SpiderDiagrams.Interchange
