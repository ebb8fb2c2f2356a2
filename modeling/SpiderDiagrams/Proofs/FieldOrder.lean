import SpiderDiagrams.Interchange.Diagram
import SpiderDiagrams.Proofs.Failing

/-!
# Records with their fields in any order

The fields of a record are read one after the other, and each fills its slot in the draft. Where the slots
are separate, two fields may be exchanged, so the order of the fields does not matter. Fields of other names
make no difference, and a value may be replaced by another one that fills its slot alike.
-/
namespace SpiderDiagrams.Interchange

variable {α δ : Type}

/-! ## One field -/

/-- What one field makes of the draft. -/
def fillField (slots : List (Slot δ)) (draft : δ) : Option String × Json → Except ReadError δ
  | (none, _) => .error .invalid
  | (some name, v) =>
    match slots.find? (·.name = name) with
    | some slot => if slot.isFilled draft then .error (.duplicateField name) else slot.fill v draft
    | none => if v.isWhole then .ok draft else .error .invalid

theorem fillByName_eq_foldlM (slots : List (Slot δ)) (draft : δ) (fields : List (Option String × Json)) :
    fillByName slots draft fields = fields.foldlM (fillField slots) draft := by
  fun_induction fillByName slots draft fields with
  | case1 draft => rfl
  | case2 draft v fields => rfl
  | case3 draft name v fields slot hslot hfilled => simp [fillField, hslot, hfilled, bind, Except.bind]
  | case4 draft name v fields slot hslot hfilled ih => simp [fillField, hslot, hfilled, ih]
  | case5 draft name v fields hslot hwhole ih => simpa [fillField, hslot, hwhole, bind, Except.bind] using ih
  | case6 draft name v fields hslot hwhole => simp [fillField, hslot, hwhole, bind, Except.bind]

variable {slots : List (Slot δ)} {slot : Slot δ} {draft draft' draft₁ draft₂ : δ} {name : String}
  {v v' : Json}

theorem fillField_of_slot (h : slots.find? (·.name = name) = some slot) :
    fillField slots draft (some name, v) = .ok draft' ↔
      slot.isFilled draft = false ∧ slot.fill v draft = .ok draft' := by
  rw [fillField, h]
  cases hfilled : slot.isFilled draft <;> simp [hfilled]

theorem fillField_of_other (h : slots.find? (·.name = name) = none) :
    fillField slots draft (some name, v) = .ok draft' ↔ v.isWhole = true ∧ draft = draft' := by
  rw [fillField, h]
  cases v.isWhole <;> simp

/-! ## Separate slots -/

/-- Filling the first slot fills the second one only if they have one name, and otherwise they may be filled
in either order. -/
structure Slot.IsSeparateFrom (s t : Slot δ) : Prop where
  isFilled_of_fill : ∀ {v draft draft₁}, s.fill v draft = .ok draft₁ →
    t.isFilled draft₁ = (t.isFilled draft || decide (s.name = t.name))
  exchange : s.name ≠ t.name → ∀ {v w draft draft₁ draft₂},
    s.fill v draft = .ok draft₁ → t.fill w draft₁ = .ok draft₂ →
      ∃ draft₁', t.fill w draft = .ok draft₁' ∧ s.fill v draft₁' = .ok draft₂

/-- Slots are separate if each puts what it reads where the other one does not look. -/
theorem Slot.isSeparateFrom_of_put {α β : Type} {s t : Slot δ} {readFirst : Json → Except ReadError α}
    {readSecond : Json → Except ReadError β} {putFirst : δ → α → δ} {putSecond : δ → β → δ}
    (hs : ∀ v draft, s.fill v draft = readFirst v >>= fun a => .ok (putFirst draft a))
    (ht : ∀ w draft, t.fill w draft = readSecond w >>= fun b => .ok (putSecond draft b))
    (hfilled : ∀ draft a, t.isFilled (putFirst draft a) = (t.isFilled draft || decide (s.name = t.name)))
    (hput : s.name ≠ t.name → ∀ draft a b,
      putSecond (putFirst draft a) b = putFirst (putSecond draft b) a) : s.IsSeparateFrom t := by
  constructor
  · intro v draft draft₁ h
    rw [hs] at h
    obtain ⟨a, -, heq⟩ := bind_eq_ok_iff.mp h
    cases heq
    exact hfilled draft a
  · intro hne v w draft draft₁ draft₂ h₁ h₂
    rw [hs] at h₁
    obtain ⟨a, ha, heq⟩ := bind_eq_ok_iff.mp h₁
    cases heq
    rw [ht] at h₂
    obtain ⟨b, hb, heq⟩ := bind_eq_ok_iff.mp h₂
    cases heq
    refine ⟨putSecond draft b, ?_, ?_⟩
    · rw [ht, hb]
      rfl
    · rw [hs, ha, hput hne]
      rfl

def AreSeparate (slots : List (Slot δ)) : Prop := ∀ s ∈ slots, ∀ t ∈ slots, s.IsSeparateFrom t

namespace AreSeparate

theorem exchange_fields (h : AreSeparate slots) {f g : Option String × Json}
    (hf : fillField slots draft f = .ok draft₁) (hg : fillField slots draft₁ g = .ok draft₂) :
    ∃ draft₁', fillField slots draft g = .ok draft₁' ∧ fillField slots draft₁' f = .ok draft₂ := by
  obtain ⟨_ | a, v⟩ := f
  · cases hf
  obtain ⟨_ | b, w⟩ := g
  · cases hg
  cases ha : slots.find? (·.name = a) with
  | none =>
    obtain ⟨hv, rfl⟩ := (fillField_of_other ha).mp hf
    exact ⟨draft₂, hg, (fillField_of_other ha).mpr ⟨hv, rfl⟩⟩
  | some s =>
    obtain ⟨hs, hfirst⟩ := (fillField_of_slot ha).mp hf
    have hsmem : s ∈ slots := List.mem_of_find?_eq_some ha
    cases hb : slots.find? (·.name = b) with
    | none =>
      obtain ⟨hw, rfl⟩ := (fillField_of_other hb).mp hg
      exact ⟨draft, (fillField_of_other hb).mpr ⟨hw, rfl⟩, hf⟩
    | some t =>
      obtain ⟨ht, hsecond⟩ := (fillField_of_slot hb).mp hg
      have htmem : t ∈ slots := List.mem_of_find?_eq_some hb
      -- The second slot is still free when the first one is filled, so it has another name.
      rw [(h s hsmem t htmem).isFilled_of_fill hfirst, Bool.or_eq_false_iff,
        decide_eq_false_iff_not] at ht
      obtain ⟨draft₁', hw, hv⟩ := (h s hsmem t htmem).exchange ht.2 hfirst hsecond
      have hfree : s.isFilled draft₁' = false := by
        rw [(h t htmem s hsmem).isFilled_of_fill hw, hs, Bool.false_or, decide_eq_false_iff_not]
        exact Ne.symm ht.2
      exact ⟨draft₁', (fillField_of_slot hb).mpr ⟨ht.1, hw⟩, (fillField_of_slot ha).mpr ⟨hfree, hv⟩⟩

theorem fillByName_perm (h : AreSeparate slots) {fields fields' : List (Option String × Json)}
    (hperm : fields.Perm fields') (hfill : fillByName slots draft fields = .ok draft') :
    fillByName slots draft fields' = .ok draft' := by
  rw [fillByName_eq_foldlM] at hfill ⊢
  exact foldlM_eq_ok_of_perm hperm hfill h.exchange_fields

end AreSeparate

theorem areSeparate_zone (room : Nat) : AreSeparate (zoneFormat.slots room) := by
  intro s hs t ht
  simp only [zoneFormat, List.mem_cons, List.not_mem_nil, or_false] at hs ht
  rcases hs with rfl | rfl <;> rcases ht with rfl | rfl <;>
    exact Slot.isSeparateFrom_of_put (fun _ _ => rfl) (fun _ _ => rfl) (by simp) (by simp)

theorem areSeparate_primary (room : Nat) : AreSeparate (primaryFormat.slots room) := by
  intro s hs t ht
  simp only [primaryFormat, List.mem_cons, List.not_mem_nil, or_false] at hs ht
  rcases hs with rfl | rfl | rfl <;> rcases ht with rfl | rfl | rfl <;>
    exact Slot.isSeparateFrom_of_put (fun _ _ => rfl) (fun _ _ => rfl) (by simp) (by simp)

theorem areSeparate_compound (held : Bool) (readOperands : Nat → Json → Except ReadError (List Diagram))
    (room : Nat) : AreSeparate ((compoundFormat held readOperands).slots room) := by
  intro s hs t ht
  simp only [compoundFormat, List.mem_cons, List.not_mem_nil, or_false] at hs ht
  rcases hs with rfl | rfl <;> rcases ht with rfl | rfl <;>
    exact Slot.isSeparateFrom_of_put (fun _ _ => rfl) (fun _ _ => rfl) (by simp) (by simp)

/-! ## The content of records -/

namespace RecordFormat

variable {format : RecordFormat δ α} {room : Nat} {a : α} {fields fields' : List (Option String × Json)}

theorem readContent_perm (h : AreSeparate (format.slots room)) (hperm : fields.Perm fields')
    (hread : format.readContent room (.fields fields) = .ok a) :
    format.readContent room (.fields fields') = .ok a := by
  obtain ⟨draft, hfill, hread⟩ := bind_eq_ok_iff.mp hread
  exact bind_eq_ok_iff.mpr ⟨draft, h.fillByName_perm hperm hfill, hread⟩

/-- A field of another name is passed over. -/
theorem readContent_cons_other (hname : ∀ slot ∈ format.slots room, slot.name ≠ name)
    (hv : v.isWhole = true) (fields : List (Option String × Json)) :
    format.readContent room (.fields ((some name, v) :: fields)) =
      format.readContent room (.fields fields) := by
  have hnone : (format.slots room).find? (·.name = name) = none := by simpa using hname
  rw [readContent, readContent, fillByName, hnone, hv]
  rfl

/-- A value in a field may be replaced by one that fills the slot of that name alike. -/
theorem readContent_replace_field {before after : List (Option String × Json)}
    (hfill : ∀ slot ∈ format.slots room, slot.name = name →
      ∀ draft draft', slot.fill v draft = .ok draft' → slot.fill v' draft = .ok draft')
    (hwhole : v.isWhole = true → v'.isWhole = true)
    (hread : format.readContent room (.fields (before ++ (some name, v) :: after)) = .ok a) :
    format.readContent room (.fields (before ++ (some name, v') :: after)) = .ok a := by
  have hfield : ∀ draft draft', fillField (format.slots room) draft (some name, v) = .ok draft' →
      fillField (format.slots room) draft (some name, v') = .ok draft' := by
    intro draft draft' h
    cases hslot : (format.slots room).find? (·.name = name) with
    | none =>
      obtain ⟨hv, heq⟩ := (fillField_of_other hslot).mp h
      exact (fillField_of_other hslot).mpr ⟨hwhole hv, heq⟩
    | some slot =>
      obtain ⟨hfree, h⟩ := (fillField_of_slot hslot).mp h
      have hname : slot.name = name := by simpa using List.find?_some hslot
      exact (fillField_of_slot hslot).mpr
        ⟨hfree, hfill slot (List.mem_of_find?_eq_some hslot) hname _ _ h⟩
  obtain ⟨draft, hdraft, hread⟩ := bind_eq_ok_iff.mp hread
  refine bind_eq_ok_iff.mpr ⟨draft, ?_, hread⟩
  rw [fillByName_eq_foldlM, List.foldlM_append] at hdraft ⊢
  obtain ⟨draft₁, hbefore, hdraft⟩ := bind_eq_ok_iff.mp hdraft
  obtain ⟨draft₂, hmiddle, hafter⟩ := bind_eq_ok_iff.mp hdraft
  exact bind_eq_ok_iff.mpr ⟨draft₁, hbefore, bind_eq_ok_iff.mpr ⟨draft₂, hfield _ _ hmiddle, hafter⟩⟩

end RecordFormat

/-- A value in order may be replaced by one that fills the slot at its place alike. -/
theorem fillInOrder_replace {before after : List Json}
    (hfill : ∀ slot, slots[before.length]? = some slot →
      ∀ draft draft', slot.fill v draft = .ok draft' → slot.fill v' draft = .ok draft')
    (h : fillInOrder slots draft (before ++ v :: after) = .ok draft') :
    fillInOrder slots draft (before ++ v' :: after) = .ok draft' := by
  induction before generalizing slots draft with
  | nil =>
    cases slots with
    | nil => cases h
    | cons slot slots =>
      obtain ⟨draft₁, hv, h⟩ := bind_eq_ok_iff.mp h
      exact bind_eq_ok_iff.mpr ⟨draft₁, hfill slot rfl _ _ hv, h⟩
  | cons w before ih =>
    cases slots with
    | nil => cases h
    | cons slot slots =>
      obtain ⟨draft₁, hw, h⟩ := bind_eq_ok_iff.mp h
      exact bind_eq_ok_iff.mpr ⟨draft₁, hw, ih hfill h⟩

end SpiderDiagrams.Interchange
