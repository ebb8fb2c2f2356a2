import SpiderDiagrams.Proofs.RoundTrip

/-!
# Texts on one line

What is written for a plain value has no control characters: in strings and names they are escaped, and nothing else
is written with them. So every diagram is printed on one line, whatever its names contain, and no two on the same one.
-/
namespace SpiderDiagrams

namespace Json

/-- No character is a control character. Line breaks are control characters. -/
def IsOneLine (cs : List Char) : Prop := ∀ c ∈ cs, 0x20 ≤ c.toNat

variable {cs ds : List Char} {v : Json} {vs : List Json} {fields : List (Option String × Json)}

instance : Decidable (IsOneLine cs) :=
  decidable_of_iff (cs.all fun c => decide (0x20 ≤ c.toNat)) (by simp [IsOneLine])

theorem isOneLine_append : IsOneLine (cs ++ ds) ↔ IsOneLine cs ∧ IsOneLine ds :=
  List.forall_mem_append

theorem isOneLine_cons {c : Char} : IsOneLine (c :: cs) ↔ 0x20 ≤ c.toNat ∧ IsOneLine cs :=
  List.forall_mem_cons

theorem isOneLine_nil : IsOneLine [] := by simp [IsOneLine]

theorem IsOneLine.ne_lineBreak (h : IsOneLine cs) {c : Char} (hc : c ∈ cs) : c ≠ '\n' ∧ c ≠ '\r' := by
  have hle := h c hc
  constructor <;> rintro rfl <;> exact absurd hle (by decide)

/-- Control characters are escaped, and escapes have none. -/
theorem isOneLine_escape (c : Char) : IsOneLine (escape c) := by
  have hdigits : ∀ n < 0x20, 0x20 ≤ (hexDigit (n / 16)).toNat ∧ 0x20 ≤ (hexDigit (n % 16)).toNat := by
    decide +kernel
  unfold escape
  split
  case h_8 =>
    split
    · rename_i hcontrol
      obtain ⟨hhigh, hlow⟩ := hdigits _ hcontrol
      simp only [isOneLine_cons, hhigh, hlow, isOneLine_nil]
      decide
    · rename_i hplain
      exact List.forall_mem_singleton.mpr (Nat.le_of_not_lt hplain)
  all_goals decide

theorem isOneLine_quote (s : String) : IsOneLine (quote (some s)) := by
  have hquoted : IsOneLine (s.toList.flatMap escape) := by
    intro c hc
    obtain ⟨d, -, hd⟩ := List.mem_flatMap.mp hc
    exact isOneLine_escape d c hd
  have hquote : quote (some s) = '"' :: (s.toList.flatMap escape ++ ['"']) := rfl
  rw [hquote, isOneLine_cons, isOneLine_append, isOneLine_cons]
  exact ⟨by decide, hquoted, by decide, isOneLine_nil⟩

theorem isOneLine_toDigits (n : Nat) : IsOneLine (Nat.toDigits 10 n) := by
  intro c hc
  have hdigit := Nat.isDigit_of_mem_toDigits (b := 10) (by decide) (by decide) hc
  simp only [Char.isDigit, Bool.and_eq_true, decide_eq_true_eq, UInt32.le_iff_toNat_le] at hdigit
  exact Nat.le_trans (by decide) hdigit.1

theorem isOneLine_itemsChars (h : ∀ v ∈ vs, IsOneLine v.chars) : IsOneLine (itemsChars vs) := by
  induction vs with
  | nil => simp [itemsChars, IsOneLine]
  | cons v vs ih =>
    obtain ⟨hv, hvs⟩ := List.forall_mem_cons.mp h
    rw [itemsChars, isOneLine_append, isOneLine_cons]
    exact ⟨⟨by decide, hv⟩, ih hvs⟩

theorem isOneLine_field {name : Option String} {before : Char} (hbefore : 0x20 ≤ before.toNat)
    (hname : name.isSome = true) (hv : IsOneLine v.chars) (hds : IsOneLine ds) :
    IsOneLine (before :: quote name ++ ':' :: v.chars ++ ds) := by
  obtain ⟨s, rfl⟩ := Option.isSome_iff_exists.mp hname
  simp only [isOneLine_append, isOneLine_cons]
  exact ⟨⟨⟨hbefore, isOneLine_quote s⟩, by decide, hv⟩, hds⟩

theorem isOneLine_fieldsChars (names : ∀ f ∈ fields, f.1.isSome = true)
    (h : ∀ f ∈ fields, IsOneLine f.2.chars) : IsOneLine (fieldsChars fields) := by
  induction fields with
  | nil => simp [fieldsChars, IsOneLine]
  | cons f fields ih =>
    obtain ⟨hname, hnames⟩ := List.forall_mem_cons.mp names
    obtain ⟨hv, hfields⟩ := List.forall_mem_cons.mp h
    exact isOneLine_field (by decide) hname hv (ih hnames hfields)

/-- The text of a plain value is on one line. -/
theorem IsPlain.isOneLine (h : v.IsPlain) : IsOneLine v.chars := by
  induction h with
  | null => decide
  | bool b => cases b <;> decide
  | natural n _ => exact isOneLine_toDigits n
  | string s => exact isOneLine_quote s
  | array items _ ih =>
    cases items with
    | nil => decide
    | cons v vs =>
      obtain ⟨hv, hvs⟩ := List.forall_mem_cons.mp ih
      rw [chars, isOneLine_append, isOneLine_cons]
      exact ⟨⟨by decide, hv⟩, isOneLine_itemsChars hvs⟩
  | object fields names _ ih =>
    cases fields with
    | nil => decide
    | cons f fields =>
      obtain ⟨hname, hnames⟩ := List.forall_mem_cons.mp names
      obtain ⟨hv, hfields⟩ := List.forall_mem_cons.mp ih
      exact isOneLine_field (by decide) hname hv (isOneLine_fieldsChars hnames hfields)

end Json

namespace Diagram

theorem isPlain_toJson (d : Diagram) : d.toJson.IsPlain := d.toJson_raw ▸ d.raw.isPlain_toJson

theorem isOneLine_jsonText (d : Diagram) : Json.IsOneLine d.jsonText.toList := by
  rw [jsonText, Json.text, String.toList_ofList]
  exact d.isPlain_toJson.isOneLine

/-- Different diagrams have different texts, however deep they nest. -/
theorem jsonText_injective {d e : Diagram} (h : d.jsonText = e.jsonText) : d = e := by
  have hjson : d.toJson = e.toJson := d.isPlain_toJson.eq_of_text e.isPlain_toJson h
  have hread := readDiagram_toJson false d.toJson.nesting d
  rw [hjson, readDiagram_toJson, if_pos (Nat.le_refl _), if_pos (Nat.le_refl _)] at hread
  exact (Except.ok.inj hread).symm

end Diagram

end SpiderDiagrams
