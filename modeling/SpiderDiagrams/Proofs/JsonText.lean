import SpiderDiagrams.Json.Document
import SpiderDiagrams.Proofs.Nesting
import SpiderDiagrams.Proofs.Quoting

/-!
# Reading back what was written

The text of a plain value is read as that value, whatever stands around it, and there is fuel enough for
every text: two steps for each character.
-/
namespace SpiderDiagrams.Json

variable {v w : Json} {vs items : List Json} {fields : List (Option String × Json)}
  {fuel n : Nat} {rest : List Char}

/-! ## Numbers -/

/-- The text after a value: none, a blank, or what stands between the parts of an array or object. -/
def Ends : List Char → Prop
  | [] => True
  | c :: _ => c = ',' ∨ c = ']' ∨ c = '\x7d' ∨ isBlank c = true

/-- A number does not go on into the text after it. -/
theorem Ends.not_numeral {c : Char} {cs : List Char} (h : Ends (c :: cs)) :
    c.isDigit = false ∧ c ≠ '.' ∧ c ≠ 'e' ∧ c ≠ 'E' := by
  have hc : c ∈ [',', ']', '\x7d', ' ', '\n', '\t', '\r'] := by
    simpa [Ends, isBlank, or_assoc] using h
  have hall : ∀ c ∈ [',', ']', '\x7d', ' ', '\n', '\t', '\r'],
      c.isDigit = false ∧ c ≠ '.' ∧ c ≠ 'e' ∧ c ≠ 'E' := by
    simp
  exact hall c hc

theorem Ends.not_digit (h : Ends rest) : ∀ c ∈ rest.head?, c.isDigit = false := by
  cases rest with
  | nil => simp
  | cons c cs => simpa using h.not_numeral.1

theorem digits?_append {digits : List Char} (hne : digits ≠ [])
    (hdigits : ∀ c ∈ digits, c.isDigit = true) (hrest : ∀ c ∈ rest.head?, c.isDigit = false) :
    digits? (digits ++ rest) = some (digits, rest) := by
  have hstop : rest.takeWhile Char.isDigit = [] ∧ rest.dropWhile Char.isDigit = rest := by
    cases rest with
    | nil => exact ⟨rfl, rfl⟩
    | cons c cs => simp [hrest c rfl]
  rw [digits?, List.takeWhile_append_of_pos hdigits, List.dropWhile_append_of_pos hdigits, hstop.1,
    hstop.2, List.append_nil]
  cases digits with
  | nil => exact absurd rfl hne
  | cons c cs => rfl

/-- A number is written without leading zeros. -/
theorem exists_toDigits_eq_cons (n : Nat) :
    ∃ c cs, Nat.toDigits 10 n = c :: cs ∧ (c = '0' → cs = []) := by
  induction n using Nat.strongRecOn with
  | ind n ih =>
    rcases Nat.lt_or_ge n 10 with h | h
    · exact ⟨_, [], Nat.toDigits_of_lt_base h, fun _ => rfl⟩
    · obtain ⟨c, cs, hcs, hzero⟩ := ih (n / 10) (by omega)
      refine ⟨c, _, by rw [Nat.toDigits_of_base_le (by decide) h, hcs, List.cons_append], ?_⟩
      rintro rfl
      -- Only the number zero begins with the digit zero, and a number with two digits is not below ten.
      have hvalue := Nat.ofDigitChars_toDigits (b := 10) (n := n / 10) (by decide) (by decide)
      rw [hcs, hzero rfl] at hvalue
      have : n / 10 = 0 := hvalue.symm
      omega

theorem isDigit_of_toDigits_eq_cons {c : Char} {cs : List Char} (h : Nat.toDigits 10 n = c :: cs) :
    c.isDigit = true := by
  have hc : c ∈ Nat.toDigits 10 n := h ▸ List.mem_cons_self
  exact Nat.isDigit_of_mem_toDigits (by decide) (by decide) hc

theorem digits?_toDigits (n : Nat) (hrest : ∀ c ∈ rest.head?, c.isDigit = false) :
    digits? (Nat.toDigits 10 n ++ rest) = some (Nat.toDigits 10 n, rest) :=
  digits?_append Nat.toDigits_ne_nil
    (fun _ hc => Nat.isDigit_of_mem_toDigits (b := 10) (n := n) (by decide) (by decide) hc) hrest

theorem wholeDigits?_toDigits (n : Nat) (hrest : ∀ c ∈ rest.head?, c.isDigit = false) :
    wholeDigits? (Nat.toDigits 10 n ++ rest) = some (Nat.toDigits 10 n, rest) := by
  have hdigits := digits?_toDigits n hrest
  obtain ⟨c, cs, hcs, hzero⟩ := exists_toDigits_eq_cons n
  rw [wholeDigits?, hdigits, hcs]
  split
  · rename_i h
    cases h
    cases hzero rfl
  · rfl

theorem append_le_foldl (digits : List Char) (n : Nat) : n ≤ digits.foldl Decimal.append n := by
  induction digits generalizing n with
  | nil => exact Nat.le_refl n
  | cons c cs ih =>
    refine Nat.le_trans ?_ (ih (Decimal.append n c))
    unfold Decimal.append
    omega

/-- Where the whole number fits, all its digits do. -/
theorem appendFitting_of_lt {digits : List Char} {n : Nat}
    (h : digits.foldl Decimal.append n < Decimal.naturalBound) :
    Decimal.appendFitting n digits = (digits.foldl Decimal.append n, []) := by
  induction digits generalizing n with
  | nil => rfl
  | cons c cs ih =>
    have hc : Decimal.append n c < Decimal.naturalBound := Nat.lt_of_le_of_lt (append_le_foldl cs _) h
    rw [Decimal.appendFitting, if_pos hc, ih h, List.foldl_cons]

theorem value_toDigits (n : Nat) : Decimal.value (Nat.toDigits 10 n) = n :=
  Nat.ofDigitChars_toDigits (b := 10) (by decide) (by decide)

theorem appendFitting_toDigits (h : n < Decimal.naturalBound) :
    Decimal.appendFitting 0 (Nat.toDigits 10 n) = (n, []) := by
  have hvalue : (Nat.toDigits 10 n).foldl Decimal.append 0 = n := value_toDigits n
  rw [appendFitting_of_lt (by rwa [hvalue]), hvalue]

theorem unsignedNumeral?_toDigits (h : n < Decimal.naturalBound) (hrest : Ends rest) :
    unsignedNumeral? (Nat.toDigits 10 n ++ rest) = some (.natural n, rest) := by
  have hfraction : fractionDigits? rest = some ([], rest) := by
    cases rest with
    | nil => rfl
    | cons c cs => simp [fractionDigits?, hrest.not_numeral.2.1]
  have hexponent : exponent? rest = some (none, rest) := by
    cases rest with
    | nil => rfl
    | cons c cs => simp [exponent?, hrest.not_numeral.2.2]
  simp only [unsignedNumeral?, wholeDigits?_toDigits n hrest.not_digit, hfraction, hexponent,
    Option.bind_eq_bind, Option.bind_some, numeralOf, appendFitting_toDigits h]
  rfl

theorem exponentDigits?_toDigits (n : Nat) (hrest : Ends rest) :
    exponentDigits? (Nat.toDigits 10 n ++ rest) = some ((n : Int), rest) := by
  have hdigits := digits?_toDigits n hrest.not_digit
  obtain ⟨c, cs, hcs, -⟩ := exists_toDigits_eq_cons n
  have hc := isDigit_of_toDigits_eq_cons hcs
  have hvalue : Decimal.value (c :: cs) = n := hcs ▸ value_toDigits n
  rw [hcs, List.cons_append] at hdigits ⊢
  unfold exponentDigits?
  split
  · rename_i heq
    cases heq
    cases hc
  · rename_i heq
    cases heq
    cases hc
  · rw [hdigits, ← hvalue]
    rfl

theorem unsignedNumeral?_exponent (h : n < Decimal.naturalBound) (e : Nat) (hrest : Ends rest) :
    unsignedNumeral? (Nat.toDigits 10 n ++ 'e' :: (Nat.toDigits 10 e ++ rest)) =
      some (.decimal n e, rest) := by
  have hstop : ∀ c ∈ ('e' :: (Nat.toDigits 10 e ++ rest)).head?, c.isDigit = false := by simp
  have hfraction : fractionDigits? ('e' :: (Nat.toDigits 10 e ++ rest)) =
      some ([], 'e' :: (Nat.toDigits 10 e ++ rest)) := rfl
  have hexponent : exponent? ('e' :: (Nat.toDigits 10 e ++ rest)) = some (some (e : Int), rest) := by
    rw [exponent?, exponentDigits?_toDigits e hrest]
    rfl
  simp only [unsignedNumeral?, wholeDigits?_toDigits n hstop, hfraction, hexponent, Option.bind_eq_bind, Option.bind_some, numeralOf,
    appendFitting_toDigits h, Decimal.appendFitting]
  simp

theorem numeralText_exponent (n e : Nat) :
    numeralText (.decimal n e) = Nat.toDigits 10 n ++ 'e' :: Nat.toDigits 10 e := by
  have hrepr (k : Nat) : (toString (k : Int)).toList = Nat.toDigits 10 k := String.toList_ofList
  have he : (toString "e").toList = ['e'] := rfl
  simp only [numeralText, String.toList_append, hrepr, he, List.append_assoc, List.singleton_append]

/-! ## Reading back -/

/-- The text is read as the value it was written for, whatever follows. -/
def ReadsBack (v : Json) : Prop :=
  ∀ fuel rest, 2 * v.chars.length ≤ fuel → Ends rest → value fuel (v.chars ++ rest) = (v, some rest)

/-- The text of a plain value begins with the value itself: not with a blank, nor with the end of an array. -/
theorem IsPlain.exists_chars_eq_cons (h : v.IsPlain) :
    ∃ c cs, v.chars = c :: cs ∧ isBlank c = false ∧ c ≠ ']' := by
  cases h with
  | null => exact ⟨_, _, rfl, rfl, by decide⟩
  | bool b => cases b <;> exact ⟨_, _, rfl, rfl, by decide⟩
  | natural n small =>
    obtain ⟨c, cs, hcs, -⟩ := exists_toDigits_eq_cons n
    have hc := isDigit_of_toDigits_eq_cons hcs
    refine ⟨c, cs, hcs, ?_, ?_⟩
    · rw [Bool.eq_false_iff]
      intro hb
      simp only [isBlank, Bool.or_eq_true, decide_eq_true_eq] at hb
      rcases hb with ((rfl | rfl) | rfl) | rfl <;> cases hc
    · rintro rfl
      cases hc
  | string s => exact ⟨_, _, rfl, rfl, by decide⟩
  | array items plain => cases items <;> exact ⟨_, _, rfl, rfl, by decide⟩
  | object fields names plain => cases fields <;> exact ⟨_, _, rfl, rfl, by decide⟩

theorem skipBlanks_cons {c : Char} {cs : List Char} (h : isBlank c = false) :
    skipBlanks (c :: cs) = c :: cs := by
  rw [skipBlanks, List.dropWhile_cons_of_neg (by simp [h])]

theorem mem_of_isDigit {c : Char} (h : c.isDigit = true) :
    c ∈ ['0', '1', '2', '3', '4', '5', '6', '7', '8', '9'] := by
  have hall : ∀ n < 58, 48 ≤ n →
      Char.ofNat n ∈ ['0', '1', '2', '3', '4', '5', '6', '7', '8', '9'] := by
    decide
  simp only [Char.isDigit, Bool.and_eq_true, decide_eq_true_eq, UInt32.le_iff_toNat_le] at h
  have hc := hall c.toNat (Nat.lt_succ_of_le h.2) h.1
  rwa [Char.ofNat_toNat] at hc

theorem value_digit {c : Char} {cs : List Char} (hc : c.isDigit = true) :
    value (fuel + 1) (c :: cs) =
      match unsignedNumeral? (c :: cs) with
      | some (n, rest) => (number n, some rest)
      | none => (broken, none) := by
  have hmem := mem_of_isDigit hc
  simp only [List.mem_cons, List.not_mem_nil, or_false] at hmem
  rcases hmem with rfl | rfl | rfl | rfl | rfl | rfl | rfl | rfl | rfl | rfl <;> rfl

theorem readsBack_natural (h : n < Decimal.naturalBound) : ReadsBack (number (.natural n)) := by
  intro fuel rest hfuel hrest
  obtain ⟨c, cs, hcs, -⟩ := exists_toDigits_eq_cons n
  have hc := isDigit_of_toDigits_eq_cons hcs
  have hread := unsignedNumeral?_toDigits h hrest
  cases fuel with
  | zero => simp [chars, numeralText, hcs] at hfuel
  | succ fuel =>
    rw [hcs, List.cons_append] at hread
    rw [chars, numeralText, hcs, List.cons_append, value_digit hc, hread]

theorem readsBack_exponent (h : n < Decimal.naturalBound) (e : Nat) :
    ReadsBack (number (.decimal n e)) := by
  intro fuel rest hfuel hrest
  obtain ⟨c, cs, hcs, -⟩ := exists_toDigits_eq_cons n
  have hc := isDigit_of_toDigits_eq_cons hcs
  have hread := unsignedNumeral?_exponent h e hrest
  cases fuel with
  | zero => simp [chars, numeralText_exponent] at hfuel
  | succ fuel =>
    rw [hcs, List.cons_append] at hread
    rw [chars, numeralText_exponent, hcs, List.cons_append, List.cons_append, List.append_assoc,
      List.cons_append, value_digit hc, hread]

/-- An array is read item by item, two steps of fuel for each of its characters. -/
theorem items_chars (fuel : Nat) (rest : List Char) (hv : ReadsBack v) (hvs : ∀ w ∈ vs, ReadsBack w)
    (hfuel : 2 * (v.chars ++ itemsChars vs).length ≤ fuel) :
    Json.items fuel (v.chars ++ itemsChars vs ++ rest) = (v :: vs, some rest) := by
  induction vs generalizing v fuel with
  | nil =>
    cases fuel with
    | zero => simp [itemsChars] at hfuel
    | succ fuel =>
      simp only [itemsChars, List.length_append, List.length_singleton] at hfuel
      have hread := hv fuel (']' :: rest) (by omega) (.inr (.inl rfl))
      simp only [itemsChars, List.append_assoc, List.singleton_append, Json.items, hread]
      rfl
  | cons w vs ih =>
    cases fuel with
    | zero => simp [itemsChars] at hfuel
    | succ fuel =>
      simp only [itemsChars, List.length_append, List.length_cons, List.cons_append] at hfuel
      have hread := hv fuel (',' :: (w.chars ++ itemsChars vs ++ rest)) (by omega) (.inl rfl)
      have hmore := ih fuel (hvs w List.mem_cons_self)
        (fun x hx => hvs x (List.mem_cons_of_mem _ hx)) (by simp only [List.length_append]; omega)
      simp only [itemsChars, List.append_assoc, List.cons_append, Json.items] at hread hmore ⊢
      rw [hread]
      simp only [skipBlanks_cons (c := ',') rfl, hmore]

theorem quote_append (s : String) (text : List Char) :
    quote (some s) ++ text = '"' :: (s.toList.flatMap escape ++ '"' :: text) := by
  have hquote : quote (some s) = '"' :: (s.toList.flatMap escape ++ ['"']) := rfl
  rw [hquote, List.cons_append, List.append_assoc, List.singleton_append]

theorem value_quote (s : String) (text : List Char) :
    value (fuel + 1) (quote (some s) ++ text) = (string (some s), some text) := by
  rw [quote_append, value, skipBlanks_cons (c := '"') rfl]
  simp only [unquote_escaped]

theorem fields_quote (s : String) (text : List Char) :
    Json.fields (fuel + 1) (quote (some s) ++ ':' :: text) =
      match value fuel text with
      | (v, none) => ([(some s, v)], none)
      | (v, some rest) =>
        match skipBlanks rest with
        | ',' :: rest => ((some s, v) :: (Json.fields fuel rest).1, (Json.fields fuel rest).2)
        | '\x7d' :: rest => ([(some s, v)], some rest)
        | _ => ([(some s, v), (none, broken)], none) := by
  rw [quote_append, Json.fields, skipBlanks_cons (c := '"') rfl]
  simp only [unquote_escaped]
  rfl

theorem fields_chars (fuel : Nat) (rest : List Char) (s : String) (hv : ReadsBack v)
    (hfs : ∀ f ∈ fields, f.1.isSome = true ∧ ReadsBack f.2)
    (hfuel : 2 * (quote (some s) ++ ':' :: v.chars ++ fieldsChars fields).length ≤ fuel) :
    Json.fields fuel (quote (some s) ++ ':' :: v.chars ++ fieldsChars fields ++ rest) =
      ((some s, v) :: fields, some rest) := by
  induction fields generalizing s v fuel with
  | nil =>
    cases fuel with
    | zero => simp [fieldsChars] at hfuel
    | succ fuel =>
      simp only [fieldsChars, List.length_append, List.length_cons] at hfuel
      have hread := hv fuel ('\x7d' :: rest) (by omega) (.inr (.inr (.inl rfl)))
      simp only [fieldsChars, List.append_assoc, List.cons_append, List.nil_append, fields_quote,
        hread]
      rfl
  | cons f fields ih =>
    obtain ⟨name, w⟩ := f
    obtain ⟨t, rfl⟩ : ∃ t, name = some t := Option.isSome_iff_exists.mp (hfs _ List.mem_cons_self).1
    cases fuel with
    | zero => simp [fieldsChars] at hfuel
    | succ fuel =>
      simp only [fieldsChars, List.length_append, List.length_cons, List.cons_append] at hfuel
      have hread := hv fuel
        (',' :: (quote (some t) ++ ':' :: w.chars ++ fieldsChars fields ++ rest)) (by omega) (.inl rfl)
      have hmore := ih fuel t (hfs _ List.mem_cons_self).2
        (fun f hf => hfs f (List.mem_cons_of_mem _ hf))
        (by simp only [List.length_append, List.length_cons]; omega)
      simp only [fieldsChars, List.append_assoc, List.cons_append, fields_quote] at hread hmore ⊢
      rw [hread]
      simp only [skipBlanks_cons (c := ',') rfl, hmore]

/-- The first item of an array is neither passed over nor taken for the end of the array. -/
theorem value_array (hv : v.IsPlain) (text : List Char) :
    value (fuel + 1) ('[' :: (v.chars ++ text)) =
      (array (Json.items fuel (v.chars ++ text)).1, (Json.items fuel (v.chars ++ text)).2) := by
  obtain ⟨c, cs, hcs, hblank, hne⟩ := hv.exists_chars_eq_cons
  rw [hcs, List.cons_append, value, skipBlanks_cons (c := '[') rfl]
  simp only [skipBlanks_cons hblank]
  split
  · rename_i heq
    exact absurd (List.cons.inj heq).1 hne
  · rfl

theorem readsBack_array (plain : ∀ v ∈ items, v.IsPlain) (h : ∀ v ∈ items, ReadsBack v) :
    ReadsBack (array items) := by
  intro fuel rest hfuel hrest
  cases fuel with
  | zero => cases items <;> simp [chars] at hfuel
  | succ fuel =>
    cases items with
    | nil => rfl
    | cons v vs =>
      simp only [chars, List.length_append, List.length_cons, List.cons_append] at hfuel
      have hitems := items_chars fuel rest (h v List.mem_cons_self)
        (fun w hw => h w (List.mem_cons_of_mem _ hw)) (by simp only [List.length_append]; omega)
      rw [List.append_assoc] at hitems
      rw [chars, List.cons_append, List.cons_append, List.append_assoc,
        value_array (plain v List.mem_cons_self), hitems]

theorem value_object (s : String) (text : List Char) :
    value (fuel + 1) ('\x7b' :: (quote (some s) ++ text)) =
      (object (Json.fields fuel (quote (some s) ++ text)).1,
        (Json.fields fuel (quote (some s) ++ text)).2) := by
  rw [quote_append, value, skipBlanks_cons (c := '\x7b') rfl]
  simp only [skipBlanks_cons (c := '"') rfl]
  rfl

theorem readsBack_object (names : ∀ f ∈ fields, f.1.isSome = true)
    (h : ∀ f ∈ fields, ReadsBack f.2) : ReadsBack (object fields) := by
  intro fuel rest hfuel hrest
  cases fuel with
  | zero =>
    cases fields with
    | nil => simp [chars] at hfuel
    | cons f fields => simp [chars] at hfuel
  | succ fuel =>
    cases fields with
    | nil => rfl
    | cons f fields =>
      obtain ⟨name, v⟩ := f
      obtain ⟨s, rfl⟩ : ∃ s, name = some s := Option.isSome_iff_exists.mp (names _ List.mem_cons_self)
      simp only [chars, List.length_append, List.length_cons, List.cons_append] at hfuel
      have hfields := fields_chars fuel rest s (h _ List.mem_cons_self)
        (fun f hf => ⟨names f (List.mem_cons_of_mem _ hf), h f (List.mem_cons_of_mem _ hf)⟩)
        (by simp only [List.length_append, List.length_cons]; omega)
      rw [List.append_assoc, List.append_assoc] at hfields
      rw [chars, List.append_assoc, List.append_assoc, List.cons_append, value_object, hfields]

/-- A plain value is read back from its own text. -/
theorem IsPlain.readsBack (h : v.IsPlain) : ReadsBack v := by
  induction h with
  | null =>
    intro fuel rest hfuel hrest
    cases fuel with
    | zero => simp [chars] at hfuel
    | succ fuel => rfl
  | bool b =>
    intro fuel rest hfuel hrest
    cases fuel with
    | zero => cases b <;> simp [chars] at hfuel
    | succ fuel => cases b <;> rfl
  | natural n small => exact readsBack_natural small
  | string s =>
    intro fuel rest hfuel hrest
    cases fuel with
    | zero => cases hfuel
    | succ fuel => exact value_quote s rest
  | array items plain ih => exact readsBack_array plain ih
  | object fields names plain ih => exact readsBack_object names ih

/-- A text that is read back is a document of its value, also where blanks follow. -/
theorem ReadsBack.ofText_append (h : ReadsBack v) {blanks : List Char}
    (hblanks : ∀ c ∈ blanks, isBlank c = true) :
    Document.ofText (v.text ++ .ofList blanks) = ⟨v, true⟩ := by
  have hends : Ends blanks := by
    cases blanks with
    | nil => trivial
    | cons c cs => exact .inr (.inr (.inr (hblanks c List.mem_cons_self)))
  have hread := h (2 * (v.chars ++ blanks).length + 2) blanks
    (by simp only [List.length_append]; omega) hends
  have hskip : skipBlanks (blanks ++ []) = [] := List.dropWhile_append_of_pos hblanks
  rw [List.append_nil] at hskip
  simp only [Document.ofText, Json.text, String.toList_append, String.toList_ofList, hread, hskip]
  rfl

theorem ReadsBack.ofText (h : ReadsBack v) : Document.ofText v.text = ⟨v, true⟩ := by
  have hread : Document.ofText (v.text ++ .ofList []) = ⟨v, true⟩ := h.ofText_append (by simp)
  rwa [String.ofList_nil, String.append_empty] at hread

/-- The text of a plain value is a document of that value, also where blanks follow. -/
theorem Document.ofText_text_append (h : v.IsPlain) {blanks : List Char}
    (hblanks : ∀ c ∈ blanks, isBlank c = true) :
    Document.ofText (v.text ++ .ofList blanks) = ⟨v, true⟩ := h.readsBack.ofText_append hblanks

/-- The text of a plain value is a document with nothing after that value. -/
theorem Document.ofText_text (h : v.IsPlain) : Document.ofText v.text = ⟨v, true⟩ := h.readsBack.ofText

theorem IsPlain.eq_of_text (hv : v.IsPlain) (hw : w.IsPlain) (h : v.text = w.text) : v = w := by
  have hdocument := congrArg Document.ofText h
  rw [Document.ofText_text hv, Document.ofText_text hw] at hdocument
  exact (Document.mk.inj hdocument).1

end SpiderDiagrams.Json
