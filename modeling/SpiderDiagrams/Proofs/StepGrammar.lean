import Mathlib.Data.List.Induction
import Mathlib.Data.Nat.Digits.Defs
import SpiderDiagrams.CommandLine.StepText
import SpiderDiagrams.Proofs.JsonText

/-!
# How steps are written

A step is written as its rule, an at sign and its index, and an index as decimal digits, with or without a plus sign
before them. The reader takes exactly the texts of this form whose index has no more than 64 bits. It reads digit by
digit and stops when the number gets too large; since no further digit makes it smaller, this depends on the value of
all digits alone.
-/
namespace SpiderDiagrams.CommandLine

open Decimal

/-- The value of decimal digits by their places. -/
def placeValue (digits : List Char) : Nat := Nat.ofDigits 10 (digits.reverse.map digitValue)

/-- An index is written as one or more decimal digits, which may have a plus sign before them. -/
def WritesIndex (n : Nat) (text : List Char) : Prop :=
  ∃ digits, (text = digits ∨ text = '+' :: digits) ∧ digits ≠ [] ∧ (∀ c ∈ digits, c.isDigit = true) ∧
    placeValue digits = n

/-- A step is written as its rule, which may have any characters, an at sign and its index. -/
def StepRequest.IsWrittenAs (step : StepRequest) (text : String) : Prop :=
  ∃ index : List Char, text = step.rule ++ "@" ++ .ofList index ∧ WritesIndex step.index index

variable {text index rule digits : List Char} {n start : Nat} {step : StepRequest}

/-! ## Digits -/

theorem value_eq_placeValue (digits : List Char) : value digits = placeValue digits := by
  induction digits using List.reverseRecOn with
  | nil => rfl
  | append_singleton digits c ih =>
    rw [value, List.foldl_append, List.foldl_cons, List.foldl_nil, ← value, ih, placeValue, placeValue,
      List.reverse_append, List.reverse_singleton, List.singleton_append, List.map_cons, Nat.ofDigits_cons, append,
      Nat.add_comm]

/-- Digits are appended to the end exactly where the whole number is an index. -/
theorem appendDigits_eq_ok_iff (hstart : start < naturalBound) :
    appendDigits start digits = .ok n ↔
      (∀ c ∈ digits, c.isDigit = true) ∧ digits.foldl append start = n ∧ n < naturalBound := by
  induction digits generalizing start with
  | nil =>
    simp only [appendDigits, Except.ok.injEq, List.not_mem_nil, false_implies, implies_true, List.foldl_nil, true_and]
    constructor
    · rintro rfl
      exact ⟨rfl, hstart⟩
    · exact And.left
  | cons c cs ih =>
    rw [appendDigits, List.foldl_cons, List.forall_mem_cons]
    cases hc : c.isDigit with
    | false => simp
    | true =>
      rcases Nat.lt_or_ge (append start c) naturalBound with hlt | hge
      · simp only [Bool.not_true, Bool.false_eq_true, if_false, if_pos hlt, ih hlt, true_and]
      · simp only [Bool.not_true, Bool.false_eq_true, if_false, if_neg (Nat.not_lt_of_le hge), true_and, reduceCtorEq,
          false_iff]
        rintro ⟨-, rfl, hn⟩
        have := Json.append_le_foldl cs (append start c)
        omega

theorem appendDigits_zero_eq_ok_iff :
    appendDigits 0 digits = .ok n ↔ (∀ c ∈ digits, c.isDigit = true) ∧ placeValue digits = n ∧ n < naturalBound := by
  rw [appendDigits_eq_ok_iff (by decide), ← value, value_eq_placeValue]

theorem readIndexText_eq_ok_iff : readIndexText text = .ok n ↔ WritesIndex n text ∧ n < naturalBound := by
  unfold readIndexText
  split
  · -- nothing
    simp [WritesIndex]
  · -- a plus sign alone
    simp [WritesIndex]
  · -- digits behind a plus sign
    rename_i digits hne
    rw [appendDigits_zero_eq_ok_iff]
    constructor
    · rintro ⟨hdigits, hvalue, hn⟩
      exact ⟨⟨digits, .inr rfl, fun h => hne (h ▸ rfl), hdigits, hvalue⟩, hn⟩
    · rintro ⟨⟨_, h | h, -, hdigits, hvalue⟩, hn⟩
      · subst h
        exact absurd (hdigits '+' List.mem_cons_self) (by decide)
      · cases h
        exact ⟨hdigits, hvalue, hn⟩
  · -- digits alone
    rename_i hnil _ hplus
    rw [appendDigits_zero_eq_ok_iff]
    constructor
    · rintro ⟨hdigits, hvalue, hn⟩
      exact ⟨⟨text, .inl rfl, hnil, hdigits, hvalue⟩, hn⟩
    · rintro ⟨⟨digits, h | h, -, hdigits, hvalue⟩, hn⟩
      · subst h
        exact ⟨hdigits, hvalue, hn⟩
      · exact absurd h (hplus digits)

/-! ## The last at sign -/

theorem splitAtSign?_eq_none_iff : splitAtSign? text = none ↔ '@' ∉ text := by
  induction text with
  | nil => simp [splitAtSign?]
  | cons c cs ih =>
    rw [splitAtSign?, List.mem_cons, not_or]
    cases hcs : splitAtSign? cs with
    | none => simp [ih.mp hcs, eq_comm]
    | some parts =>
      have hmem : '@' ∈ cs := by
        by_contra hnot
        rw [ih.mpr hnot] at hcs
        cases hcs
      simp [hmem]

theorem splitAtSign?_append (rule : List Char) (h : '@' ∉ index) :
    splitAtSign? (rule ++ '@' :: index) = some (rule, index) := by
  induction rule with
  | nil => rw [List.nil_append, splitAtSign?, splitAtSign?_eq_none_iff.mpr h, if_pos rfl]
  | cons c rule ih => rw [List.cons_append, splitAtSign?, ih]

theorem eq_append_of_splitAtSign? (h : splitAtSign? text = some (rule, index)) : text = rule ++ '@' :: index := by
  induction text generalizing rule with
  | nil => cases h
  | cons c cs ih =>
    rw [splitAtSign?] at h
    split at h
    · rename_i rule' index' hcs
      cases h
      rw [ih hcs, List.cons_append]
    · split at h
      · rename_i hc
        cases h
        rw [hc, List.nil_append]
      · cases h

/-! ## Steps -/

theorem not_mem_of_writesIndex (h : WritesIndex n text) : '@' ∉ text := by
  obtain ⟨digits, htext, -, hdigits, -⟩ := h
  have hnot : '@' ∉ digits := fun hmem => absurd (hdigits '@' hmem) (by decide)
  rcases htext with rfl | rfl
  · exact hnot
  · simpa using hnot

theorem writesIndex_toDigits (n : Nat) : WritesIndex n (Nat.toDigits 10 n) :=
  ⟨_, .inl rfl, Nat.toDigits_ne_nil,
    fun _ hc => Nat.isDigit_of_mem_toDigits (b := 10) (n := n) (by decide) (by decide) hc,
    by rw [← value_eq_placeValue, Json.value_toDigits]⟩

/-- What is written is read back, and nothing else is read. -/
theorem ofText_eq_ok_iff {text : String} :
    StepRequest.ofText text = .ok step ↔ step.IsWrittenAs text ∧ step.index < naturalBound := by
  constructor
  · intro h
    unfold StepRequest.ofText at h
    split at h
    · cases h
    · rename_i rule index hsplit
      split at h
      · rename_i n hread
        cases h
        obtain ⟨hwritten, hn⟩ := readIndexText_eq_ok_iff.mp hread
        refine ⟨⟨index, ?_, hwritten⟩, hn⟩
        rw [← String.toList_inj, eq_append_of_splitAtSign? hsplit]
        simp
      · cases h
  · rintro ⟨⟨index, rfl, hwritten⟩, hn⟩
    have hchars : (step.rule ++ "@" ++ .ofList index).toList = step.rule.toList ++ '@' :: index := by simp
    unfold StepRequest.ofText
    rw [hchars, splitAtSign?_append _ (not_mem_of_writesIndex hwritten)]
    simp only [readIndexText_eq_ok_iff.mpr ⟨hwritten, hn⟩, String.ofList_toList]

/-- The texts that are read are those in which a step is written whose index has no more than 64 bits; all others are
refused. Whatever its rule contains, a step with the decimal notation of its index is read back. -/
theorem ofText_reads_exactly_written (text : String) (step : StepRequest) :
    (StepRequest.ofText text = .ok step ↔ step.IsWrittenAs text ∧ step.index ≤ 2 ^ 64 - 1) ∧
      ((∃ e, StepRequest.ofText text = .error e) ↔
        ¬ ∃ other : StepRequest, other.IsWrittenAs text ∧ other.index ≤ 2 ^ 64 - 1) ∧
      (step.index < 2 ^ 64 → StepRequest.ofText (step.rule ++ "@" ++ toString step.index) = .ok step) := by
  have hbound (n : Nat) : n < naturalBound ↔ n ≤ 2 ^ 64 - 1 := by
    show n < 2 ^ 64 ↔ _
    omega
  refine ⟨?_, ?_, ?_⟩
  · rw [ofText_eq_ok_iff, hbound]
  · simp only [← hbound, ← ofText_eq_ok_iff]
    cases StepRequest.ofText text with
    | ok read => simp
    | error e => simp
  · intro hindex
    have hdigits : toString step.index = .ofList (Nat.toDigits 10 step.index) := rfl
    exact ofText_eq_ok_iff.mpr ⟨⟨_, by rw [hdigits], writesIndex_toDigits step.index⟩, hindex⟩

/-- A rule with an at sign and the largest index, and an index with a plus sign and leading zeros. -/
theorem ofText_reads_exactly_written_atSign :
    let largest : StepRequest := ⟨"a@b", 2 ^ 64 - 1⟩
    let step : StepRequest := ⟨"a@b", 7⟩
    largest.index < 2 ^ 64 ∧ StepRequest.ofText "a@b@18446744073709551615" = .ok largest ∧
      step.IsWrittenAs "a@b@+007" ∧ StepRequest.ofText "a@b@+007" = .ok step := by
  intro largest step
  have hsmall : largest.index < 2 ^ 64 := by decide
  have hwritten : step.IsWrittenAs "a@b@+007" :=
    ⟨['+', '0', '0', '7'], by decide, ['0', '0', '7'], .inr rfl, by decide, List.all_eq_true.mp rfl, by decide⟩
  have htext : largest.rule ++ "@" ++ toString largest.index = "a@b@18446744073709551615" := by decide +kernel
  obtain ⟨-, -, hlargest⟩ := ofText_reads_exactly_written "" largest
  obtain ⟨hread, -⟩ := ofText_reads_exactly_written "a@b@+007" step
  exact ⟨hsmall, htext ▸ hlargest hsmall, hwritten, hread.mpr ⟨hwritten, by decide⟩⟩

end SpiderDiagrams.CommandLine
