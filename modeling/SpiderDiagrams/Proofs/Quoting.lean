import Mathlib.Data.Option.Basic
import SpiderDiagrams.Json.Quoted

/-!
# Quoting and unquoting

Every character is written as one piece, either as itself or escaped, and that piece stands for it. So a
quoted string ends at its own closing quote and is read back as it was, whatever characters it has.
-/
namespace SpiderDiagrams.Json

namespace Piece

/-- The pieces that a single character may be written as. -/
inductive Spells (c : Char) : Piece → Prop
  | char : Spells c (char c)
  | unit (control : c.toNat < 0x20) : Spells c (unit c.toNat)

variable {c : Char} {piece : Piece} {rest : List Char}

theorem Spells.decode_cons (h : piece.Spells c) (pieces : List Piece) :
    decode (piece :: pieces) = (decode pieces).map (c :: ·) := by
  cases h with
  | char => rfl
  | unit control =>
    have hhigh : isHighSurrogate c.toNat = false := by
      simp only [isHighSurrogate, Bool.and_eq_false_iff, decide_eq_false_iff_not]
      omega
    have hlow : isLowSurrogate c.toNat = false := by
      simp only [isLowSurrogate, Bool.and_eq_false_iff, decide_eq_false_iff_not]
      omega
    rw [decode.eq_def]
    simp only [hhigh, hlow, Bool.false_eq_true, if_false, Char.ofNat_toNat]

theorem scan_letter (letter : Char) (h : ofLetter? letter = some c) (rest : List Char) :
    scan ('\\' :: letter :: rest) = (scan rest).map fun a => (char c :: a.1, a.2) := by
  have hu : letter ≠ 'u' := by
    rintro rfl
    cases h
  rw [scan.eq_4 letter rest fun _ _ _ _ _ hl _ => hu hl, h]
  cases scan rest <;> rfl

theorem scan_plain (hquote : c ≠ '"') (hbackslash : c ≠ '\\') (hcontrol : 0x20 ≤ c.toNat)
    (rest : List Char) : scan (c :: rest) = (scan rest).map fun a => (char c :: a.1, a.2) := by
  have hguard : (guard (c ≠ '\\' ∧ 0x20 ≤ c.toNat) : Option Unit) = some () :=
    (Option.guard_eq_some' ()).mpr ⟨hbackslash, hcontrol⟩
  rw [scan.eq_5 c rest hquote (fun _ _ _ _ _ hc _ => hbackslash hc) (fun _ _ hc _ => hbackslash hc),
    hguard]
  cases scan rest <;> rfl

theorem unit?_hexDigit (n : Nat) (h : n < 0x20) :
    unit? '0' '0' (hexDigit (n / 16)) (hexDigit (n % 16)) = some (unit n) := by
  have hall : ∀ n < 0x20, unit? '0' '0' (hexDigit (n / 16)) (hexDigit (n % 16)) = some (unit n) := by
    decide
  exact hall n h

theorem scan_control (h : c.toNat < 0x20) (rest : List Char) :
    scan ('\\' :: 'u' :: '0' :: '0' :: hexDigit (c.toNat / 16) :: hexDigit (c.toNat % 16) :: rest) =
      (scan rest).map fun a => (unit c.toNat :: a.1, a.2) := by
  rw [scan.eq_3, unit?_hexDigit _ h]
  cases scan rest <;> rfl

/-- What a character is written as is scanned as one piece that spells the character. -/
theorem exists_scan_escape (c : Char) :
    ∃ piece : Piece, piece.Spells c ∧
      ∀ rest, scan (escape c ++ rest) = (scan rest).map fun a => (piece :: a.1, a.2) := by
  unfold escape
  split
  case h_8 =>
    rename_i hquote hbackslash _ _ _ _ _
    split
    · rename_i h
      exact ⟨_, .unit h, scan_control h⟩
    · rename_i h
      exact ⟨_, .char, scan_plain hquote hbackslash (Nat.le_of_not_lt h)⟩
  all_goals exact ⟨_, .char, scan_letter _ rfl⟩

/-- The closing quote is found, and what stands before it is what was written. -/
theorem exists_scan_escaped (cs : List Char) (rest : List Char) :
    ∃ pieces, scan (cs.flatMap escape ++ '"' :: rest) = some (pieces, rest) ∧
      decode pieces = some cs := by
  induction cs with
  | nil => exact ⟨[], rfl, rfl⟩
  | cons c cs ih =>
    obtain ⟨pieces, hscan, hdecode⟩ := ih
    obtain ⟨piece, hspells, hpiece⟩ := exists_scan_escape c
    refine ⟨piece :: pieces, ?_, ?_⟩
    · rw [List.flatMap_cons, List.append_assoc, hpiece, hscan]
      rfl
    · rw [hspells.decode_cons, hdecode]
      rfl

end Piece

/-- The text after the opening quote of a string is read up to the closing one. -/
theorem unquote_escaped (s : String) (rest : List Char) :
    unquote (s.toList.flatMap escape ++ '"' :: rest) = some (some s, rest) := by
  obtain ⟨pieces, hscan, hdecode⟩ := Piece.exists_scan_escaped s.toList rest
  rw [unquote, hscan]
  simp [hdecode]

end SpiderDiagrams.Json
