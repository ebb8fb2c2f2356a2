/-!
# Decimal digits

The value of a list of decimal digits, with or without leading zeros. Digits are the ten ASCII ones.
-/
namespace SpiderDiagrams.Decimal

def digitValue (c : Char) : Nat := c.toNat - '0'.toNat

def append (n : Nat) (c : Char) : Nat := 10 * n + digitValue c

def value (digits : List Char) : Nat := digits.foldl append 0

/-- One more than the largest natural number of 64 bits, which is the largest index. -/
def naturalBound : Nat := Nat.pow 2 64

/-- Appends digits while the number keeps to 64 bits, and gives back the digits from the first that does not fit. -/
def appendFitting : Nat → List Char → Nat × List Char
  | n, [] => (n, [])
  | n, c :: cs => if append n c < naturalBound then appendFitting (append n c) cs else (n, c :: cs)

/-- Appending digits loses none: those that fit and those that are left make up the list. -/
theorem exists_append_of_appendFitting (n : Nat) (digits : List Char) :
    ∃ fitting, digits = fitting ++ (appendFitting n digits).2 ∧
      fitting.foldl append n = (appendFitting n digits).1 := by
  fun_induction appendFitting n digits with
  | case1 n => exact ⟨[], rfl, rfl⟩
  | case2 n c cs _ ih =>
    obtain ⟨fitting, split, value⟩ := ih
    exact ⟨c :: fitting, by rw [List.cons_append, ← split], value⟩
  | case3 n c cs _ => exact ⟨[], rfl, rfl⟩

end SpiderDiagrams.Decimal
