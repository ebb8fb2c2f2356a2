/-!
# Double precision

Whole numbers in double precision: the numbers of 53 binary digits, followed by zeros. A number that is
not among them is rounded to the nearest one, and of two that are equally near to the even one. Numbers
from `bound` on would need more than 1024 binary digits and are too large.
-/
namespace SpiderDiagrams.DoublePrecision

/-- The distance between the numbers that are as long as a given one. -/
def spacing (n : Nat) : Nat := Nat.pow 2 (n.log2 - 52)

def round (n : Nat) : Nat :=
  let below := n / spacing n
  let excess := 2 * (n % spacing n)
  if spacing n < excess ∨ (spacing n = excess ∧ below % 2 = 1) then (below + 1) * spacing n
  else below * spacing n

/-- The middle between the largest number and the next power of two. -/
def bound : Nat := Nat.pow 2 1024 - Nat.pow 2 970

/-- The greatest power of ten that is not too large. -/
def maxPowerOfTen : Nat := 308

theorem spacing_dvd_round (n : Nat) : spacing n ∣ round n := by
  simp only [round]
  split <;> exact Nat.dvd_mul_left ..

/-- No number is moved by more than half of the spacing. -/
theorem round_near (n : Nat) : 2 * (round n - n) ≤ spacing n ∧ 2 * (n - round n) ≤ spacing n := by
  have split_n : n / spacing n * spacing n + n % spacing n = n := by
    rw [Nat.mul_comm]
    exact Nat.div_add_mod n (spacing n)
  have below : n % spacing n < spacing n := Nat.mod_lt n (Nat.pow_pos (by decide))
  simp only [round, Nat.add_mul, Nat.one_mul]
  split <;> omega

end SpiderDiagrams.DoublePrecision
