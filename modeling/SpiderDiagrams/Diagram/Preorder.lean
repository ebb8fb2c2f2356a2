import SpiderDiagrams.Diagram

/-!
# Pre-order addressing

Sub-diagrams are numbered in pre-order: a diagram comes first, then its operands from left to right,
each with all that is below it. The diagram itself has index 0. A sub-diagram is also addressed by its
path, the positions of the operands that lead to it.
-/
namespace SpiderDiagrams.Diagram

/-- The number of sub-diagrams, the diagram itself included. -/
def count : Diagram → Nat
  | null | primary _ => 1
  | negation d => 1 + d.count
  | binary _ l r => 1 + l.count + r.count

/-- All sub-diagrams in pre-order with consecutive numbers. -/
def numberedFrom (start : Nat) : Diagram → List (Nat × Diagram)
  | negation d => (start, negation d) :: d.numberedFrom (start + 1)
  | binary c l r =>
    (start, binary c l r) :: (l.numberedFrom (start + 1) ++ r.numberedFrom (start + 1 + l.count))
  | d => [(start, d)]

def subdiagrams (d : Diagram) : List (Nat × Diagram) := d.numberedFrom 0

def sizes : Diagram → List Nat
  | negation d => (1 + d.count) :: d.sizes
  | binary _ l r => (1 + l.count + r.count) :: (l.sizes ++ r.sizes)
  | _ => [1]

/-- The sub-diagram with a pre-order index. -/
def subdiagram? : Diagram → Nat → Option Diagram
  | d, 0 => some d
  | negation d, i + 1 => d.subdiagram? i
  | binary _ l r, i + 1 => if i < l.count then l.subdiagram? i else r.subdiagram? (i - l.count)
  | _, _ + 1 => none

def follow? : Diagram → List Nat → Option Diagram
  | d, [] => some d
  | negation d, 0 :: path => d.follow? path
  | binary _ l _, 0 :: path => l.follow? path
  | binary _ _ r, 1 :: path => r.follow? path
  | _, _ :: _ => none

theorem count_pos (d : Diagram) : 0 < d.count := by
  cases d <;> simp only [count] <;> omega

theorem length_numberedFrom (start : Nat) (d : Diagram) : (d.numberedFrom start).length = d.count := by
  induction d generalizing start with
  | null => rfl
  | primary => rfl
  | negation d ih => simp [numberedFrom, count, ih, Nat.add_comm]
  | binary c l r ihl ihr =>
    simp [numberedFrom, count, ihl, ihr]
    omega

theorem length_sizes (d : Diagram) : d.sizes.length = d.count := by
  induction d with
  | null => rfl
  | primary => rfl
  | negation d ih => simp [sizes, count, ih, Nat.add_comm]
  | binary c l r ihl ihr =>
    simp [sizes, count, ihl, ihr]
    omega

end SpiderDiagrams.Diagram
