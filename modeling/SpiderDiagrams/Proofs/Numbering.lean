import Mathlib.Algebra.Ring.Nat
import SpiderDiagrams.Proofs.Addresses

/-!
# One numbering by recursion and by loops

Pre-order numbers may be given without recursion on the tree. A loop takes the top of a stack, gives it the next
number and puts its operands in its place, the first of them on top; it lists all sub-diagrams, or stops at the one
with a given number. Another way to fill the table of sizes is to enter a compound before the sizes of its operands
are known, and to correct the entry behind them. All of these agree with the recursions (`numbering_agrees`), because
what is still on the stack is numbered as its diagrams are one after the other (`numberStack_eq_numberedAllFrom`).
-/
namespace SpiderDiagrams.Diagram

variable {d e tree : Diagram} {i m next : Nat} {p : List Nat}

/-! ## Operands -/

theorem count_eq_sum (d : Diagram) : d.count = 1 + (d.operands.map count).sum := by
  cases d with
  | null => rfl
  | primary => rfl
  | negation d => rfl
  | binary c l r => simp [count, operands, Nat.add_assoc]

theorem operandOffset_eq_sum (d : Diagram) (m : Nat) :
    d.operandOffset m = 1 + ((d.operands.take m).map count).sum := by
  have hfold (es : List Diagram) (n : Nat) :
      es.foldl (fun n e => n + e.count) n = n + (es.map count).sum := by
    induction es generalizing n with
    | nil => rfl
    | cons e es ih => rw [List.foldl_cons, ih, List.map_cons, List.sum_cons, Nat.add_assoc]
  exact hfold _ 1

/-- An operand comes behind its compound and all that is in the operands before it. -/
theorem Stands.operand_at (h : tree.Stands i p d) (hm : d.operands[m]? = some e) :
    tree.Stands (i + 1 + ((d.operands.take m).map count).sum) (p ++ [m]) e := by
  have hs := h.trans (.operand m hm (.root e))
  rwa [Nat.add_zero, operandOffset_eq_sum, ← Nat.add_assoc] at hs

/-! ## Stacks -/

/-- Numbers the diagrams on a stack and all that is below them. -/
def numberStack (next : Nat) : List Diagram → List (Nat × Diagram)
  | [] => []
  | d :: rest => (next, d) :: numberStack (next + 1) (d.operands ++ rest)
termination_by stack => (stack.map count).sum
decreasing_by
  simp only [List.map_append, List.sum_append, List.map_cons, List.sum_cons, d.count_eq_sum]
  omega

/-- The diagram that is taken from the stack when the next number is the given index. -/
def searchStack (index next : Nat) : List Diagram → Option Diagram
  | [] => none
  | d :: rest => if next = index then some d else searchStack index (next + 1) (d.operands ++ rest)
termination_by stack => (stack.map count).sum
decreasing_by
  simp only [List.map_append, List.sum_append, List.map_cons, List.sum_cons, d.count_eq_sum]
  omega

/-- Numbers one diagram after the other, each by recursion. -/
def numberedAllFrom (next : Nat) : List Diagram → List (Nat × Diagram)
  | [] => []
  | d :: rest => d.numberedFrom next ++ numberedAllFrom (next + d.count) rest

/-- Taking the top of a stack for its operands leaves the same numbers to be given. -/
theorem numberedAllFrom_cons (next : Nat) (d : Diagram) (rest : List Diagram) :
    numberedAllFrom next (d :: rest) = (next, d) :: numberedAllFrom (next + 1) (d.operands ++ rest) := by
  cases d with
  | null => rfl
  | primary => rfl
  | negation d => simp [numberedAllFrom, numberedFrom, operands, count, Nat.add_assoc]
  | binary c l r => simp [numberedAllFrom, numberedFrom, operands, count, Nat.add_assoc]

theorem numberStack_eq_numberedAllFrom (next : Nat) (stack : List Diagram) :
    numberStack next stack = numberedAllFrom next stack := by
  fun_induction numberStack next stack with
  | case1 => rfl
  | case2 next d rest ih => rw [ih, numberedAllFrom_cons]

theorem numberStack_singleton (tree : Diagram) : numberStack 0 [tree] = tree.subdiagrams := by
  rw [numberStack_eq_numberedAllFrom]
  exact List.append_nil _

/-- The search stops at the entry that the numbering has for the index. -/
theorem searchStack_eq_getElem? (stack : List Diagram) (h : next ≤ i) :
    searchStack i next stack = (numberStack next stack)[i - next]?.map Prod.snd := by
  fun_induction searchStack i next stack with
  | case1 next => rw [numberStack, List.getElem?_nil, Option.map_none]
  | case2 d rest => rw [numberStack, Nat.sub_self, List.getElem?_cons_zero, Option.map_some]
  | case3 next d rest hne ih =>
    have hstep : i - next = i - (next + 1) + 1 := by omega
    rw [numberStack, hstep, List.getElem?_cons_succ]
    exact ih (by omega)

theorem searchStack_singleton (tree : Diagram) (i : Nat) : searchStack i 0 [tree] = tree.subdiagram? i := by
  rw [searchStack_eq_getElem? [tree] (Nat.zero_le i), numberStack_singleton, Nat.sub_zero, subdiagrams_getElem?,
    Option.map_map, Function.comp_def, Option.map_id']

/-! ## The table of sizes -/

/-- Enters the sizes of a diagram and of all below it behind those in the table, and gives the size of the diagram.
The entry of a compound is one at first, and is corrected when all its operands are entered. -/
def enterSizes (table : List Nat) : Diagram → Nat × List Nat
  | negation d =>
    let (n, filled) := d.enterSizes (table ++ [1])
    (1 + n, filled.set table.length (1 + n))
  | binary _ l r =>
    let (m, filled) := l.enterSizes (table ++ [1])
    let (n, filled) := r.enterSizes filled
    (1 + m + n, filled.set table.length (1 + m + n))
  | _ => (1, table ++ [1])

/-- What is entered behind an entry stays where that entry is corrected. -/
theorem set_entry (table entered : List Nat) (n : Nat) :
    (table ++ [1] ++ entered).set table.length n = table ++ n :: entered := by
  simp

theorem enterSizes_eq (table : List Nat) (d : Diagram) : d.enterSizes table = (d.count, table ++ d.sizes) := by
  induction d generalizing table with
  | null => rfl
  | primary => rfl
  | negation d ih => simp only [enterSizes, ih, set_entry, count, sizes]
  | binary c l r ihl ihr =>
    simp only [enterSizes, ihl, ihr, count, sizes]
    rw [List.append_assoc _ l.sizes, set_entry]

/-! ## All of them together -/

theorem map_fst_subdiagrams (tree : Diagram) : tree.subdiagrams.map Prod.fst = List.range tree.count := by
  apply List.ext_getElem?
  intro i
  rw [List.getElem?_map, subdiagrams_getElem?, Option.map_map]
  rcases Nat.lt_or_ge i tree.count with hi | hi
  · obtain ⟨e, he⟩ := exists_stands hi
    rw [he.subdiagram?, List.getElem?_range hi]
    rfl
  · rw [subdiagram?_eq_none_iff.mpr hi, List.getElem?_eq_none (by simpa using hi)]
    rfl

/-- The ways to number a tree agree, those by a stack and by correcting entries included: the listing, the search
for an index, the table of sizes and the count. The root is the first, and each operand comes behind its compound and
all operands before it. -/
theorem numbering_agrees (tree : Diagram) :
    tree.subdiagrams.map Prod.fst = List.range tree.count ∧
      (∀ k, tree.subdiagrams[k]?.map Prod.snd = tree.subdiagram? k) ∧
      (∀ k, tree.subdiagram? k = none ↔ tree.count ≤ k) ∧
      tree.sizes.length = tree.count ∧
      (∀ k, tree.sizes[k]? = (tree.subdiagram? k).map count) ∧
      tree.subdiagram? 0 = some tree ∧
      (∀ k d, tree.subdiagram? k = some d → ∀ m e, d.operands[m]? = some e →
        tree.subdiagram? (k + 1 + ((d.operands.take m).map count).sum) = some e) ∧
      numberStack 0 [tree] = tree.subdiagrams ∧
      (∀ k, searchStack k 0 [tree] = tree.subdiagram? k) ∧
      tree.enterSizes [] = (tree.count, tree.sizes) := by
  refine ⟨map_fst_subdiagrams tree, fun k => ?_, fun k => subdiagram?_eq_none_iff, length_sizes tree,
    sizes_getElem? tree, subdiagram?_zero tree, ?_, numberStack_singleton tree, searchStack_singleton tree,
    enterSizes_eq [] tree⟩
  · rw [← searchStack_singleton, searchStack_eq_getElem? [tree] (Nat.zero_le k), numberStack_singleton, Nat.sub_zero]
  · intro k d hd m e he
    obtain ⟨p, hs⟩ := exists_stands_of_subdiagram? hd
    exact (hs.operand_at he).subdiagram?

/-- The right operand of the implication comes behind the two negations on its left. -/
theorem numbering_agrees_operand :
    let inner := binary .implication (negation (negation null)) (negation null)
    let tree := binary .conjunction null inner
    tree.subdiagram? 2 = some inner ∧ inner.operands[1]? = some (negation null) ∧
      tree.subdiagram? (2 + 1 + 3) = some (negation null) ∧ tree.sizes[6]? = some 2 := by
  intro inner tree
  obtain ⟨-, -, -, -, hsizes, -, hoperand, -⟩ := numbering_agrees tree
  have hinner : tree.subdiagram? 2 = some inner := rfl
  have hright : tree.subdiagram? (2 + 1 + 3) = some (negation null) := hoperand 2 inner hinner 1 _ rfl
  refine ⟨hinner, rfl, hright, ?_⟩
  rw [hsizes, hright]
  rfl

end SpiderDiagrams.Diagram
