import SpiderDiagrams.Proofs.Renumbering

/-!
# Two eliminations in either order

Of two double negations the one with the greater index may be in the operand of the other, beside it, or
overlap it in one negation. Apart from the overlap both can be eliminated one after the other, and the order
matters only for the index of the second one, which moves by two when the first is eliminated before it.
Where they overlap, three negations stand in a row, and it does not matter which two of them are taken off.
-/
namespace SpiderDiagrams

namespace Diagram

variable {tree a b e f : Diagram} {i j : Nat}

/-- Double negations that do not overlap are eliminated in either order. -/
theorem exists_common_elimination (ha : ReplacedAt (negation (negation e)) e i tree a)
    (hb : ReplacedAt (negation (negation f)) f j tree b) (hij : i + 2 ≤ j) :
    ∃ out inner, ReplacedAt (negation (negation f)) f (j - 2) a out ∧
      ReplacedAt (negation (negation inner)) inner i b out := by
  induction ha generalizing j b with
  | here =>
    -- The second one is in what is doubly negated, where its index is less by two.
    cases hb with
    | here => omega
    | negation hb =>
      cases hb with
      | here => omega
      | negation hb => exact ⟨_, _, hb, .here⟩
  | negation ha ih =>
    cases hb with
    | here => omega
    | @negation j _ _ hb =>
      obtain ⟨out, inner, hfirst, hsecond⟩ := ih hb (by omega)
      have hj : j + 1 - 2 = j - 2 + 1 := by omega
      rw [hj]
      exact ⟨_, inner, hfirst.negation, hsecond.negation⟩
  | @left i d d' c right ha ih =>
    cases hb with
    | @left j _ _ _ _ hb =>
      obtain ⟨out, inner, hfirst, hsecond⟩ := ih hb (by omega)
      have hj : j + 1 - 2 = j - 2 + 1 := by omega
      rw [hj]
      exact ⟨_, inner, hfirst.left c right, hsecond.left c right⟩
    | @right j _ right' _ _ hb =>
      -- They stand beside each other, and the left operand has lost two sub-diagrams.
      have hcount := ha.count_eq
      simp only [count] at hcount
      have hj : d.count + j + 1 - 2 = d'.count + j + 1 := by omega
      rw [hj]
      exact ⟨_, e, hb.right c d', ha.left c right'⟩
  | @right i d d' c left ha ih =>
    cases hb with
    | left _ _ hb =>
      have := hb.lt_count
      omega
    | @right j _ _ _ _ hb =>
      obtain ⟨out, inner, hfirst, hsecond⟩ := ih hb (by omega)
      have hj : left.count + j + 1 - 2 = left.count + (j - 2) + 1 := by omega
      rw [hj]
      exact ⟨_, inner, hfirst.right c left, hsecond.right c left⟩

/-- Of three negations in a row any two may be taken off. -/
theorem eq_of_overlapping_eliminations (ha : ReplacedAt (negation (negation e)) e i tree a)
    (hb : ReplacedAt (negation (negation f)) f j tree b) (hij : j = i + 1) : a = b := by
  induction ha generalizing j b with
  | here =>
    cases hb with
    | here => omega
    | negation hb =>
      cases hb with
      | here => rfl
      | negation hb => omega
  | negation ha ih =>
    cases hb with
    | here => omega
    | negation hb => rw [ih hb (by omega)]
  | @left i d d' c right ha ih =>
    cases hb with
    | left _ _ hb => rw [ih hb (by omega)]
    | right _ _ hb =>
      have hfits := ha.add_count_le
      simp only [count] at hfits
      have := e.count_pos
      omega
  | right c left ha ih =>
    cases hb with
    | left _ _ hb =>
      have := hb.lt_count
      omega
    | right _ _ hb => rw [ih hb (by omega)]

end Diagram

namespace Rule

open Diagram

/-- Two eliminations lead to the same diagram in either order, and at two overlapping double negations
already one of them does. -/
theorem eliminations_commute (tree a b : Diagram) (i j : Nat) (style : Style)
    (ha : doubleNegationElimination.apply tree (.subDiagram i) style = .ok a)
    (hb : doubleNegationElimination.apply tree (.subDiagram j) style = .ok b) :
    (i + 2 ≤ j → ∃ out,
        doubleNegationElimination.apply a (.subDiagram (j - 2)) style = .ok out ∧
          doubleNegationElimination.apply b (.subDiagram i) style = .ok out) ∧
      (j = i + 1 → a = b) := by
  obtain ⟨e, ha⟩ := doubleNegationElimination_subDiagram_eq_ok_iff.mp ha
  obtain ⟨f, hb⟩ := doubleNegationElimination_subDiagram_eq_ok_iff.mp hb
  refine ⟨fun hapart => ?_, eq_of_overlapping_eliminations ha hb⟩
  obtain ⟨out, inner, hfirst, hsecond⟩ := exists_common_elimination ha hb hapart
  exact ⟨out, doubleNegationElimination_subDiagram_eq_ok_iff.mpr ⟨f, hfirst⟩,
    doubleNegationElimination_subDiagram_eq_ok_iff.mpr ⟨inner, hsecond⟩⟩

/-- Three negations above a disjunction and two below it: an upper and the lower pair in either order, and
the two upper pairs. -/
theorem eliminations_commute_nested :
    let tree := negation (negation (negation (binary .disjunction null (negation (negation null)))))
    let a := negation (binary .disjunction null (negation (negation null)))
    let b := negation (negation (negation (binary .disjunction null null)))
    (doubleNegationElimination.apply tree (.subDiagram 0) .forward = .ok a ∧
        doubleNegationElimination.apply tree (.subDiagram 5) .forward = .ok b ∧
        ∃ out, doubleNegationElimination.apply a (.subDiagram 3) .forward = .ok out ∧
          doubleNegationElimination.apply b (.subDiagram 0) .forward = .ok out) ∧
      ∃ other, doubleNegationElimination.apply tree (.subDiagram 1) .forward = .ok other ∧ a = other := by
  intro tree a b
  have ha : doubleNegationElimination.apply tree (.subDiagram 0) .forward = .ok a := rfl
  have hb : doubleNegationElimination.apply tree (.subDiagram 5) .forward = .ok b := rfl
  have hover : doubleNegationElimination.apply tree (.subDiagram 1) .forward = .ok a := rfl
  refine ⟨⟨ha, hb, ?_⟩, a, hover, ?_⟩
  · exact (eliminations_commute tree a b 0 5 .forward ha hb).1 (by decide)
  · exact (eliminations_commute tree a a 0 1 .forward ha hover).2 rfl

end Rule

end SpiderDiagrams
