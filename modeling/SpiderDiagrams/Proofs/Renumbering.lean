import SpiderDiagrams.Proofs.Elimination

/-!
# How a replacement moves indices

One sub-diagram is replaced at its index, and everything else stays. What is before it keeps its index, and
changes only where the replaced sub-diagram is below it; what is behind it moves by the difference of the
two sizes. An elimination of a double negation is such a replacement, and its difference is two.
-/
namespace SpiderDiagrams

namespace Diagram

/-- The sub-diagram `e` with this index is replaced by `r`, and all around it stays. -/
inductive ReplacedAt (e r : Diagram) : Nat → Diagram → Diagram → Prop
  | here : ReplacedAt e r 0 e r
  | negation {i : Nat} {d d' : Diagram} (h : ReplacedAt e r i d d') :
      ReplacedAt e r (i + 1) (negation d) (negation d')
  | left {i : Nat} {d d' : Diagram} (c : Connective) (right : Diagram) (h : ReplacedAt e r i d d') :
      ReplacedAt e r (i + 1) (binary c d right) (binary c d' right)
  | right {i : Nat} {d d' : Diagram} (c : Connective) (left : Diagram) (h : ReplacedAt e r i d d') :
      ReplacedAt e r (left.count + i + 1) (binary c left d) (binary c left d')

variable {d d' e r a : Diagram} {i j k : Nat} {p : List Nat}

/-! ## Replacing is substituting at one path -/

theorem Stands.replacedAt_substitute (h : d.Stands i p e) :
    ReplacedAt e r i d (d.substitute (only p r)) := by
  induction h with
  | root d =>
    rw [substitute_root_only]
    exact .here
  | operand m member _ ih =>
    rcases operands_cases member with ⟨rfl, rfl⟩ | ⟨c, l, rfl, rfl⟩ | ⟨c, l, rfl, rfl⟩
    · rw [substitute_negation_only, operandOffset_zero, Nat.add_comm]
      exact .negation ih
    · rw [substitute_left_only, operandOffset_zero, Nat.add_comm]
      exact .left c l ih
    · rw [substitute_right_only, operandOffset_one, Nat.add_assoc, Nat.add_comm]
      exact .right c l ih

namespace ReplacedAt

/-- Both stand at one path, and only there the two diagrams differ. -/
theorem exists_stands (h : ReplacedAt e r i d d') :
    ∃ p, d.Stands i p e ∧ d'.Stands i p r ∧ d' = d.substitute (only p r) := by
  induction h with
  | here => exact ⟨[], .root e, .root r, (substitute_root_only e r).symm⟩
  | @negation i d d' _ ih =>
    obtain ⟨p, hd, hd', rfl⟩ := ih
    have hs := (stands_negation d).trans hd
    have hs' := (stands_negation (d.substitute (only p r))).trans hd'
    rw [Nat.add_comm] at hs hs'
    exact ⟨_, hs, hs', (substitute_negation_only d p r).symm⟩
  | @left i d d' c right _ ih =>
    obtain ⟨p, hd, hd', rfl⟩ := ih
    have hs := (stands_left c d right).trans hd
    have hs' := (stands_left c (d.substitute (only p r)) right).trans hd'
    rw [Nat.add_comm] at hs hs'
    exact ⟨_, hs, hs', (substitute_left_only c d right p r).symm⟩
  | @right i d d' c left _ ih =>
    obtain ⟨p, hd, hd', rfl⟩ := ih
    have hs := (stands_right c left d).trans hd
    have hs' := (stands_right c left (d.substitute (only p r))).trans hd'
    rw [Nat.add_assoc, Nat.add_comm] at hs hs'
    exact ⟨_, hs, hs', (substitute_right_only c left d p r).symm⟩

theorem symm (h : ReplacedAt e r i d d') : ReplacedAt r e i d' d := by
  induction h with
  | here => exact .here
  | negation _ ih => exact .negation ih
  | left c right _ ih => exact .left c right ih
  | right c left _ ih => exact .right c left ih

/-! ## Sizes and operators -/

theorem count_eq (h : ReplacedAt e r i d d') : d'.count + e.count = d.count + r.count := by
  induction h with
  | here => exact Nat.add_comm _ _
  | negation _ ih | left _ _ _ ih | right _ _ _ ih =>
    simp only [count]
    omega

theorem add_count_le (h : ReplacedAt e r i d d') : i + e.count ≤ d.count := by
  obtain ⟨p, hs, -⟩ := h.exists_stands
  exact hs.add_count_le

theorem lt_count (h : ReplacedAt e r i d d') : i < d.count := by
  obtain ⟨p, hs, -⟩ := h.exists_stands
  exact hs.lt_count

/-- Above the replaced sub-diagram the operators stay. -/
theorem exists_operator (h : ReplacedAt e r i d d') (hi : 0 < i) :
    ∃ op, d.operator? = some op ∧ d'.operator? = some op := by
  cases h with
  | here => exact absurd hi (Nat.lt_irrefl 0)
  | negation => exact ⟨_, rfl, rfl⟩
  | left c | right c => exact ⟨.binary c, rfl, rfl⟩

/-! ## What stands where -/

/-- The whole is above what is replaced in it. -/
theorem before_root (h : ReplacedAt e r i d d') (ha : d.subdiagram? 0 = some a) :
    i < 0 + a.count ∧ ∃ b, d'.subdiagram? 0 = some b ∧ ReplacedAt e r (i - 0) a b := by
  rw [subdiagram?_zero] at ha
  cases ha
  rw [Nat.zero_add, subdiagram?_zero]
  exact ⟨h.lt_count, d', rfl, h⟩

/-- A sub-diagram before the replaced one is above it, and the same is replaced in it, or it stays. -/
theorem subdiagram?_before (h : ReplacedAt e r i d d') (hj : j < i) (ha : d.subdiagram? j = some a) :
    (i < j + a.count ∧ ∃ b, d'.subdiagram? j = some b ∧ ReplacedAt e r (i - j) a b) ∨
      (j + a.count ≤ i ∧ d'.subdiagram? j = some a) := by
  induction h generalizing j with
  | here => exact absurd hj (Nat.not_lt_zero j)
  | negation h ih =>
    cases j with
    | zero => exact .inl (before_root h.negation ha)
    | succ j =>
      rw [Nat.add_right_comm j, Nat.add_lt_add_iff_right, Nat.add_le_add_iff_right,
        Nat.add_sub_add_right]
      exact ih (Nat.lt_of_succ_lt_succ hj) ha
  | left c right h ih =>
    cases j with
    | zero => exact .inl (before_root (h.left c right) ha)
    | succ j =>
      have hji := Nat.lt_of_succ_lt_succ hj
      rw [subdiagram?_left c right (Nat.lt_trans hji h.lt_count)] at ha
      rw [subdiagram?_left c right (Nat.lt_trans hji h.symm.lt_count), Nat.add_right_comm j,
        Nat.add_lt_add_iff_right, Nat.add_le_add_iff_right, Nat.add_sub_add_right]
      exact ih hji ha
  | @right i d d' c left h ih =>
    cases j with
    | zero => exact .inl (before_root (h.right c left) ha)
    | succ j =>
      rcases Nat.lt_or_ge j left.count with hl | hl
      · -- What is in the left operand ends before the right one begins.
        rw [subdiagram?_left c d hl] at ha
        rw [subdiagram?_left c d' hl]
        obtain ⟨p, hs⟩ := exists_stands_of_subdiagram? ha
        have := hs.add_count_le
        exact .inr ⟨by omega, ha⟩
      · obtain ⟨j, rfl⟩ := Nat.exists_eq_add_of_le hl
        have hji : j < i := by omega
        rw [subdiagram?_right] at ha
        rw [subdiagram?_right]
        have hin : left.count + i + 1 < left.count + j + 1 + a.count ↔ i < j + a.count := by omega
        have hout : left.count + j + 1 + a.count ≤ left.count + i + 1 ↔ j + a.count ≤ i := by omega
        have hbelow : left.count + i + 1 - (left.count + j + 1) = i - j := by omega
        rw [hin, hout, hbelow]
        exact ih hji ha

theorem subdiagram?_inside (h : ReplacedAt e r i d d') (hk : k < r.count) :
    d'.subdiagram? (i + k) = r.subdiagram? k := by
  obtain ⟨p, -, hs, -⟩ := h.exists_stands
  exact hs.subdiagram?_add hk

theorem subdiagram?_behind (h : ReplacedAt e r i d d') (k : Nat) :
    d'.subdiagram? (i + r.count + k) = d.subdiagram? (i + e.count + k) := by
  induction h with
  | here =>
    rw [subdiagram?_eq_none_iff.mpr (by omega), subdiagram?_eq_none_iff.mpr (by omega)]
  | @negation i d d' _ ih =>
    have hd : i + 1 + e.count + k = i + e.count + k + 1 := by omega
    have hd' : i + 1 + r.count + k = i + r.count + k + 1 := by omega
    rw [hd, hd']
    exact ih
  | @left i d d' c right h ih =>
    have hcount := h.count_eq
    have hd : i + 1 + e.count + k = i + e.count + k + 1 := by omega
    have hd' : i + 1 + r.count + k = i + r.count + k + 1 := by omega
    rw [hd, hd']
    by_cases hk : i + e.count + k < d.count
    · rw [subdiagram?_left c right hk, subdiagram?_left c right (by omega), ih]
    · have hd : i + e.count + k = d.count + (i + e.count + k - d.count) := by omega
      have hd' : i + r.count + k = d'.count + (i + e.count + k - d.count) := by omega
      rw [hd, hd', subdiagram?_right, subdiagram?_right]
  | @right i d d' c left h ih =>
    have hd : left.count + i + 1 + e.count + k = left.count + (i + e.count + k) + 1 := by omega
    have hd' : left.count + i + 1 + r.count + k = left.count + (i + r.count + k) + 1 := by omega
    rw [hd, hd', subdiagram?_right, subdiagram?_right, ih]

end ReplacedAt

end Diagram

namespace Rule

open Diagram

variable {goal out d : Diagram} {i j : Nat} {style : Style}

/-- An elimination replaces the double negation with the given index by what is doubly negated. -/
theorem doubleNegationElimination_subDiagram_eq_ok_iff :
    doubleNegationElimination.apply goal (.subDiagram i) style = .ok out ↔
      ∃ e, ReplacedAt (negation (negation e)) e i goal out := by
  rw [doubleNegationElimination_eq_ok_iff]
  constructor
  · intro h
    obtain ⟨_, p, e, hi, hs, rfl⟩ := h
    cases hi
    exact ⟨e, hs.replacedAt_substitute⟩
  · intro h
    obtain ⟨e, h⟩ := h
    obtain ⟨p, hs, -, hout⟩ := h.exists_stands
    exact ⟨i, p, e, rfl, hs, hout⟩

theorem exists_apply_iff_subdiagram? :
    (∃ out, doubleNegationElimination.apply goal (.subDiagram i) style = .ok out) ↔
      ∃ e, goal.subdiagram? i = some (negation (negation e)) := by
  constructor
  · intro h
    obtain ⟨out, h⟩ := h
    obtain ⟨e, h⟩ := doubleNegationElimination_subDiagram_eq_ok_iff.mp h
    obtain ⟨p, hs, -⟩ := h.exists_stands
    exact ⟨e, hs.subdiagram?⟩
  · intro h
    obtain ⟨e, h⟩ := h
    obtain ⟨p, hs⟩ := exists_stands_of_subdiagram? h
    exact exists_apply_of_stands style hs

/-- The operand of a negation comes right behind it in the table. -/
theorem exists_doubleNegation_iff :
    (∃ e, goal.subdiagram? i = some (negation (negation e))) ↔
      (∃ d, goal.subdiagrams[i]? = some (i, negation d)) ∧
        ∃ e, goal.subdiagrams[i + 1]? = some (i + 1, negation e) := by
  have hnext : ∀ d, goal.subdiagram? i = some (negation d) → goal.subdiagram? (i + 1) = some d := by
    intro d h
    obtain ⟨p, hs⟩ := exists_stands_of_subdiagram? h
    have hone : 1 < (negation d).count := Nat.lt_add_of_pos_right d.count_pos
    rw [hs.subdiagram?_add hone]
    exact subdiagram?_zero d
  simp only [subdiagrams_getElem?, Option.map_eq_some_iff, Prod.mk.injEq, true_and,
    exists_eq_right]
  constructor
  · intro h
    obtain ⟨e, h⟩ := h
    exact ⟨⟨_, h⟩, e, hnext _ h⟩
  · intro h
    obtain ⟨⟨d, hd⟩, e, he⟩ := h
    rw [hnext d hd] at he
    cases he
    exact ⟨e, hd⟩

/-- From the eliminated negations on, what stood two indices later stands now. -/
theorem subdiagram?_of_elimination {e : Diagram}
    (h : ReplacedAt (negation (negation e)) e i goal out) (hj : i ≤ j) :
    out.subdiagram? j = goal.subdiagram? (j + 2) := by
  have hcount : (negation (negation e)).count = e.count + 2 := by
    simp only [count]
    omega
  obtain ⟨k, rfl⟩ := Nat.exists_eq_add_of_le hj
  rcases Nat.lt_or_ge k e.count with hk | hk
  · obtain ⟨p, hs, -⟩ := h.exists_stands
    rw [h.subdiagram?_inside hk, Nat.add_assoc, hs.subdiagram?_add (by omega)]
    rfl
  · obtain ⟨k, rfl⟩ := Nat.exists_eq_add_of_le hk
    have hgoal : i + (e.count + k) + 2 = i + (e.count + 2) + k := by omega
    rw [hgoal, ← hcount, ← Nat.add_assoc]
    exact h.subdiagram?_behind k

/-- An elimination is possible just where two negations stand one after the other in the table. All behind
them moves two indices forward, and before them only what is above them is changed, by losing the two. -/
theorem elimination_renumbers (tree : Diagram) (i : Nat) (style : Style) :
    ((∃ out, doubleNegationElimination.apply tree (.subDiagram i) style = .ok out) ↔
        (∃ d, tree.subdiagrams[i]? = some (i, negation d)) ∧
          ∃ e, tree.subdiagrams[i + 1]? = some (i + 1, negation e)) ∧
      ∀ out, doubleNegationElimination.apply tree (.subDiagram i) style = .ok out →
        out.count + 2 = tree.count ∧
          (∀ j, i ≤ j → out.subdiagram? j = tree.subdiagram? (j + 2)) ∧
          (∀ j, j < i → ¬ tree.pathOf j <+: tree.pathOf i → out.subdiagram? j = tree.subdiagram? j) ∧
          ∀ j, j < i → tree.pathOf j <+: tree.pathOf i → ∃ a b op,
            tree.subdiagram? j = some a ∧ out.subdiagram? j = some b ∧ a.operator? = some op ∧
              b.operator? = some op ∧ b.count + 2 = a.count := by
  refine ⟨exists_apply_iff_subdiagram?.trans exists_doubleNegation_iff, ?_⟩
  intro out hout
  obtain ⟨e, h⟩ := doubleNegationElimination_subDiagram_eq_ok_iff.mp hout
  obtain ⟨p, hs, -⟩ := h.exists_stands
  refine ⟨?_, fun j hj => subdiagram?_of_elimination h hj, ?_, ?_⟩
  · have hcount := h.count_eq
    simp only [count] at hcount
    omega
  · intro j hj hbeside
    obtain ⟨a, ha⟩ := exists_stands (Nat.lt_trans hj hs.lt_count)
    rw [hs.pathOf, ha.prefix_iff hs] at hbeside
    rcases h.subdiagram?_before hj ha.subdiagram? with ⟨hin, -⟩ | ⟨-, hstays⟩
    · exact absurd ⟨Nat.le_of_lt hj, hin⟩ hbeside
    · rw [hstays, ha.subdiagram?]
  · intro j hj habove
    obtain ⟨a, ha⟩ := exists_stands (Nat.lt_trans hj hs.lt_count)
    rw [hs.pathOf, ha.prefix_iff hs] at habove
    rcases h.subdiagram?_before hj ha.subdiagram? with ⟨-, b, hb, hchanged⟩ | ⟨hout, -⟩
    · obtain ⟨op, hop, hop'⟩ := hchanged.exists_operator (Nat.sub_pos_of_lt hj)
      have hcount := hchanged.count_eq
      simp only [count] at hcount
      exact ⟨a, b, op, ha.subdiagram?, hb, hop, hop', by omega⟩
    · omega

/-- Two negations in the right operand of an implication: the left operand stays, the operator above them
loses two sub-diagrams, and what is behind them moves. -/
theorem elimination_renumbers_conjunct :
    let tree := binary .implication null (binary .conjunction (negation (negation null)) (negation null))
    let out := binary .implication null (binary .conjunction null (negation null))
    doubleNegationElimination.apply tree (.subDiagram 3) .forward = .ok out ∧ out.count + 2 = tree.count ∧
      out.subdiagram? 4 = tree.subdiagram? 6 ∧ out.subdiagram? 1 = tree.subdiagram? 1 ∧
      ∃ a b op, tree.subdiagram? 2 = some a ∧ out.subdiagram? 2 = some b ∧ a.operator? = some op ∧
        b.operator? = some op ∧ b.count + 2 = a.count := by
  intro tree out
  have happly : doubleNegationElimination.apply tree (.subDiagram 3) .forward = .ok out := rfl
  obtain ⟨hcount, hbehind, hbeside, habove⟩ := (elimination_renumbers tree 3 .forward).2 out happly
  exact ⟨happly, hcount, hbehind 4 (by decide), hbeside 1 (by decide) (by decide),
    habove 2 (by decide) (by decide)⟩

end Rule

end SpiderDiagrams
