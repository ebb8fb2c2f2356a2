import SpiderDiagrams.Diagram.Preorder

/-!
# Addresses of sub-diagrams

A sub-diagram has two addresses, its pre-order index and its path. `Stands` says by recursion which
index and which path belong together, and the functions on indices and paths agree with it. What is
below a sub-diagram has the paths that go on from its path, and fills the interval of indices that
begins with its own (`Stands.prefix_iff`).
-/
namespace SpiderDiagrams.Diagram

/-- How many indices an operand lies behind its compound: one, and all those of the operands before. -/
def operandOffset (d : Diagram) (position : Nat) : Nat :=
  (d.operands.take position).foldl (fun n e => n + e.count) 1

/-- The sub-diagram `e` of `d` has this index and this path in `d`. -/
inductive Stands : Diagram → Nat → List Nat → Diagram → Prop
  | root (d : Diagram) : Stands d 0 [] d
  | operand {d f e : Diagram} {i : Nat} {path : List Nat} (position : Nat)
      (member : d.operands[position]? = some f) (rest : Stands f i path e) :
      Stands d (d.operandOffset position + i) (position :: path) e

def pathOf : Diagram → Nat → List Nat
  | negation d, i + 1 => 0 :: d.pathOf i
  | binary _ l r, i + 1 => if i < l.count then 0 :: l.pathOf i else 1 :: r.pathOf (i - l.count)
  | _, _ => []

variable {d e f : Diagram} {i j m : Nat} {p q : List Nat}

/-! ## The operands of a compound -/

theorem stands_negation (d : Diagram) : (negation d).Stands 1 [0] d :=
  .operand 0 rfl (.root d)

theorem stands_left (c : Connective) (l r : Diagram) : (binary c l r).Stands 1 [0] l :=
  .operand 0 rfl (.root l)

theorem stands_right (c : Connective) (l r : Diagram) :
    (binary c l r).Stands (1 + l.count) [1] r := by
  have h : (binary c l r).Stands ((binary c l r).operandOffset 1) [1] r :=
    .operand 1 rfl (.root r)
  simpa [operandOffset, operands] using h

theorem operands_cases (h : d.operands[m]? = some e) :
    (d = negation e ∧ m = 0) ∨ (∃ c r, d = binary c e r ∧ m = 0) ∨
      ∃ c l, d = binary c l e ∧ m = 1 := by
  cases d with
  | null => simp [operands] at h
  | primary => simp [operands] at h
  | negation d =>
    cases m with
    | zero => simp_all [operands]
    | succ m => simp [operands] at h
  | binary c l r =>
    rcases m with _ | _ | m
    · simp_all [operands]
    · simp_all [operands]
    · simp [operands] at h

@[simp]
theorem subdiagram?_zero (d : Diagram) : d.subdiagram? 0 = some d := by
  cases d <;> rfl

theorem subdiagram?_left (c : Connective) {l : Diagram} (r : Diagram) (h : i < l.count) :
    (binary c l r).subdiagram? (i + 1) = l.subdiagram? i := by
  rw [Diagram.subdiagram?, if_pos h]

theorem subdiagram?_right (c : Connective) (l r : Diagram) (i : Nat) :
    (binary c l r).subdiagram? (l.count + i + 1) = r.subdiagram? i := by
  rw [Diagram.subdiagram?, if_neg (Nat.not_lt_of_le (Nat.le_add_right _ _)), Nat.add_sub_cancel_left]

@[simp]
theorem pathOf_zero (d : Diagram) : d.pathOf 0 = [] := by
  cases d <;> rfl

theorem operandOffset_zero (d : Diagram) : d.operandOffset 0 = 1 := rfl

theorem operandOffset_one (c : Connective) (l r : Diagram) :
    (binary c l r).operandOffset 1 = 1 + l.count := rfl

theorem subdiagram?_operand (h : d.operands[m]? = some e) (hj : j < e.count) :
    d.subdiagram? (d.operandOffset m + j) = e.subdiagram? j := by
  rcases operands_cases h with ⟨rfl, rfl⟩ | ⟨c, r, rfl, rfl⟩ | ⟨c, l, rfl, rfl⟩
  · simp [operandOffset, Nat.add_comm 1 j, subdiagram?]
  · simp [operandOffset, Nat.add_comm 1 j, subdiagram?, hj]
  · simp [operandOffset, operands, Nat.add_assoc, Nat.add_comm 1, subdiagram?,
      Nat.not_lt_of_le (Nat.le_add_right l.count j)]

theorem pathOf_operand (h : d.operands[m]? = some e) (hj : j < e.count) :
    d.pathOf (d.operandOffset m + j) = m :: e.pathOf j := by
  rcases operands_cases h with ⟨rfl, rfl⟩ | ⟨c, r, rfl, rfl⟩ | ⟨c, l, rfl, rfl⟩
  · simp [operandOffset, Nat.add_comm 1 j, pathOf]
  · simp [operandOffset, Nat.add_comm 1 j, pathOf, hj]
  · simp [operandOffset, operands, Nat.add_assoc, Nat.add_comm 1, pathOf]

theorem operandOffset_add_count_le (h : d.operands[m]? = some e) :
    d.operandOffset m + e.count ≤ d.count := by
  rcases operands_cases h with ⟨rfl, rfl⟩ | ⟨c, r, rfl, rfl⟩ | ⟨c, l, rfl, rfl⟩
  · simp [operandOffset, count]
  · simp [operandOffset, count]
  · simp [operandOffset, operands, count]

/-! ## Indices and paths together -/

theorem Stands.add_count_le (h : d.Stands i p e) : i + e.count ≤ d.count := by
  induction h with
  | root d => omega
  | operand m member _ ih =>
    have := operandOffset_add_count_le member
    omega

theorem Stands.lt_count (h : d.Stands i p e) : i < d.count := by
  have := h.add_count_le
  have := count_pos e
  omega

/-- Addresses compose: indices are added and paths joined. -/
theorem Stands.trans (h : d.Stands i p e) (he : e.Stands j q f) : d.Stands (i + j) (p ++ q) f := by
  induction h with
  | root d => simpa using he
  | operand m member _ ih =>
    rw [Nat.add_assoc]
    exact .operand m member (ih he)

theorem Stands.subdiagram? (h : d.Stands i p e) : d.subdiagram? i = some e := by
  induction h with
  | root d => exact subdiagram?_zero d
  | operand m member rest ih => rw [subdiagram?_operand member rest.lt_count, ih]

theorem Stands.pathOf (h : d.Stands i p e) : d.pathOf i = p := by
  induction h with
  | root d => exact pathOf_zero d
  | operand m member rest ih => rw [pathOf_operand member rest.lt_count, ih]

theorem exists_stands_of_subdiagram? (h : d.subdiagram? i = some e) : ∃ p, d.Stands i p e := by
  fun_induction subdiagram? d i with
  | case1 d =>
    cases h
    exact ⟨[], .root _⟩
  | case2 d i ih =>
    obtain ⟨p, hp⟩ := ih h
    have hs := (stands_negation d).trans hp
    rw [Nat.add_comm] at hs
    exact ⟨0 :: p, hs⟩
  | case3 c l r i hi ih =>
    obtain ⟨p, hp⟩ := ih h
    have hs := (stands_left c l r).trans hp
    rw [Nat.add_comm] at hs
    exact ⟨0 :: p, hs⟩
  | case4 c l r i hi ih =>
    obtain ⟨p, hp⟩ := ih h
    have hs := (stands_right c l r).trans hp
    rw [show 1 + l.count + (i - l.count) = i + 1 by omega] at hs
    exact ⟨1 :: p, hs⟩
  | case5 => cases h

/-- The indices of a sub-diagram are those of the whole from its own on. -/
theorem Stands.subdiagram?_add (h : d.Stands i p e) (hj : j < e.count) :
    d.subdiagram? (i + j) = e.subdiagram? j := by
  induction h with
  | root d => rw [Nat.zero_add]
  | operand m member rest ih =>
    have := rest.add_count_le
    rw [Nat.add_assoc, subdiagram?_operand member (by omega), ih hj]

/-- Index and path belong together exactly as the functions say. -/
theorem stands_iff : d.Stands i p e ↔ d.subdiagram? i = some e ∧ d.pathOf i = p := by
  constructor
  · intro h
    exact ⟨h.subdiagram?, h.pathOf⟩
  · intro h
    obtain ⟨h, rfl⟩ := h
    obtain ⟨p, hp⟩ := exists_stands_of_subdiagram? h
    exact hp.pathOf ▸ hp

theorem sizes_getElem? (d : Diagram) (i : Nat) : d.sizes[i]? = (d.subdiagram? i).map count := by
  fun_induction subdiagram? d i with
  | case1 d => cases d <;> rfl
  | case2 d i ih => simpa [sizes] using ih
  | case3 c l r i hi ih => simpa [sizes, List.getElem?_append_left, length_sizes, hi] using ih
  | case4 c l r i hi ih =>
    have hl : l.sizes.length ≤ i := by
      rw [length_sizes]
      omega
    simpa [sizes, List.getElem?_append_right hl, length_sizes] using ih
  | case5 d i hn hb =>
    cases d with
    | null => rfl
    | primary => rfl
    | negation d => exact absurd rfl (hn d)
    | binary c l r => exact absurd rfl (hb c l r)

theorem numberedFrom_getElem? (start : Nat) (d : Diagram) (i : Nat) :
    (d.numberedFrom start)[i]? = (d.subdiagram? i).map fun e => (start + i, e) := by
  fun_induction subdiagram? d i generalizing start with
  | case1 d => cases d <;> rfl
  | case2 d i ih =>
    rw [numberedFrom, List.getElem?_cons_succ, ih, Nat.add_assoc, Nat.add_comm 1]
  | case3 c l r i hi ih =>
    have hl : i < (l.numberedFrom (start + 1)).length := by rwa [length_numberedFrom]
    rw [numberedFrom, List.getElem?_cons_succ, List.getElem?_append_left hl, ih, Nat.add_assoc,
      Nat.add_comm 1]
  | case4 c l r i hi ih =>
    have hl : (l.numberedFrom (start + 1)).length ≤ i := by
      rw [length_numberedFrom]
      omega
    have hstart : start + 1 + l.count + (i - l.count) = start + (i + 1) := by omega
    rw [numberedFrom, List.getElem?_cons_succ, List.getElem?_append_right hl, length_numberedFrom, ih,
      hstart]
  | case5 d i hn hb =>
    cases d with
    | null => rfl
    | primary => rfl
    | negation d => exact absurd rfl (hn d)
    | binary c l r => exact absurd rfl (hb c l r)

/-- The entries of the table are the sub-diagrams with their indices. -/
theorem subdiagrams_getElem? (d : Diagram) (i : Nat) :
    d.subdiagrams[i]? = (d.subdiagram? i).map fun e => (i, e) := by
  rw [subdiagrams, numberedFrom_getElem?, Nat.zero_add]

/-- Exactly the indices below the count are taken. -/
theorem subdiagram?_eq_none_iff : d.subdiagram? i = none ↔ d.count ≤ i := by
  rw [← length_sizes, ← List.getElem?_eq_none_iff, sizes_getElem?, Option.map_eq_none_iff]

theorem exists_stands (h : i < d.count) : ∃ e, d.Stands i (d.pathOf i) e := by
  cases he : d.subdiagram? i with
  | none =>
    rw [subdiagram?_eq_none_iff] at he
    omega
  | some e => exact ⟨e, stands_iff.mpr ⟨he, rfl⟩⟩

theorem Stands.sizes_getElem? (h : d.Stands i p e) : d.sizes[i]? = some e.count := by
  rw [Diagram.sizes_getElem?, h.subdiagram?, Option.map_some]

/-! ## Paths -/

theorem Stands.follow? (h : d.Stands i p e) : d.follow? p = some e := by
  induction h with
  | root d => cases d <;> rfl
  | operand m member _ ih =>
    rcases operands_cases member with ⟨rfl, rfl⟩ | ⟨c, r, rfl, rfl⟩ | ⟨c, l, rfl, rfl⟩
    all_goals simpa [Diagram.follow?] using ih

/-- A path leads to a sub-diagram exactly when it belongs to an index. -/
theorem follow?_eq_some_iff : d.follow? p = some e ↔ ∃ i, d.Stands i p e := by
  constructor
  · intro h
    fun_induction Diagram.follow? d p with
    | case1 d =>
      cases h
      exact ⟨0, .root _⟩
    | case2 d p ih =>
      obtain ⟨i, hi⟩ := ih h
      exact ⟨1 + i, (stands_negation d).trans hi⟩
    | case3 c l r p ih =>
      obtain ⟨i, hi⟩ := ih h
      exact ⟨1 + i, (stands_left c l r).trans hi⟩
    | case4 c l r p ih =>
      obtain ⟨i, hi⟩ := ih h
      exact ⟨1 + l.count + i, (stands_right c l r).trans hi⟩
    | case5 => cases h
  · intro h
    obtain ⟨i, hi⟩ := h
    exact hi.follow?

/-- What stands on from the path of a sub-diagram stands in that sub-diagram. -/
theorem Stands.of_append (h : d.Stands i p e) (h' : d.Stands j (p ++ q) f) :
    ∃ k, j = i + k ∧ e.Stands k q f := by
  induction h generalizing j with
  | root d => exact ⟨j, (Nat.zero_add j).symm, h'⟩
  | operand m member _ ih =>
    cases h' with
    | operand _ member' rest =>
      cases member.symm.trans member'
      obtain ⟨k, rfl, hk⟩ := ih rest
      exact ⟨k, (Nat.add_assoc ..).symm, hk⟩

/-- The sub-diagrams at and below another one are those with an index in its interval. -/
theorem Stands.prefix_iff (h : d.Stands i p e) (h' : d.Stands j q f) :
    p <+: q ↔ i ≤ j ∧ j < i + e.count := by
  constructor
  · intro hp
    obtain ⟨t, rfl⟩ := hp
    obtain ⟨k, rfl, hk⟩ := h.of_append h'
    have := hk.lt_count
    omega
  · intro hi
    obtain ⟨hi, hj⟩ := hi
    -- What has the index `j - i` in `e` has the index `j` in `d`, and an index has only one path.
    obtain ⟨g, hg⟩ := exists_stands (d := e) (i := j - i) (by omega)
    have hs := h.trans hg
    rw [Nat.add_sub_cancel' hi] at hs
    rw [← h'.pathOf, hs.pathOf]
    exact List.prefix_append _ _

end SpiderDiagrams.Diagram
