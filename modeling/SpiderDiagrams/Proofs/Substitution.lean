import SpiderDiagrams.Proofs.Addresses

/-!
# Simultaneous substitution

A table of diagrams by path is put into a tree all at once. `follow?_substitute` tells what stands at
each path afterwards: the entry of the table where there is one, and otherwise a sub-diagram with the
same head as before. A table with a single entry changes one sub-diagram and keeps all around it.
-/
namespace SpiderDiagrams.Diagram

/-- What a diagram is, apart from its operands. -/
inductive Head where
  | null
  | primary (content : Primary)
  | compound (op : Operator)
  deriving DecidableEq

def head : Diagram → Head
  | null => .null
  | primary content => .primary content
  | negation _ => .compound .negation
  | binary c .. => .compound (.binary c)

/-- Puts the table's diagrams at their paths; what would stand inside one of them is not looked up. -/
def substitute : Diagram → (List Nat → Option Diagram) → Diagram
  | negation d, table => (table []).getD (negation (d.substitute fun p => table (0 :: p)))
  | binary c l r, table =>
    (table []).getD
      (binary c (l.substitute fun p => table (0 :: p)) (r.substitute fun p => table (1 :: p)))
  | d, table => (table []).getD d

def only (path : List Nat) (r : Diagram) : List Nat → Option Diagram :=
  fun p => if p = path then some r else none

/-- One sub-diagram is changed as `R` says, and all around it stays. -/
inductive Inside (R : Diagram → Diagram → Prop) : Diagram → Diagram → Prop
  | here {d e : Diagram} (h : R d e) : Inside R d e
  | negation {d e : Diagram} (h : Inside R d e) : Inside R (negation d) (negation e)
  | left {l e : Diagram} (c : Connective) (r : Diagram) (h : Inside R l e) :
      Inside R (binary c l r) (binary c e r)
  | right {r e : Diagram} (c : Connective) (l : Diagram) (h : Inside R r e) :
      Inside R (binary c l r) (binary c l e)

variable {d e r : Diagram} {table : List Nat → Option Diagram} {i : Nat} {p : List Nat}
  {R : Diagram → Diagram → Prop}

theorem substitute_of_some (h : table [] = some r) : d.substitute table = r := by
  cases d <;> simp [substitute, h]

theorem head_substitute (h : table [] = none) : (d.substitute table).head = d.head := by
  cases d <;> simp [substitute, h, head]

theorem substitute_of_none (h : ∀ p, table p = none) : d.substitute table = d := by
  induction d generalizing table with
  | null => simp [substitute, h]
  | primary => simp [substitute, h]
  | negation d ih =>
    rw [substitute, h, ih fun p => h (0 :: p)]
    rfl
  | binary c l r ihl ihr =>
    rw [substitute, h, ihl fun p => h (0 :: p), ihr fun p => h (1 :: p)]
    rfl

/-- No entry of the table lies strictly above the path. -/
def FreeAbove (table : List Nat → Option Diagram) (p : List Nat) : Prop :=
  ∀ q, q <+: p → q ≠ p → table q = none

theorem FreeAbove.root {m : Nat} (h : FreeAbove table (m :: p)) : table [] = none :=
  h [] List.nil_prefix (List.cons_ne_nil m p).symm

theorem FreeAbove.tail {m : Nat} (h : FreeAbove table (m :: p)) :
    FreeAbove (fun q => table (m :: q)) p := by
  intro q hq hne
  exact h (m :: q) (List.cons_prefix_cons.mpr ⟨rfl, hq⟩) (by simpa using hne)

/-- A path with no entry above it leads to the same place in both trees. -/
theorem follow?_substitute (h : FreeAbove table p) :
    (d.substitute table).follow? p =
      (d.follow? p).map fun e => e.substitute fun q => table (p ++ q) := by
  fun_induction follow? d p generalizing table with
  | case1 d => cases hd : d.substitute table <;> simp [follow?, hd]
  | case2 d path ih => simpa [substitute, h.root, follow?] using ih h.tail
  | case3 c l r path ih => simpa [substitute, h.root, follow?] using ih h.tail
  | case4 c l r path ih => simpa [substitute, h.root, follow?] using ih h.tail
  | case5 d m path hn hl hr =>
    -- There is no such operand, and substitution keeps the number of operands.
    cases d with
    | null => simp [substitute, h.root, follow?]
    | primary content => simp [substitute, h.root, follow?]
    | negation d =>
      cases m with
      | zero => exact (hn d rfl rfl).elim
      | succ m => simp [substitute, h.root, follow?]
    | binary c l r =>
      rcases m with _ | _ | m
      · exact (hl c l r rfl rfl).elim
      · exact (hr c l r rfl rfl).elim
      · simp [substitute, h.root, follow?]

theorem head_follow?_substitute (h : ∀ q, q <+: p → table q = none) :
    ((d.substitute table).follow? p).map head = (d.follow? p).map head := by
  rw [follow?_substitute fun q hq _ => h q hq, Option.map_map]
  cases d.follow? p with
  | none => rfl
  | some e =>
    have hp : table (p ++ []) = none := h _ (by simp)
    exact congrArg some (head_substitute hp)

/-! ## A single entry -/

theorem only_cons (m : Nat) (p : List Nat) (r : Diagram) :
    (fun q => only (m :: p) r (m :: q)) = only p r := by
  funext q
  simp [only]

theorem only_cons_other {m k : Nat} (hk : k ≠ m) (p : List Nat) (r : Diagram) (q : List Nat) :
    only (m :: p) r (k :: q) = none := by
  simp [only, hk]

theorem substitute_root_only (d r : Diagram) : d.substitute (only [] r) = r :=
  substitute_of_some (by simp [only])

theorem substitute_negation_only (d : Diagram) (p : List Nat) (r : Diagram) :
    (negation d).substitute (only (0 :: p) r) = negation (d.substitute (only p r)) := by
  rw [substitute, only_cons]
  rfl

theorem substitute_left_only (c : Connective) (d right : Diagram) (p : List Nat) (r : Diagram) :
    (binary c d right).substitute (only (0 :: p) r) = binary c (d.substitute (only p r)) right := by
  rw [substitute, only_cons, substitute_of_none (only_cons_other (by decide) p r)]
  rfl

theorem substitute_right_only (c : Connective) (left d : Diagram) (p : List Nat) (r : Diagram) :
    (binary c left d).substitute (only (1 :: p) r) = binary c left (d.substitute (only p r)) := by
  rw [substitute, only_cons, substitute_of_none (only_cons_other (by decide) p r)]
  rfl

/-- One sub-diagram is replaced and all around it stays. -/
theorem Stands.inside_substitute (h : d.Stands i p e) (hR : R e r) :
    Inside R d (d.substitute (only p r)) := by
  induction h with
  | root d =>
    rw [substitute_root_only]
    exact .here hR
  | operand m member _ ih =>
    rcases operands_cases member with ⟨rfl, rfl⟩ | ⟨c, l, rfl, rfl⟩ | ⟨c, l, rfl, rfl⟩
    · rw [substitute_negation_only]
      exact .negation (ih hR)
    · rw [substitute_left_only]
      exact .left c l (ih hR)
    · rw [substitute_right_only]
      exact .right c l (ih hR)

end SpiderDiagrams.Diagram
