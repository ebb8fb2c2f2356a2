import SpiderDiagrams.Proofs.Renumbering

/-!
# One elimination in many walks

A rewriter may be used for several trees, one after the other, and takes its state from each walk to the next.
A walk in search of a double negation fails without a change of that state, or finds its target and takes two
negations off; it never succeeds without doing so. After that every walk ends at its first visit, before the
target is looked at, and gives back its tree.
-/
namespace SpiderDiagrams

open Diagram

/-- Walks some trees one after the other. Every walk begins with the state that the one before it has left,
and is told by its result and the state that it leaves. -/
def Rewriter.walks {σ : Type} (rewriter : Rewriter σ) :
    List Diagram → σ → List (Except DiagramError Diagram × σ)
  | [], _ => []
  | tree :: trees, s => tree.rewrite rewriter s :: walks rewriter trees (tree.rewrite rewriter s).2

namespace Rewriter

variable {σ : Type} {rewriter : Rewriter σ} {run : Except DiagramError Diagram × σ}
  {runs : List (Except DiagramError Diagram × σ)} {n : Nat}

theorem length_walks (trees : List Diagram) (s : σ) : (rewriter.walks trees s).length = trees.length := by
  induction trees generalizing s with
  | nil => rfl
  | cons tree trees ih => simp [walks, ih]

/-- One of the first walks has given a tree. -/
def Succeeded (runs : List (Except DiagramError Diagram × σ)) (n : Nat) : Prop :=
  ∃ run ∈ runs.take n, ∃ out, run.1 = .ok out

theorem not_succeeded_zero : ¬ Succeeded runs 0 := by
  simp [Succeeded]

theorem succeeded_cons : Succeeded (run :: runs) (n + 1) ↔ (∃ out, run.1 = .ok out) ∨ Succeeded runs n := by
  simp [Succeeded]

end Rewriter

namespace DoubleNegation

open Rewriter

variable {tree : Diagram} {t : Nat} {result : Except DiagramError Diagram}

/-! ## A single walk -/

/-- What an elimination makes of a tree, told by what the tree has at the target. -/
inductive Outcome (t : Nat) (tree : Diagram) : Except DiagramError Diagram → Prop
  | outOfRange (h : tree.count ≤ t) : Outcome t tree (.error (.indexOutOfRange t tree.count))
  | inapplicable {d : Diagram} (h : tree.subdiagram? t = some d)
      (hne : ∀ inner, d ≠ negation (negation inner)) :
      Outcome t tree (.error (.inapplicableShape t s!"expected a double negation, found {found d}"))
  | eliminated {inner out : Diagram} (h : ReplacedAt (negation (negation inner)) inner t tree out) :
      Outcome t tree (.ok out)

/-- The range is checked at the root, so nothing is asked after that. -/
theorem rewrite_eliminate_of_le (h : tree.count ≤ t) :
    tree.rewrite eliminate (aimedAt t) = (.error (.indexOutOfRange t tree.count), aimedAt t) := by
  have hq := inquire?_of_stands eliminate (aimedAt t) (Stands.root tree)
  have hanswer : eliminate ⟨0, [], tree.count⟩ tree (aimedAt t) =
      (.error (.indexOutOfRange t tree.count), aimedAt t) := by
    simp [eliminate, aimedAt, h]
  rw [hanswer] at hq
  rw [rewrite_eq, scan_of_isLast tree.count_pos hq rfl]
  rfl

/-- After its elimination the search gives back every tree, also where its target is not to be found. -/
theorem rewrite_eliminate_applied (tree : Diagram) (t : Nat) :
    tree.rewrite eliminate ⟨t, true⟩ = (.ok tree, ⟨t, true⟩) := by
  obtain ⟨hstate, hkept⟩ := scan_applied tree tree.count 0 t
  rw [rewrite_eq, hstate, rebuilt_of_kept hkept]

/-- Before its elimination the search has one of three outcomes, and it is used up just where it succeeds. -/
theorem rewrite_eliminate_aimedAt (tree : Diagram) (t : Nat) :
    ∃ result, tree.rewrite eliminate (aimedAt t) = (result, ⟨t, result.isOk⟩) ∧ Outcome t tree result := by
  rcases Nat.lt_or_ge t tree.count with ht | ht
  · obtain ⟨d, hd⟩ := exists_stands ht
    cases hr : d.doublyNegated? with
    | none =>
      refine ⟨_, rewrite_eliminate_of_none hd hr, .inapplicable hd.subdiagram? ?_⟩
      intro inner h
      cases h
      cases hr
    | some inner =>
      have hreplaced := hd.replacedAt_substitute (r := inner)
      rw [doublyNegated?_eq_some_iff.mp hr] at hreplaced
      exact ⟨_, rewrite_eliminate_of_some hd hr, .eliminated hreplaced⟩
  · exact ⟨_, rewrite_eliminate_of_le ht, .outOfRange ht⟩

/-! ## Many walks -/

theorem walks_applied (trees : List Diagram) (t : Nat) :
    eliminate.walks trees ⟨t, true⟩ = trees.map fun tree => (.ok tree, ⟨t, true⟩) := by
  induction trees with
  | nil => rfl
  | cons tree trees ih => rw [walks, rewrite_eliminate_applied, ih, List.map_cons]

/-- One eliminator takes two negations off once in all its walks. Until then each walk gives what that of a
new eliminator with the same target gives, and afterwards each gives back its tree. So it is used up as
soon as one of its walks has succeeded. -/
theorem eliminates_once (t : Nat) (trees : List Diagram) :
    let runs := eliminate.walks trees (aimedAt t)
    (aimedAt t).applied = false ∧ runs.length = trees.length ∧
      ∀ k tree, trees[k]? = some tree → ∃ result s, runs[k]? = some (result, s) ∧
        (¬ Succeeded runs k → result = (tree.rewrite eliminate (aimedAt t)).1 ∧ Outcome t tree result) ∧
        (Succeeded runs k → result = .ok tree) ∧
        s.target = t ∧ (s.applied = true ↔ Succeeded runs (k + 1)) := by
  refine ⟨rfl, length_walks trees _, ?_⟩
  induction trees with
  | nil => simp
  | cons first trees ih =>
    obtain ⟨result, hfirst, houtcome⟩ := rewrite_eliminate_aimedAt first t
    simp only [walks, hfirst]
    intro k tree hk
    cases k with
    | zero =>
      simp only [List.getElem?_cons_zero, Option.some.injEq] at hk
      subst hk
      refine ⟨result, ⟨t, result.isOk⟩, rfl, ?_, fun h => absurd h not_succeeded_zero, rfl, ?_⟩
      · intro _
        exact ⟨by rw [hfirst], houtcome⟩
      · rw [succeeded_cons, or_iff_left not_succeeded_zero]
        cases result <;> simp [Except.isOk, Except.toBool]
    | succ k =>
      rw [List.getElem?_cons_succ] at hk
      simp only [List.getElem?_cons_succ, succeeded_cons]
      cases result with
      | error e =>
        -- The eliminator is as it was, and the first walk does not count.
        simp only [reduceCtorEq, exists_false, false_or]
        exact ih k tree hk
      | ok out =>
        have hlater : (eliminate.walks trees ⟨t, true⟩)[k]? = some (.ok tree, ⟨t, true⟩) := by
          rw [walks_applied, List.getElem?_map, hk]
          rfl
        exact ⟨.ok tree, ⟨t, true⟩, hlater, by simp, fun _ => rfl, rfl, by simp⟩

/-- The first tree is too small for the target and the second has another shape there. The elimination is made
in the third one; after that the first and the second are given back. -/
theorem eliminates_once_revisited :
    let trees := [null, negation null, negation (negation (negation null)), null, negation null]
    let runs := eliminate.walks trees (aimedAt 1)
    ¬ Succeeded runs 2 ∧
      (∃ s, runs[2]? = some (.ok (negation null), s) ∧
        Outcome 1 (negation (negation (negation null))) (.ok (negation null)) ∧ s.applied = true) ∧
      Succeeded runs 4 ∧ ∃ s, runs[4]? = some (.ok (negation null), s) ∧ s.applied = true := by
  intro trees runs
  have hfailed : runs.take 2 = [(.error (.indexOutOfRange 1 1), aimedAt 1),
      (.error (.inapplicableShape 1 "expected a double negation, found a null diagram"), aimedAt 1)] := rfl
  have hthird : runs[2]? = some (.ok (negation null), ⟨1, true⟩) := rfl
  have hbefore : ¬ Succeeded runs 2 := by simp [Succeeded, hfailed]
  have hafter (n : Nat) : Succeeded runs (n + 3) :=
    ⟨_, List.mem_of_getElem? (i := 2) (by rw [List.getElem?_take_of_lt (by omega), hthird]), _, rfl⟩
  obtain ⟨result, s, hrun, hfresh, -, -, hflag⟩ := (eliminates_once 1 trees).2.2 2 _ rfl
  obtain ⟨later, s', hlater, -, hsame, -, hflag'⟩ := (eliminates_once 1 trees).2.2 4 _ rfl
  cases hthird.symm.trans hrun
  cases hsame (hafter 1)
  exact ⟨hbefore, ⟨_, hrun, (hfresh hbefore).2, hflag.mpr (hafter 0)⟩, hafter 1, _, hlater,
    hflag'.mpr (hafter 2)⟩

end DoubleNegation

end SpiderDiagrams
