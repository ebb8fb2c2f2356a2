import SpiderDiagrams.Proofs.Rewriting
import SpiderDiagrams.Reasoning.Rule

/-!
# Double negation elimination at an index

The rewriter goes past everything before its target, replaces a double negation there and then ends the
walk. So the rule succeeds exactly where a double negation stands, and takes two negations off there.
-/
namespace SpiderDiagrams

theorem Diagram.doublyNegated?_eq_some_iff {d r : Diagram} :
    d.doublyNegated? = some r ↔ d = negation (negation r) := by
  unfold doublyNegated?
  split <;> simp_all

namespace DoubleNegation

open Diagram

variable {tree d r : Diagram} {i n t : Nat} {p : List Nat}

/-- A visit before the target changes nothing, and passes over only what ends before the target. -/
theorem eliminate_before (hi : i < t) (hroot : ¬ (i = 0 ∧ n ≤ t)) :
    eliminate ⟨i, p, n⟩ d (aimedAt t) = (.ok .descend, aimedAt t) ∨
      eliminate ⟨i, p, n⟩ d (aimedAt t) = (.ok .skip, aimedAt t) ∧ i + n ≤ t := by
  have hne : i ≠ t := Nat.ne_of_lt hi
  by_cases hin : d.operator?.isNone || (Context.mk i p n).contains t
  · left
    simp [eliminate, aimedAt, hroot, hne, hin]
  · right
    have hle : i + n ≤ t := by
      simp only [Context.contains, Bool.or_eq_true, Bool.and_eq_true, decide_eq_true_eq] at hin
      omega
    simp [eliminate, aimedAt, hroot, hne, hin, hle]

theorem eliminate_target_of_some (hn : 0 < n) (hr : d.doublyNegated? = some r) :
    eliminate ⟨t, p, n⟩ d (aimedAt t) = (.ok (.replace r), ⟨t, true⟩) := by
  have hroot : ¬ (t = 0 ∧ n ≤ t) := by omega
  simp [eliminate, aimedAt, hroot, hr]

theorem eliminate_target_of_none (hn : 0 < n) (hr : d.doublyNegated? = none) :
    eliminate ⟨t, p, n⟩ d (aimedAt t) =
      (.error (.inapplicableShape t s!"expected a double negation, found {found d}"), aimedAt t) := by
  have hroot : ¬ (t = 0 ∧ n ≤ t) := by omega
  simp [eliminate, aimedAt, hroot, hr]

/-- Before its target the search asks without changing anything, and does not go beyond the target. -/
theorem inquire?_before (hi : i < t) (ht : t < tree.count) :
    ∃ q, tree.inquire? eliminate i (aimedAt t) = some (q, aimedAt t) ∧ q.isLast = false ∧
      q.Keeps ∧ i + q.stride ≤ t := by
  obtain ⟨d, hd⟩ := exists_stands (Nat.lt_trans hi ht)
  have hroot : ¬ (i = 0 ∧ d.count ≤ t) := by
    rintro ⟨rfl, hle⟩
    have hself := hd.subdiagram?
    rw [subdiagram?_zero] at hself
    cases hself
    omega
  rw [inquire?_of_stands eliminate (aimedAt t) hd]
  rcases eliminate_before (d := d) (p := tree.pathOf i) hi hroot with h | ⟨h, hle⟩
  · rw [h]
    exact ⟨_, rfl, rfl, ⟨rfl, rfl⟩, hi⟩
  · rw [h]
    exact ⟨_, rfl, rfl, ⟨rfl, rfl⟩, hle⟩

theorem scan_before (hi : i ≤ t) (ht : t < tree.count) :
    ∃ before : List Inquiry, (∀ q ∈ before, q.Keeps) ∧
      tree.scan eliminate tree.count i (aimedAt t) =
        { tree.scan eliminate tree.count t (aimedAt t) with
          inquiries := before ++ (tree.scan eliminate tree.count t (aimedAt t)).inquiries } := by
  -- The distance to the target shrinks with every stride, and no stride goes beyond the target.
  induction hk : t - i using Nat.strongRecOn generalizing i with
  | ind k ih =>
    rcases Nat.eq_or_lt_of_le hi with rfl | hlt
    · exact ⟨[], by simp, rfl⟩
    obtain ⟨q, hq, hlast, hkept, hle⟩ := inquire?_before hlt ht
    have hpos := stride_pos (fitsIn_of_inquire? hq).1
    obtain ⟨before, hbefore, hscan⟩ := ih (t - (i + q.stride)) (by omega) hle rfl
    refine ⟨q :: before, ?_, ?_⟩
    · exact List.forall_mem_cons.mpr ⟨hkept, hbefore⟩
    · rw [scan_of_not_isLast (Nat.lt_trans hlt ht) hq hlast, hscan]
      rfl

/-- Once it has replaced something it ends the walk at the next question. -/
theorem scan_applied (tree : Diagram) (stop i t : Nat) :
    (tree.scan eliminate stop i ⟨t, true⟩).state = ⟨t, true⟩ ∧
      ∀ q ∈ (tree.scan eliminate stop i ⟨t, true⟩).inquiries, q.Keeps := by
  by_cases hi : i < stop
  · cases hd : tree.subdiagram? i with
    | none =>
      have hn : tree.inquire? eliminate i ⟨t, true⟩ = none := by simp [inquire?, hd]
      simp [scan_of_none hn]
    | some d =>
      obtain ⟨p, hp⟩ := exists_stands_of_subdiagram? hd
      have hq := inquire?_of_stands eliminate ⟨t, true⟩ hp
      rw [scan_of_isLast hi hq rfl]
      exact ⟨rfl, List.forall_mem_singleton.mpr ⟨rfl, rfl⟩⟩
  · simp [scan_of_le (Nat.le_of_not_lt hi)]

/-- A double negation at the target is replaced, and nothing else. -/
theorem rewrite_eliminate_of_some (hd : tree.Stands t p d) (hr : d.doublyNegated? = some r) :
    tree.rewrite eliminate (aimedAt t) = (.ok (tree.substitute (only p r)), ⟨t, true⟩) := by
  obtain ⟨before, hbefore, hscan⟩ := scan_before (Nat.zero_le t) hd.lt_count
  obtain ⟨hstate, hafter⟩ := scan_applied tree tree.count (t + d.count) t
  have hq := inquire?_of_stands eliminate (aimedAt t) hd
  rw [eliminate_target_of_some d.count_pos hr] at hq
  rw [scan_of_not_isLast hd.lt_count hq rfl] at hscan
  rw [rewrite_eq, hscan]
  exact Prod.ext (rebuilt_of_single hbefore hafter rfl) hstate

/-- Anything else at the target is an error, and the rule stays unused. -/
theorem rewrite_eliminate_of_none (hd : tree.Stands t p d) (hr : d.doublyNegated? = none) :
    tree.rewrite eliminate (aimedAt t) =
      (.error (.inapplicableShape t s!"expected a double negation, found {found d}"),
        aimedAt t) := by
  obtain ⟨before, hbefore, hscan⟩ := scan_before (Nat.zero_le t) hd.lt_count
  have hq := inquire?_of_stands eliminate (aimedAt t) hd
  rw [eliminate_target_of_none d.count_pos hr] at hq
  rw [scan_of_isLast hd.lt_count hq rfl] at hscan
  rw [rewrite_eq, hscan, rebuilt, List.findSome?_append,
    List.findSome?_eq_none_iff.mpr fun q hq => (hbefore q hq).error]
  rfl

end DoubleNegation

/-- Two negations are taken off one sub-diagram, and all around it stays. -/
def Diagram.Eliminates : Diagram → Diagram → Prop :=
  Diagram.Inside fun d e => d = .negation (.negation e)

namespace Rule

open Diagram

variable {goal out : Diagram} {argument : Argument} {style : Style}

/-- A sentential rule succeeds where its argument is an index of the goal and its walk succeeds. -/
theorem sentential_eq_ok_iff {rule : String}
    {rewriteAt : Nat → Diagram → Except DiagramError Diagram} :
    sentential rule rewriteAt goal argument = .ok out ↔
      ∃ i, argument = .subDiagram i ∧ i < goal.count ∧ rewriteAt i goal = .ok out := by
  unfold sentential
  cases argument with
  | subDiagram i =>
    by_cases hi : i < goal.count
    · simp only [if_pos hi]
      constructor
      · intro h
        cases hr : rewriteAt i goal with
        | error e =>
          rw [hr] at h
          cases h
        | ok d =>
          rw [hr] at h
          cases h
          exact ⟨i, rfl, hi, hr⟩
      · intro h
        obtain ⟨j, hj, -, hout⟩ := h
        cases hj
        rw [hout]
        rfl
    · simp [hi]
  | _ => simp

/-- The rule accepts exactly the indices of double negations. -/
theorem doubleNegationElimination_eq_ok_iff :
    doubleNegationElimination.apply goal argument style = .ok out ↔
      ∃ i p e, argument = .subDiagram i ∧ goal.Stands i p (negation (negation e)) ∧
        out = goal.substitute (only p e) := by
  simp only [doubleNegationElimination, sentential_eq_ok_iff]
  constructor
  · intro h
    obtain ⟨i, rfl, hi, hout⟩ := h
    obtain ⟨d, hd⟩ := exists_stands hi
    cases hr : d.doublyNegated? with
    | none =>
      rw [DoubleNegation.rewrite_eliminate_of_none hd hr] at hout
      cases hout
    | some e =>
      rw [DoubleNegation.rewrite_eliminate_of_some hd hr] at hout
      cases hout
      have he : d = negation (negation e) := doublyNegated?_eq_some_iff.mp hr
      exact ⟨i, goal.pathOf i, e, rfl, he ▸ hd, rfl⟩
  · intro h
    obtain ⟨i, p, e, rfl, hd, rfl⟩ := h
    exact ⟨i, rfl, hd.lt_count, by rw [DoubleNegation.rewrite_eliminate_of_some hd rfl]⟩

theorem eliminates_of_apply (h : doubleNegationElimination.apply goal argument style = .ok out) :
    goal.Eliminates out := by
  obtain ⟨i, p, e, -, hd, rfl⟩ := doubleNegationElimination_eq_ok_iff.mp h
  exact hd.inside_substitute rfl

theorem exists_apply_of_stands (style : Style) {i : Nat} {p : List Nat} {e : Diagram}
    (h : goal.Stands i p (negation (negation e))) :
    ∃ out, doubleNegationElimination.apply goal (.subDiagram i) style = .ok out :=
  ⟨_, doubleNegationElimination_eq_ok_iff.mpr ⟨i, p, e, rfl, h, rfl⟩⟩

end Rule

end SpiderDiagrams
