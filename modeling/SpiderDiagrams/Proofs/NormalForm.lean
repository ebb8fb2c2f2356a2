import Mathlib.Logic.Function.Iterate
import SpiderDiagrams.Proofs.Elimination

/-!
# The normal form of double negation elimination

A maximal chain of `k` negations can lose two of them at a time until `k % 2` are left. The diagram in
which all chains are shortened in this way stays the same in every elimination, and each elimination takes
away two sub-diagrams. So the number of eliminations is bounded, and those that cannot go on have all
reached the one normal form.
-/
namespace SpiderDiagrams.Diagram

/-- All chains of negations are shortened to their parity, where `k` negations stand directly above. -/
def shortened : Diagram → Nat → Diagram
  | negation d, k => d.shortened (k + 1)
  | binary c l r, k => negation^[k % 2] (binary c (l.shortened 0) (r.shortened 0))
  | d, k => negation^[k % 2] d

/-- Every maximal chain of `k` negations is shortened to `k % 2` negations. -/
def normal (d : Diagram) : Diagram := d.shortened 0

variable {d e g g' : Diagram} {k : Nat}

theorem count_iterate_negation (k : Nat) (d : Diagram) : (negation^[k] d).count = k + d.count := by
  induction k with
  | zero => simp
  | succ k ih =>
    rw [Function.iterate_succ_apply', count, ih]
    omega

theorem shortened_iterate_negation (n k : Nat) (d : Diagram) :
    (negation^[n] d).shortened k = d.shortened (k + n) := by
  induction n generalizing k with
  | zero => rfl
  | succ n ih =>
    rw [Function.iterate_succ_apply', shortened, ih]
    congr 1
    omega

/-- A chain that ends at something else keeps the parity of its length. -/
theorem normal_iterate_negation (k : Nat) (h : ∀ e, d ≠ negation e) :
    (negation^[k] d).normal = negation^[k % 2] d.normal := by
  rw [normal, shortened_iterate_negation, Nat.zero_add]
  cases d with
  | negation e => exact (h e rfl).elim
  | null => rfl
  | primary => rfl
  | binary => rfl

theorem normal_binary (c : Connective) (l r : Diagram) :
    (binary c l r).normal = binary c l.normal r.normal := rfl

/-- Only the parity of the negations above matters. -/
theorem shortened_add_two (d : Diagram) (k : Nat) : d.shortened (k + 2) = d.shortened k := by
  induction d generalizing k with
  | null => simp [shortened]
  | primary => simp [shortened]
  | negation d ih => exact ih (k + 1)
  | binary c l r => simp [shortened]

theorem count_shortened_le (d : Diagram) (k : Nat) : (d.shortened k).count ≤ d.count + k % 2 := by
  induction d generalizing k with
  | null => simp [shortened, count_iterate_negation, Nat.add_comm]
  | primary => simp [shortened, count_iterate_negation, Nat.add_comm]
  | negation d ih =>
    have := ih (k + 1)
    rw [shortened, count]
    omega
  | binary c l r ihl ihr =>
    have := ihl 0
    have := ihr 0
    rw [shortened, count_iterate_negation, count, count]
    omega

theorem count_normal_le (d : Diagram) : d.normal.count ≤ d.count :=
  count_shortened_le d 0

/-! ## One elimination -/

theorem Eliminates.count_eq (h : d.Eliminates e) : d.count = e.count + 2 := by
  induction h with
  | here h =>
    subst h
    simp only [count]
    omega
  | negation _ ih =>
    simp only [count]
    omega
  | left c r _ ih =>
    simp only [count]
    omega
  | right c l _ ih =>
    simp only [count]
    omega

theorem Eliminates.shortened_eq (h : d.Eliminates e) (k : Nat) : d.shortened k = e.shortened k := by
  induction h generalizing k with
  | here h =>
    subst h
    exact shortened_add_two _ k
  | negation _ ih => exact ih (k + 1)
  | left c r _ ih => rw [shortened, shortened, ih]
  | right c l _ ih => rw [shortened, shortened, ih]

theorem Eliminates.normal_eq (h : d.Eliminates e) : d.normal = e.normal :=
  h.shortened_eq 0

/-- Where no double negation is left, no chain is longer than its parity. -/
theorem shortened_eq_self (h : ∀ i p e, ¬ d.Stands i p (negation (negation e))) :
    d.shortened 0 = d ∧ ((∀ e, d ≠ negation e) → d.shortened 1 = negation d) := by
  -- Under a negation the accumulator is 1, and what stands there is no negation again.
  induction d with
  | null => exact ⟨rfl, fun _ => rfl⟩
  | primary => exact ⟨rfl, fun _ => rfl⟩
  | negation d ih =>
    have hd := ih fun i p e hs => h _ _ e ((stands_negation d).trans hs)
    have hne : ∀ e, d ≠ negation e := by
      rintro e rfl
      exact h 0 [] e (.root _)
    exact ⟨hd.2 hne, fun hn => (hn d rfl).elim⟩
  | binary c l r ihl ihr =>
    have hl := ihl fun i p e hs => h _ _ e ((stands_left c l r).trans hs)
    have hr := ihr fun i p e hs => h _ _ e ((stands_right c l r).trans hs)
    simp [shortened, hl.1, hr.1]

theorem normal_eq_self (h : ∀ i style next,
    Rule.doubleNegationElimination.apply d (.subDiagram i) style ≠ .ok next) : d.normal = d := by
  refine (shortened_eq_self fun i p e hs => ?_).1
  obtain ⟨out, hout⟩ := Rule.exists_apply_of_stands .forward hs
  exact h i .forward out hout

/-! ## Runs -/

/-- Eliminations with one argument after another. -/
def eliminations (g : Diagram) (steps : List (Argument × Style)) : Except RuleError Diagram :=
  steps.foldlM (fun d step => Rule.doubleNegationElimination.apply d step.1 step.2) g

/-- A run keeps the normal form, and each of its steps takes two sub-diagrams away. -/
theorem eliminations_invariant {steps : List (Argument × Style)}
    (h : g.eliminations steps = .ok g') :
    g.normal = g'.normal ∧ g.count = g'.count + 2 * steps.length := by
  induction steps generalizing g with
  | nil =>
    cases h
    exact ⟨rfl, rfl⟩
  | cons step steps ih =>
    rw [eliminations, List.foldlM_cons] at h
    cases hd : Rule.doubleNegationElimination.apply g step.1 step.2 with
    | error e =>
      rw [hd] at h
      cases h
    | ok d =>
      rw [hd] at h
      have hstep := Rule.eliminates_of_apply hd
      obtain ⟨hn, hc⟩ := ih h
      have := hstep.count_eq
      rw [List.length_cons]
      exact ⟨hstep.normal_eq.trans hn, by omega⟩

theorem exists_eliminations_to_normal (g : Diagram) :
    ∃ steps, g.eliminations steps = .ok g.normal := by
  induction hk : g.count using Nat.strongRecOn generalizing g with
  | ind k ih =>
    by_cases hend : ∀ i style next,
        Rule.doubleNegationElimination.apply g (.subDiagram i) style ≠ .ok next
    · exact ⟨[], congrArg Except.ok (normal_eq_self hend).symm⟩
    · simp only [not_forall, not_not] at hend
      obtain ⟨i, style, d, hd⟩ := hend
      have hstep := Rule.eliminates_of_apply hd
      have := hstep.count_eq
      obtain ⟨steps, hs⟩ := ih d.count (by omega) d rfl
      refine ⟨(.subDiagram i, style) :: steps, ?_⟩
      rw [eliminations, List.foldlM_cons, hd, hstep.normal_eq]
      exact hs

/-- Eliminations come to an end, and all that come to an end do so at the normal form, after the same
number of steps. -/
theorem eliminations_end_at_normal (g g' : Diagram) (steps : List (Argument × Style))
    (h : g.eliminations steps = .ok g') :
    steps.length ≤ (g.count - g.normal.count) / 2 ∧
      ((∀ i style next,
          Rule.doubleNegationElimination.apply g' (.subDiagram i) style ≠ .ok next) →
        steps.length = (g.count - g.normal.count) / 2 ∧ g' = g.normal) := by
  obtain ⟨hn, hc⟩ := eliminations_invariant h
  have hle := count_normal_le g'
  rw [← hn] at hle
  refine ⟨by omega, ?_⟩
  intro hend
  have hg' : g' = g.normal := (normal_eq_self hend).symm.trans hn.symm
  rw [← hg']
  exact ⟨by omega, rfl⟩

/-- A chain of three and one of two, in different orders. -/
theorem eliminations_end_at_normal_nested :
    let g := negation (negation (negation (binary .implication (negation (negation null)) null)))
    let steps : List (Argument × Style) := [(.subDiagram 4, .forward), (.subDiagram 1, .backward)]
    g.eliminations steps = .ok g.normal ∧ steps.length = (g.count - g.normal.count) / 2 := by
  intro g steps
  have hrun : g.eliminations steps = .ok (negation (binary .implication null null)) := rfl
  have hend : ∀ i style next, Rule.doubleNegationElimination.apply
      (negation (binary .implication null null)) (.subDiagram i) style ≠ .ok next := by
    intro i style next h
    obtain ⟨j, p, e, -, hs, -⟩ := Rule.doubleNegationElimination_eq_ok_iff.mp h
    have hlt : j < 4 := hs.lt_count
    have hat := hs.subdiagram?
    match j with
    | 0 | 1 | 2 | 3 => simp [subdiagram?, count] at hat
    | j + 4 => omega
  obtain ⟨hlen, hg⟩ := (eliminations_end_at_normal g _ steps hrun).2 hend
  exact ⟨hrun.trans (congrArg _ hg), hlen⟩

end SpiderDiagrams.Diagram
