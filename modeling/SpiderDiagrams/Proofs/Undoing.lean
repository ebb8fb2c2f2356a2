import Mathlib.Data.List.Infix
import SpiderDiagrams.Proofs.Soundness

/-!
# Steps as a stack

A call that fails leaves no trace, a rule puts one step on top of the others, and undoing takes the top step off.
So a run cannot change the steps that it never goes below (`take_steps_run`), and what is undone is the step that was
added last and has been held ever since (`top_step_cases`).
-/
namespace SpiderDiagrams

/-- What a call comes to. -/
inductive Outcome where
  | added (step : Step)
  | undone (step : Step)
  | refused (error : RuleError)
  deriving DecidableEq

namespace Outcome

def isAdded : Outcome → Bool
  | added _ => true
  | _ => false

def isUndone : Outcome → Bool
  | undone _ => true
  | _ => false

end Outcome

namespace Proof

def push (p : Proof) (step : Step) : Proof := { p with steps := p.steps ++ [step] }

def outcome (registry : Registry) (p : Proof) : Call → Outcome
  | .apply application =>
    match p.applyRule registry application with
    | .ok p' => .added ⟨application, p'.currentGoal⟩
    | .error e => .refused e
  | .undo =>
    match p.undo with
    | .ok (step, _) => .undone step
    | .error e => .refused e

/-- What the calls of a run come to, in order. -/
def outcomes (registry : Registry) (p : Proof) : List Call → List Outcome
  | [] => []
  | call :: calls => p.outcome registry call :: (p.perform registry call).outcomes registry calls

/-- There are at least so many steps at every moment of the run, its beginning and its end included. -/
def HoldsAtLeast (registry : Registry) (p : Proof) (calls : List Call) (m : Nat) : Prop :=
  ∀ before, before <+: calls → m ≤ (p.run registry before).steps.length

/-- The step was added by the call that comes behind the given ones, and no later call went below it. -/
def AddedAfter (registry : Registry) (p : Proof) (calls before : List Call) (step : Step) : Prop :=
  let prior := p.run registry before
  ∃ after, calls = before ++ .apply step.application :: after ∧
    prior.applyRule registry step.application = .ok (prior.push step) ∧
    (prior.push step).HoldsAtLeast registry after (prior.push step).steps.length

variable {registry : Registry} {p : Proof} {call : Call} {calls : List Call} {step : Step} {m : Nat}

instance : Decidable (p.HoldsAtLeast registry calls m) :=
  decidable_of_iff (∀ before ∈ calls.inits, m ≤ (p.run registry before).steps.length)
    (forall_congr' fun before => by rw [List.mem_inits])

/-! ## One call -/

@[simp]
theorem steps_push (p : Proof) (step : Step) : (p.push step).steps = p.steps ++ [step] := rfl

theorem length_push (p : Proof) (step : Step) : (p.push step).steps.length = p.steps.length + 1 := by
  simp

theorem undo_push (p : Proof) (step : Step) : (p.push step).undo = .ok (step, p) :=
  undo_eq_ok_iff.mpr rfl

theorem push_inj {q q' : Proof} {step step' : Step} (h : q.push step = q'.push step') : q = q' ∧ step = step' := by
  have hu := undo_push q step
  rw [h, undo_push] at hu
  cases hu
  exact ⟨rfl, rfl⟩

theorem exists_push (h : p.steps ≠ []) : ∃ (rest : Proof) (step : Step), p = rest.push step := by
  obtain ⟨others, step, hsteps⟩ := (List.eq_nil_or_concat p.steps).resolve_left h
  exact ⟨{ p with steps := others }, step, by rw [push, ← List.concat_eq_append, ← hsteps]⟩

theorem undo_eq_nothingToUndo_iff : p.undo = .error .nothingToUndo ↔ p.steps = [] := by
  constructor
  · intro h
    by_contra hne
    obtain ⟨rest, step, rfl⟩ := exists_push hne
    rw [undo_push] at h
    cases h
  · intro h
    simp [undo, h]

/-- A call is refused and changes nothing, or puts a step on top, or takes the top step off. -/
theorem perform_cases (registry : Registry) (p : Proof) (call : Call) :
    (∃ e, p.outcome registry call = .refused e ∧ p.perform registry call = p) ∨
      (∃ step, call = .apply step.application ∧ p.outcome registry call = .added step ∧
        p.applyRule registry step.application = .ok (p.push step) ∧ p.perform registry call = p.push step) ∨
      ∃ step p', p = p'.push step ∧ p.outcome registry call = .undone step ∧ p.perform registry call = p' := by
  cases call with
  | apply application =>
    simp only [outcome, perform]
    cases ha : p.applyRule registry application with
    | error e => exact .inl ⟨e, rfl, rfl⟩
    | ok p' =>
      obtain ⟨goal, -, rfl⟩ := applyRule_eq_ok_iff.mp ha
      refine .inr (.inl ⟨⟨application, goal⟩, rfl, ?_, ha, rfl⟩)
      simp only [currentGoal_concat]
  | undo =>
    simp only [outcome, perform]
    cases hu : p.undo with
    | error e => exact .inl ⟨e, rfl, rfl⟩
    | ok out => exact .inr (.inr ⟨out.1, out.2, undo_eq_ok_iff.mp hu, rfl, rfl⟩)

/-- Only an application makes the steps more. -/
theorem exists_push_of_lt (h : p.steps.length < (p.perform registry call).steps.length) :
    ∃ step, call = .apply step.application ∧
      p.applyRule registry step.application = .ok (p.push step) ∧ p.perform registry call = p.push step := by
  obtain ⟨_, -, hp⟩ | ⟨step, hcall, -, happly, hp⟩ | ⟨_, p', rfl, -, hp⟩ := perform_cases registry p call
  · rw [hp] at h
    omega
  · exact ⟨step, hcall, happly, hp⟩
  · rw [hp, length_push] at h
    omega

theorem perform_of_refused {e : RuleError} (h : p.outcome registry call = .refused e) :
    p.perform registry call = p := by
  obtain ⟨_, -, hp⟩ | ⟨_, -, ho, -⟩ | ⟨_, _, -, ho, -⟩ := perform_cases registry p call
  · exact hp
  · rw [ho] at h
    cases h
  · rw [ho] at h
    cases h

theorem take_steps_perform (h : m ≤ p.steps.length) (h' : m ≤ (p.perform registry call).steps.length) :
    (p.perform registry call).steps.take m = p.steps.take m := by
  obtain ⟨_, -, hp⟩ | ⟨step, -, -, -, hp⟩ | ⟨step, p', rfl, -, hp⟩ := perform_cases registry p call
  · rw [hp]
  · rw [hp, steps_push, List.take_append_of_le_length h]
  · rw [hp] at h' ⊢
    rw [steps_push, List.take_append_of_le_length h']

/-! ## Runs -/

theorem run_append (registry : Registry) (p : Proof) (before after : List Call) :
    p.run registry (before ++ after) = (p.run registry before).run registry after :=
  List.foldl_append

theorem initialGoal_run (registry : Registry) (p : Proof) (calls : List Call) :
    (p.run registry calls).initialGoal = p.initialGoal := by
  refine run_induct (P := fun q => q.initialGoal = p.initialGoal) rfl ?_ ?_ calls
  · intro q q' application hq ha
    obtain ⟨goal, -, rfl⟩ := applyRule_eq_ok_iff.mp ha
    exact hq
  · intro q q' step hq hu
    rw [undo_eq_ok_iff.mp hu] at hq
    exact hq

theorem holdsAtLeast_nil : p.HoldsAtLeast registry [] m ↔ m ≤ p.steps.length := by
  simp [HoldsAtLeast, run]

theorem holdsAtLeast_cons : p.HoldsAtLeast registry (call :: calls) m ↔
    m ≤ p.steps.length ∧ (p.perform registry call).HoldsAtLeast registry calls m := by
  constructor
  · intro h
    exact ⟨h [] List.nil_prefix,
      fun before hbefore => h (call :: before) (List.cons_prefix_cons.mpr ⟨rfl, hbefore⟩)⟩
  · intro h before hbefore
    obtain ⟨hp, hcalls⟩ := h
    cases before with
    | nil => exact hp
    | cons call' before =>
      obtain ⟨rfl, hrest⟩ := List.cons_prefix_cons.mp hbefore
      exact hcalls before hrest

theorem HoldsAtLeast.le_length (h : p.HoldsAtLeast registry calls m) : m ≤ p.steps.length :=
  h [] List.nil_prefix

/-- The steps below the lowest point of a run stay as they are. -/
theorem take_steps_run (h : p.HoldsAtLeast registry calls m) :
    (p.run registry calls).steps.take m = p.steps.take m := by
  induction calls generalizing p with
  | nil => rfl
  | cons call calls ih =>
    obtain ⟨hp, hcalls⟩ := holdsAtLeast_cons.mp h
    exact (ih hcalls).trans (take_steps_perform hp hcalls.le_length)

/-- A run that comes back to where it began, and was never below, changes nothing. -/
theorem run_eq_self (h : p.HoldsAtLeast registry calls p.steps.length)
    (hlength : (p.run registry calls).steps.length = p.steps.length) : p.run registry calls = p := by
  have hsteps : (p.run registry calls).steps = p.steps := by
    have htake := take_steps_run h
    rwa [← hlength, List.take_length, hlength, List.take_length] at htake
  have hgoal := initialGoal_run registry p calls
  generalize p.run registry calls = q at hsteps hgoal
  cases q
  cases p
  simp_all

/-- The top step was added in the run and is held since then, and what is below it is what was there before. Or else
the run has held it from the beginning. -/
theorem top_step_cases {rest : Proof} (h : p.run registry calls = rest.push step) :
    (∃ before, p.AddedAfter registry calls before step ∧ rest = p.run registry before) ∨
      p.HoldsAtLeast registry calls (rest.steps.length + 1) ∧ p.steps[rest.steps.length]? = some step := by
  induction calls generalizing p with
  | nil =>
    have hp : p = rest.push step := h
    refine .inr ⟨holdsAtLeast_nil.mpr ?_, ?_⟩
    · rw [hp, length_push]
    · rw [hp, steps_push, List.getElem?_concat_length]
  | cons call calls ih =>
    rcases ih h with ⟨before, ⟨after, rfl, hadded⟩, hrest⟩ | ⟨hheld, htop⟩
    · exact .inl ⟨call :: before, ⟨after, rfl, hadded⟩, hrest⟩
    · rcases Nat.lt_or_ge rest.steps.length p.steps.length with hlt | hge
      · refine .inr ⟨holdsAtLeast_cons.mpr ⟨hlt, hheld⟩, ?_⟩
        have htake : (p.perform registry call).steps.take (rest.steps.length + 1) =
            p.steps.take (rest.steps.length + 1) := take_steps_perform hlt hheld.le_length
        rw [← List.getElem?_take_of_lt (Nat.lt_succ_self _), ← htake,
          List.getElem?_take_of_lt (Nat.lt_succ_self _)]
        exact htop
      · -- The first call went up to where the run ends, so the run behind it changed nothing.
        obtain ⟨added, rfl, happly, hp⟩ := exists_push_of_lt (Nat.lt_of_le_of_lt hge hheld.le_length)
        have hlength := hheld.le_length
        rw [hp] at hheld hlength
        have hsame : p.steps.length = rest.steps.length := by
          rw [length_push] at hlength
          omega
        have hrun : (p.push added).run registry calls = rest.push step := by
          rw [← hp]
          exact h
        have hback : (p.push added).run registry calls = p.push added := by
          refine run_eq_self ?_ ?_
          · rwa [length_push, hsame]
          · rw [hrun, length_push, length_push, hsame]
        obtain ⟨rfl, rfl⟩ := push_inj (hback.symm.trans hrun)
        refine .inl ⟨[], ⟨calls, rfl, happly, ?_⟩, rfl⟩
        rw [length_push]
        exact hheld

/-- Goals are as many as steps were added and not undone, besides the initial one. -/
theorem length_run (registry : Registry) (p : Proof) (calls : List Call) :
    (p.run registry calls).length + (p.outcomes registry calls).countP Outcome.isUndone =
      1 + p.steps.length + (p.outcomes registry calls).countP Outcome.isAdded := by
  induction calls generalizing p with
  | nil => simp [run, outcomes, length, Nat.add_comm]
  | cons call calls ih =>
    have hlater := ih (p.perform registry call)
    show ((p.perform registry call).run registry calls).length + _ = _
    rw [outcomes, List.countP_cons, List.countP_cons]
    obtain ⟨e, ho, hp⟩ | ⟨step, -, ho, -, hp⟩ | ⟨step, p', hpush, ho, hp⟩ := perform_cases registry p call
    · rw [hp] at hlater ⊢
      simp only [ho, Outcome.isAdded, Outcome.isUndone]
      simpa using hlater
    · have hlength : (p.perform registry call).steps.length = p.steps.length + 1 := by rw [hp, length_push]
      simp only [ho, Outcome.isAdded, Outcome.isUndone, if_true, Bool.false_eq_true, if_false]
      omega
    · have hlength : p.steps.length = (p.perform registry call).steps.length + 1 := by
        rw [hp, hpush, length_push]
      simp only [ho, Outcome.isAdded, Outcome.isUndone, if_true, Bool.false_eq_true, if_false]
      omega

/-- The steps of a proof are a stack, in every run from every proof. A call that fails changes nothing. Undoing fails
only where there are no steps, and otherwise takes off the one that was added last and is still held, so that what is
left is what was there before it. What a run never goes below stays as it was; a run that is never below its beginning
and ends with as many steps ends where it began. -/
theorem run_stack_discipline (registry : Registry) (p : Proof) (calls : List Call) :
    let last := p.run registry calls
    let outcomes := p.outcomes registry calls
    (∀ before call e, before ++ [call] <+: calls →
        (p.run registry before).outcome registry call = .refused e →
        p.run registry (before ++ [call]) = p.run registry before) ∧
      (last.undo = .error .nothingToUndo ↔ last.steps = []) ∧
      (last.steps ≠ [] → ∃ step rest, last.undo = .ok (step, rest) ∧ last = rest.push step ∧
        ((∃ before, p.AddedAfter registry calls before step ∧ rest = p.run registry before) ∨
          p.HoldsAtLeast registry calls last.steps.length ∧ p.steps[rest.steps.length]? = some step)) ∧
      (∀ m, p.HoldsAtLeast registry calls m → last.steps.take m = p.steps.take m) ∧
      (p.HoldsAtLeast registry calls p.steps.length → last.length = p.length → last = p) ∧
      last.length + outcomes.countP Outcome.isUndone =
        1 + p.steps.length + outcomes.countP Outcome.isAdded := by
  intro last outcomes
  refine ⟨?_, undo_eq_nothingToUndo_iff, ?_, fun m hm => take_steps_run hm, ?_, length_run registry p calls⟩
  · intro before call e _ hrefused
    rw [run_append]
    exact perform_of_refused hrefused
  · intro hne
    obtain ⟨rest, step, hlast⟩ := exists_push hne
    refine ⟨step, rest, by rw [hlast, undo_push], hlast, ?_⟩
    rw [hlast, length_push]
    exact top_step_cases hlast
  · intro hheld hlength
    exact run_eq_self hheld (Nat.succ.inj hlength)

/-- A run with a refused call comes back to where it began. One that goes below its beginning ends with as many steps,
and with another one on top. -/
theorem run_stack_discipline_returning :
    let eliminate (i : Nat) : Call := .apply ⟨"double_negation_elimination", .subDiagram i, .forward⟩
    let p := (ofGoal (Nat.repeat Diagram.negation 6 .null)).run .builtin [eliminate 4]
    let above := [eliminate 0, eliminate 9, .undo]
    let below := [.undo, .undo, eliminate 0]
    p.HoldsAtLeast .builtin above p.steps.length ∧ p.run .builtin above = p ∧
      (p.run .builtin below).length = p.length ∧ p.run .builtin below ≠ p ∧
      (p.run .builtin below).length + 1 = 1 + p.steps.length + 1 := by
  intro eliminate p above below
  obtain ⟨-, -, -, -, hreturns, -⟩ := run_stack_discipline .builtin p above
  obtain ⟨-, -, -, -, -, hcount⟩ := run_stack_discipline .builtin p below
  have hheld : p.HoldsAtLeast .builtin above p.steps.length := by decide +kernel
  have hlength : (p.run .builtin above).length = p.length := by decide +kernel
  have hundone : (p.outcomes .builtin below).countP Outcome.isUndone = 1 := by decide +kernel
  have hadded : (p.outcomes .builtin below).countP Outcome.isAdded = 1 := by decide +kernel
  rw [hundone, hadded] at hcount
  exact ⟨hheld, hreturns hheld hlength, by decide +kernel, by decide +kernel, hcount⟩

end Proof

end SpiderDiagrams
