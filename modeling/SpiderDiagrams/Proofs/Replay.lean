import SpiderDiagrams.Proofs.Soundness

/-!
# Replaying proofs

Calls that fail and steps that are undone leave no trace: every run ends at a proof that successful
applications alone make of the initial goal. Such a proof holds what is needed to make it again. Each of
its steps has the application that led from the goal before it to its own goal, and applying them in order
gives the whole proof.
-/
namespace SpiderDiagrams.Proof

/-- The proofs that successful applications alone make of a goal. -/
inductive Grown (registry : Registry) (goal : Diagram) : Proof → Prop
  | start : Grown registry goal (ofGoal goal)
  | step {p p' : Proof} {application : Application} (prior : Grown registry goal p)
      (applied : p.applyRule registry application = .ok p') : Grown registry goal p'

/-- Applies rules one after another, and fails where one of them does. -/
def applyAll (registry : Registry) (p : Proof) (applications : List Application) :
    Except RuleError Proof :=
  applications.foldlM (applyRule · registry) p

variable {registry : Registry} {goal : Diagram} {p p' : Proof} {application : Application}
  {step : Step} {k : Nat}

theorem applyAll_concat {applications : List Application}
    (h : p.applyAll registry applications = .ok p') :
    p.applyAll registry (applications ++ [application]) = p'.applyRule registry application := by
  rw [applyAll, List.foldlM_append]
  show (p.applyAll registry applications >>= _) = _
  rw [h]
  cases ha : p'.applyRule registry application <;> simp [bind, Except.bind, pure, Except.pure, ha]

namespace Grown

/-- What is left after undoing was there before the undone step. -/
theorem undo (h : Grown registry goal p) (hu : p.undo = .ok (step, p')) : Grown registry goal p' := by
  have hp := undo_eq_ok_iff.mp hu
  cases h with
  | start => simp [ofGoal] at hp
  | step prior applied =>
    obtain ⟨out, -, rfl⟩ := applyRule_eq_ok_iff.mp applied
    obtain ⟨hgoal, hsteps⟩ := Proof.mk.inj hp
    have hprior := (List.append_inj' hsteps rfl).1
    cases p'
    subst hgoal hprior
    exact prior

theorem of_run (registry : Registry) (goal : Diagram) (calls : List Call) :
    Grown registry goal ((ofGoal goal).run registry calls) :=
  run_induct .start (fun _ _ _ hp ha => hp.step ha) (fun _ _ _ hp hu => hp.undo hu) calls

theorem initialGoal_eq (h : Grown registry goal p) : p.initialGoal = goal := by
  induction h with
  | start => rfl
  | step _ applied ih =>
    obtain ⟨out, -, rfl⟩ := applyRule_eq_ok_iff.mp applied
    exact ih

/-- The application of every step leads from the goal before the step to the goal of the step. -/
theorem apply_eq_ok (h : Grown registry goal p) (hk : p.steps[k]? = some step) :
    ∃ before, p.goals[k]? = some before ∧
      registry.apply before step.application.rule step.application.argument
        step.application.style = .ok step.goal := by
  induction h with
  | start => simp [ofGoal] at hk
  | @step q _ application _ applied ih =>
    obtain ⟨out, hout, rfl⟩ := applyRule_eq_ok_iff.mp applied
    rw [goals_concat]
    rcases Nat.lt_or_ge k q.steps.length with hlt | hge
    · rw [List.getElem?_append_left hlt] at hk
      obtain ⟨before, hbefore, happly⟩ := ih hk
      rw [List.getElem?_append_left (by rw [length_goals]; omega)]
      exact ⟨before, hbefore, happly⟩
    · -- The last step was made of the goal that was the latest one.
      rw [List.getElem?_append_right hge, List.getElem?_singleton] at hk
      split at hk
      · cases hk
        have hlast : k = q.steps.length := by omega
        rw [hlast, List.getElem?_append_left (by rw [length_goals]; omega), getElem?_goals_length]
        exact ⟨q.currentGoal, rfl, hout⟩
      · cases hk

theorem applyAll_eq_ok (h : Grown registry goal p) :
    (ofGoal goal).applyAll registry (p.steps.map Step.application) = .ok p := by
  induction h with
  | start => rfl
  | step _ applied ih =>
    have happlied := applied
    obtain ⟨out, -, rfl⟩ := applyRule_eq_ok_iff.mp applied
    rw [List.map_append, List.map_singleton, applyAll_concat ih]
    exact happlied

end Grown

/-- Whatever is refused and undone in a run, the proof keeps its initial goal, each of its steps tells how its
goal was made of the goal before it, and applying all the steps again makes the same proof. -/
theorem run_replays (registry : Registry) (goal : Diagram) (calls : List Call) :
    let p := (ofGoal goal).run registry calls
    p.initialGoal = goal ∧
      (∀ (k : Nat) (step : Step), p.steps[k]? = some step → ∃ before, p.goals[k]? = some before ∧
        registry.apply before step.application.rule step.application.argument
          step.application.style = .ok step.goal) ∧
      p.goals.getLast? = some p.currentGoal ∧
      (ofGoal goal).applyAll registry (p.steps.map Step.application) = .ok p := by
  intro p
  have h : Grown registry goal p := Grown.of_run registry goal calls
  exact ⟨h.initialGoal_eq, fun k step hk => h.apply_eq_ok hk, p.getLast?_goals, h.applyAll_eq_ok⟩

/-- A run with a refused step, an undone one and an undoing of nothing leaves two steps that can be replayed. -/
theorem run_replays_undone :
    let goal := Diagram.negation (.negation (.negation (.negation .null)))
    let eliminate (i : Nat) : Application := ⟨"double_negation_elimination", .subDiagram i, .backward⟩
    let calls : List Call :=
      [.undo, .apply (eliminate 2), .undo, .apply (eliminate 3), .apply (eliminate 1), .apply (eliminate 0)]
    let p := (ofGoal goal).run .builtin calls
    p.steps = [⟨eliminate 1, .negation (.negation .null)⟩, ⟨eliminate 0, .null⟩] ∧
      Registry.builtin.apply (.negation (.negation .null)) "double_negation_elimination"
        (.subDiagram 0) .backward = .ok .null ∧
      (ofGoal goal).applyAll .builtin [eliminate 1, eliminate 0] = .ok p := by
  intro goal eliminate calls p
  have hsteps : p.steps = [⟨eliminate 1, .negation (.negation .null)⟩, ⟨eliminate 0, .null⟩] := by
    decide +kernel
  obtain ⟨-, happly, -, hreplay⟩ := run_replays .builtin goal calls
  obtain ⟨before, hbefore, hlast⟩ := happly 1 ⟨eliminate 0, .null⟩ (congrArg (·[1]?) hsteps)
  have hsecond : before = .negation (.negation .null) := by
    have hgoals : p.goals[1]? = some (.negation (.negation .null)) := by
      rw [goals, hsteps]
      rfl
    exact Option.some.inj (hbefore.symm.trans hgoals)
  rw [hsecond] at hlast
  have hagain : p.steps.map Step.application = [eliminate 1, eliminate 0] := by rw [hsteps]; rfl
  exact ⟨hsteps, hlast, hagain ▸ hreplay⟩

end SpiderDiagrams.Proof
