import SpiderDiagrams.Reasoning.Registry

/-!
# Proofs

A proof starts from a goal and applies rules to its latest goal. It is finished when that goal is the
null diagram. Steps are undone from the last one back.
-/
namespace SpiderDiagrams

structure Application where
  rule : String
  argument : Argument
  style : Style
  deriving DecidableEq, Repr

structure Step where
  application : Application
  goal : Diagram
  deriving DecidableEq

structure Proof where
  initialGoal : Diagram
  steps : List Step
  deriving DecidableEq

namespace Proof

def ofGoal (goal : Diagram) : Proof := ⟨goal, []⟩

def goals (p : Proof) : List Diagram := p.initialGoal :: p.steps.map Step.goal

def currentGoal (p : Proof) : Diagram :=
  match p.steps.getLast? with
  | some step => step.goal
  | none => p.initialGoal

/-- The number of goals. -/
def length (p : Proof) : Nat := p.steps.length + 1

def isFinished (p : Proof) : Bool := p.currentGoal.isNull

def applyRule (p : Proof) (registry : Registry) (application : Application) : Except RuleError Proof := do
  let goal ← registry.apply p.currentGoal application.rule application.argument application.style
  return { p with steps := p.steps ++ [⟨application, goal⟩] }

/-- Gives back the step that is taken off. -/
def undo (p : Proof) : Except RuleError (Step × Proof) :=
  match p.steps.getLast? with
  | some step => .ok (step, { p with steps := p.steps.dropLast })
  | none => .error .nothingToUndo

theorem getLast?_goals (p : Proof) : p.goals.getLast? = some p.currentGoal := by
  simp only [goals, currentGoal, List.getLast?_cons, List.getLast?_map]
  cases p.steps.getLast? <;> rfl

variable {p p' : Proof} {registry : Registry} {application : Application} {step : Step}

theorem length_goals (p : Proof) : p.goals.length = p.steps.length + 1 := by
  simp [goals]

theorem getElem?_goals_length (p : Proof) : p.goals[p.steps.length]? = some p.currentGoal := by
  rw [← getLast?_goals, List.getLast?_eq_getElem?, length_goals]
  rfl

theorem goals_concat (p : Proof) (step : Step) :
    goals { p with steps := p.steps ++ [step] } = p.goals ++ [step.goal] := by
  simp [goals]

theorem currentGoal_concat (p : Proof) (step : Step) :
    currentGoal { p with steps := p.steps ++ [step] } = step.goal := by
  simp [currentGoal]

/-- A rule adds one step, whose goal is made of the latest one. -/
theorem applyRule_eq_ok_iff :
    p.applyRule registry application = .ok p' ↔
      ∃ goal, registry.apply p.currentGoal application.rule application.argument
          application.style = .ok goal ∧
        p' = { p with steps := p.steps ++ [⟨application, goal⟩] } := by
  unfold applyRule
  cases registry.apply p.currentGoal application.rule application.argument application.style with
  | error e => simp [bind, Except.bind]
  | ok goal => simp [bind, Except.bind, pure, Except.pure, eq_comm]

/-- Undoing takes off the last step and nothing else. -/
theorem undo_eq_ok_iff :
    p.undo = .ok (step, p') ↔ p = { p' with steps := p'.steps ++ [step] } := by
  constructor
  · intro h
    obtain ⟨goal, steps⟩ := p
    unfold undo at h
    cases hl : steps.getLast? with
    | none => simp [hl] at h
    | some last =>
      obtain ⟨others, rfl⟩ := List.getLast?_eq_some_iff.mp hl
      simp only [hl, List.dropLast_concat, Except.ok.injEq, Prod.mk.injEq] at h
      obtain ⟨rfl, rfl⟩ := h
      rfl
  · rintro rfl
    simp [undo]

end Proof

end SpiderDiagrams
