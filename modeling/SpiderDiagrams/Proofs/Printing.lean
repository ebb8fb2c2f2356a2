import SpiderDiagrams.Proofs.Applying
import SpiderDiagrams.Proofs.OneLine

/-!
# All goals or nothing

Steps either all succeed, each with what its rule makes of the goal before it, or one of them is the first that fails,
and its position is told. Only in the first case anything is printed, a line for every goal. Since the text of a
diagram is on one line, the printed goals are read off the output by splitting it at line breaks.
-/
namespace SpiderDiagrams.CommandLine

variable {style : Style} {steps : List StepRequest} {p : Proof} {d : Diagram} {goals : List Diagram}
  {lines : List String} {position : Nat} {e : RuleError} {cause : ReadError} {locale input text : String}
  {allGoals : Bool}

/-! ## Lines -/

theorem unlines_eq_intercalate (lines : List String) : unlines lines = "\n".intercalate (lines ++ [""]) := by
  induction lines with
  | nil => rfl
  | cons line lines ih =>
    rw [List.cons_append, String.intercalate_cons_of_ne_nil (by simp), ← ih, unlines, List.map_cons,
      String.join_cons]
    rfl

/-- Splitting a text at line breaks gives its lines, and nothing behind the last break. -/
theorem split_unlines (h : ∀ line ∈ lines, '\n' ∉ line.toList) :
    ((unlines lines).split '\n').toList.map String.Slice.copy = lines ++ [""] := by
  have hall : ∀ line ∈ lines ++ [""], '\n' ∉ line.toList := by
    intro line hline
    rcases List.mem_append.mp hline with hline | hline
    · exact h line hline
    · cases List.mem_singleton.mp hline
      simp
  have hsplit := String.toList_split_intercalate hall
  rw [if_neg (by simp)] at hsplit
  rw [unlines_eq_intercalate]
  exact hsplit

theorem split_unlines_jsonText (goals : List Diagram) :
    ((unlines (goals.map Diagram.jsonText)).split '\n').toList.map String.Slice.copy =
      goals.map Diagram.jsonText ++ [""] := by
  apply split_unlines
  intro line hline hbreak
  obtain ⟨goal, -, rfl⟩ := List.mem_map.mp hline
  exact (goal.isOneLine_jsonText.ne_lineBreak hbreak).1 rfl

/-! ## Derivations -/

/-- The goals that the steps lead to one after another, the first of them from the given goal. -/
inductive Derivation (style : Style) : Diagram → List StepRequest → List Diagram → Prop
  | done (goal : Diagram) : Derivation style goal [] []
  | step {goal next : Diagram} {steps : List StepRequest} {goals : List Diagram} (step : StepRequest)
      (applied : Registry.builtin.apply goal step.rule (.subDiagram step.index) style = .ok next)
      (later : Derivation style next steps goals) : Derivation style goal (step :: steps) (next :: goals)

/-- The step at this position, counted from one, is the first that fails. -/
def FailsAt (style : Style) (d : Diagram) (steps : List StepRequest) (position : Nat) (e : RuleError) : Prop :=
  ∃ before step after goals, steps = before ++ step :: after ∧ before.length + 1 = position ∧
    Derivation style d before goals ∧
    Registry.builtin.apply (goals.getLastD d) step.rule (.subDiagram step.index) style = .error e

theorem FailsAt.cons {goal next : Diagram} {step : StepRequest}
    (applied : Registry.builtin.apply goal step.rule (.subDiagram step.index) style = .ok next)
    (h : FailsAt style next steps position e) : FailsAt style goal (step :: steps) (position + 1) e := by
  obtain ⟨before, failing, after, goals, rfl, rfl, hderivation, hfails⟩ := h
  exact ⟨step :: before, failing, after, next :: goals, rfl, rfl, .step step applied hderivation,
    by rwa [List.getLastD_cons]⟩

/-- Steps succeed one after another, or one of them is the first that fails. -/
theorem derivation_or_failsAt (style : Style) (d : Diagram) (steps : List StepRequest) :
    (∃ goals, Derivation style d steps goals) ∨ ∃ position e, FailsAt style d steps position e := by
  induction steps generalizing d with
  | nil => exact .inl ⟨[], .done d⟩
  | cons step steps ih =>
    cases ha : Registry.builtin.apply d step.rule (.subDiagram step.index) style with
    | error e => exact .inr ⟨1, e, [], step, steps, [], rfl, rfl, .done d, ha⟩
    | ok next =>
      rcases ih next with ⟨goals, hgoals⟩ | ⟨position, e, hfails⟩
      · exact .inl ⟨next :: goals, .step step ha hgoals⟩
      · exact .inr ⟨position + 1, e, hfails.cons ha⟩

theorem applyRule_of_apply {next : Diagram} {step : StepRequest}
    (applied : Registry.builtin.apply p.currentGoal step.rule (.subDiagram step.index) style = .ok next) :
    ∃ p', p.applyRule .builtin ⟨step.rule, .subDiagram step.index, style⟩ = .ok p' ∧
      p'.goals = p.goals ++ [next] ∧ p'.currentGoal = next ∧ p'.steps.length = p.steps.length + 1 :=
  ⟨_, Proof.applyRule_eq_ok_iff.mpr ⟨next, applied, rfl⟩, p.goals_concat _, p.currentGoal_concat _,
    List.length_append⟩

theorem applySteps_of_derivation (h : Derivation style p.currentGoal steps goals) :
    ∃ p', applySteps style steps p = .ok p' ∧ p'.goals = p.goals ++ goals := by
  generalize hgoal : p.currentGoal = goal at h
  induction h generalizing p with
  | done goal => exact ⟨p, rfl, by rw [List.append_nil]⟩
  | step step applied _ ih =>
    obtain ⟨p₁, happly, hgoals, hcurrent, -⟩ := applyRule_of_apply (hgoal ▸ applied)
    obtain ⟨p', hsteps, hall⟩ := ih hcurrent
    refine ⟨p', ?_, ?_⟩
    · rw [applySteps, happly]
      exact hsteps
    · rw [hall, hgoals, List.append_assoc, List.singleton_append]

/-- The failing step is told by the number of goals that the proof holds when it comes to that step. -/
theorem applySteps_of_failsAt (h : FailsAt style p.currentGoal steps position e) :
    applySteps style steps p = .error (.failedStep (p.steps.length + position) e) := by
  obtain ⟨before, failing, after, goals, rfl, rfl, hderivation, hfails⟩ := h
  generalize hgoal : p.currentGoal = goal at hderivation hfails
  induction hderivation generalizing p with
  | done goal =>
    rw [List.getLastD_nil] at hfails
    have happly : p.applyRule .builtin ⟨failing.rule, .subDiagram failing.index, style⟩ = .error e := by
      rw [Proof.applyRule, hgoal, hfails]
      rfl
    rw [List.nil_append, applySteps, happly]
    rfl
  | step step applied _ ih =>
    obtain ⟨p₁, happly, -, hcurrent, hlength⟩ := applyRule_of_apply (hgoal ▸ applied)
    rw [List.getLastD_cons] at hfails
    rw [List.cons_append, applySteps, happly]
    refine (ih hcurrent hfails).trans ?_
    rw [hlength, List.length_cons, Nat.add_right_comm, Nat.add_assoc]

/-! ## Runs -/

theorem run_apply_of_unread (h : Diagram.ofJsonText text = .error cause) :
    (Request.apply input steps style allGoals).run locale (.ok text) = .error (.badDiagram input cause) := by
  show ((Diagram.ofJsonText text).mapError _ >>= _) = _
  rw [h]
  rfl

theorem run_apply_of_derivation (h : Diagram.ofJsonText text = .ok d) (hd : Derivation style d steps goals) :
    (Request.apply input steps style allGoals).run locale (.ok text) =
      .ok ((if allGoals then d :: goals else [goals.getLastD d]).map Diagram.jsonText) := by
  obtain ⟨p', hsteps, hgoals⟩ := applySteps_of_derivation (p := .ofGoal d) hd
  have hall : p'.goals = d :: goals := hgoals
  have hlast : p'.currentGoal = goals.getLastD d := by
    have hcurrent := p'.getLast?_goals
    rw [hall, List.getLast?_cons] at hcurrent
    rw [List.getLastD_eq_getLast?]
    exact (Option.some.inj hcurrent).symm
  rw [run_apply_of_read h, hsteps, ← hall, ← hlast]
  rfl

theorem run_apply_of_failsAt (h : Diagram.ofJsonText text = .ok d) (hd : FailsAt style d steps position e) :
    (Request.apply input steps style allGoals).run locale (.ok text) = .error (.failedStep position e) := by
  have hsteps := applySteps_of_failsAt (p := .ofGoal d) hd
  rw [Proof.ofGoal, List.length_nil, Nat.zero_add] at hsteps
  rw [run_apply_of_read h, Proof.ofGoal, hsteps]
  rfl

/-- All goals are printed or nothing is. A text that is no diagram is refused whatever the steps are. Where all steps
succeed, the goals they lead to are printed, one on each line, and are read off the output. Where a step fails, the
first one that does is told by its position. -/
theorem apply_prints_all_or_nothing (locale input text : String) (steps : List StepRequest) (style : Style)
    (allGoals : Bool) :
    let outcome := (Request.apply input steps style allGoals).run locale (.ok text)
    (∀ cause, Diagram.ofJsonText text = .error cause → exitCode outcome = 2 ∧ output outcome = "") ∧
      (∀ d, Diagram.ofJsonText text = .ok d →
        (∃ goals, Derivation style d steps goals) ∨ ∃ position e, FailsAt style d steps position e) ∧
      (∀ d goals, Diagram.ofJsonText text = .ok d → Derivation style d steps goals →
        let printed := if allGoals then d :: goals else [goals.getLastD d]
        exitCode outcome = 0 ∧
          output outcome = String.join (printed.map fun goal => goal.jsonText ++ "\n") ∧
          ∀ gs : List Diagram,
            ((output outcome).split '\n').toList.map String.Slice.copy = gs.map Diagram.jsonText ++ [""] ↔
              gs = printed) ∧
      (∀ d position e, Diagram.ofJsonText text = .ok d → FailsAt style d steps position e →
        exitCode outcome = 1 ∧ output outcome = "" ∧
          ∃ failure, outcome = .error failure ∧ failure.message = s!"Error: step {position} failed: {e.message}") ∧
      ∀ d : Diagram, ∀ c ∈ d.jsonText.toList, c ≠ '\n' ∧ c ≠ '\r' := by
  intro outcome
  refine ⟨?_, fun d _ => derivation_or_failsAt style d steps, ?_, ?_, ?_⟩
  · intro cause hread
    have houtcome : outcome = .error (.badDiagram input cause) := run_apply_of_unread hread
    rw [houtcome]
    exact ⟨rfl, rfl⟩
  · intro d goals hread hderivation printed
    have houtcome : outcome = .ok (printed.map Diagram.jsonText) := run_apply_of_derivation hread hderivation
    rw [houtcome]
    refine ⟨rfl, ?_, fun gs => ?_⟩
    · rw [output, unlines, List.map_map]
      rfl
    · rw [output, split_unlines_jsonText, List.append_left_inj]
      constructor
      · intro h
        exact ((List.map_inj_right fun _ _ => Diagram.jsonText_injective).mp h).symm
      · rintro rfl
        rfl
  · intro d position e hread hfails
    have houtcome : outcome = .error (.failedStep position e) := run_apply_of_failsAt hread hfails
    exact ⟨by rw [houtcome]; rfl, by rw [houtcome]; rfl, _, houtcome, rfl⟩
  · intro d c hc
    exact d.isOneLine_jsonText.ne_lineBreak hc

/-- A contour with a line break in its name is printed on one line. A second step that fails lets nothing be printed,
and neither does a text that is no diagram. -/
theorem apply_prints_all_or_nothing_lineBreak :
    let content : Primary := { Primary.blank with shaded := .ofList [.insideOf ["up\ndown"]] }
    let d := Diagram.negation (.negation (.primary content))
    let eliminate : StepRequest := ⟨"double_negation_elimination", 0⟩
    let applied (text : String) (steps : List StepRequest) :=
      (Request.apply "-" steps .forward true).run "en" (.ok text)
    (∀ gs : List Diagram, ((output (applied d.jsonText [eliminate])).split '\n').toList.map String.Slice.copy =
        gs.map Diagram.jsonText ++ [""] ↔ gs = [d, .primary content]) ∧
      exitCode (applied d.jsonText [eliminate, eliminate]) = 1 ∧
      output (applied d.jsonText [eliminate, eliminate]) = "" ∧
      exitCode (applied "[" [eliminate]) = 2 ∧ output (applied "[" [eliminate]) = "" := by
  intro content d eliminate applied
  have hread : Diagram.ofJsonText d.jsonText = .ok d := by
    rw [Diagram.ofJsonText_of_line (.inl rfl)]
    exact if_pos (by decide)
  have hunread : Diagram.ofJsonText "[" = .error .invalid := by cbv
  have hfirst : Registry.builtin.apply d eliminate.rule (.subDiagram 0) .forward = .ok (.primary content) := by
    rw [← toOption_eq_some_iff]
    decide +kernel
  have hsecond : ∃ e, Registry.builtin.apply (.primary content) eliminate.rule (.subDiagram 0) .forward = .error e :=
    ⟨_, by rfl⟩
  obtain ⟨e, he⟩ := hsecond
  obtain ⟨-, -, hall, -, -⟩ := apply_prints_all_or_nothing "en" "-" d.jsonText [eliminate] .forward true
  obtain ⟨-, -, -, hnothing, -⟩ :=
    apply_prints_all_or_nothing "en" "-" d.jsonText [eliminate, eliminate] .forward true
  obtain ⟨hrefused, -⟩ := apply_prints_all_or_nothing "en" "-" "[" [eliminate] .forward true
  obtain ⟨-, -, hlines⟩ := hall d [.primary content] hread (.step eliminate hfirst (.done _))
  obtain ⟨hcode, houtput, -⟩ := hnothing d 2 e hread
    ⟨[eliminate], eliminate, [], [.primary content], rfl, rfl, .step eliminate hfirst (.done _), he⟩
  exact ⟨hlines, hcode, houtput, hrefused .invalid hunread⟩

end SpiderDiagrams.CommandLine
