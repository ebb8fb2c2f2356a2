import SpiderDiagrams.CommandLine.Run
import SpiderDiagrams.Proofs.NestingBounds
import SpiderDiagrams.Proofs.Soundness

/-!
# What applying rules prints

No rule makes the text of a goal nest deeper, and nothing but its nesting keeps a text that was printed from
being read again. So the goal that one run prints can be given to the next run, and the two do together
what one run does with all of their steps. Only a text that leaves out parts and nests as deep as is allowed
may lead to goals that are printed and cannot be read.
-/
namespace SpiderDiagrams

/-! ## Rules and nesting -/

namespace Diagram

variable {d e : Diagram} {R : Diagram → Diagram → Prop}

theorem Inside.nesting_le (h : Inside R d e)
    (hR : ∀ a b, R a b → b.toJson.nesting ≤ a.toJson.nesting) : e.toJson.nesting ≤ d.toJson.nesting := by
  induction h with
  | here h => exact hR _ _ h
  | negation _ ih => simp only [nesting_toJson_negation]; omega
  | left c r _ ih => simp only [nesting_toJson_binary]; omega
  | right c l _ ih => simp only [nesting_toJson_binary]; omega

theorem Eliminates.nesting_le (h : d.Eliminates e) : e.toJson.nesting ≤ d.toJson.nesting := by
  refine Inside.nesting_le h ?_
  rintro a b rfl
  simp only [nesting_toJson_negation]
  omega

end Diagram

theorem Registry.nesting_le_of_builtin_apply {goal out : Diagram} {name : String} {argument : Argument}
    {style : Style} (h : builtin.apply goal name argument style = .ok out) :
    out.toJson.nesting ≤ goal.toJson.nesting := by
  obtain ⟨rule, hmem, -, hrule⟩ := exists_rule_of_apply h
  rcases List.mem_cons.mp hmem with rfl | hmem
  · exact (Rule.eliminates_of_apply hrule).nesting_le
  · cases List.mem_singleton.mp hmem
    obtain ⟨i, -, -, rfl⟩ := Rule.equivalenceIntroduction_eq_ok_iff.mp hrule
    exact Nat.le_refl _

namespace CommandLine

variable {style : Style} {steps s₁ s₂ : List StepRequest} {p p' : Proof} {goal d : Diagram}
  {e : RuleError} {locale input text : String} {allGoals : Bool}

/-! ## Steps one after another -/

/-- What the steps make of a goal, each from what the one before it made. -/
def derive (style : Style) (steps : List StepRequest) (goal : Diagram) : Except RuleError Diagram :=
  steps.foldlM (fun goal step => Registry.builtin.apply goal step.rule (.subDiagram step.index) style) goal

theorem derive_append (style : Style) (s₁ s₂ : List StepRequest) (goal : Diagram) :
    derive style (s₁ ++ s₂) goal = derive style s₁ goal >>= derive style s₂ :=
  List.foldlM_append

theorem nesting_le_of_derive (h : derive style steps d = .ok goal) :
    goal.toJson.nesting ≤ d.toJson.nesting := by
  induction steps generalizing d with
  | nil =>
    cases h
    exact Nat.le_refl _
  | cons step steps ih =>
    rw [derive, List.foldlM_cons] at h
    obtain ⟨next, hnext, hlater⟩ := bind_eq_ok_iff.mp h
    exact Nat.le_trans (ih hlater) (Registry.nesting_le_of_builtin_apply hnext)

/-- A successful run of steps keeps what every applied rule keeps. -/
theorem applySteps_induct {P : Proof → Prop} (h : applySteps style steps p = .ok p') (start : P p)
    (applyRule : ∀ p p' application, P p → p.applyRule .builtin application = .ok p' → P p') : P p' := by
  induction steps generalizing p with
  | nil =>
    cases h
    exact start
  | cons step steps ih =>
    rw [applySteps] at h
    split at h
    · rename_i next hnext
      exact ih h (applyRule _ _ _ start hnext)
    · cases h

/-- The steps of a proof end at what they make of its latest goal, or fail where they make nothing of it. -/
theorem applySteps_cases (style : Style) (steps : List StepRequest) (p : Proof) :
    (∃ p', applySteps style steps p = .ok p' ∧ derive style steps p.currentGoal = .ok p'.currentGoal) ∨
      ∃ position e, applySteps style steps p = .error (.failedStep position e) ∧
        derive style steps p.currentGoal = .error e := by
  induction steps generalizing p with
  | nil => exact .inl ⟨p, rfl, rfl⟩
  | cons step steps ih =>
    rw [applySteps, derive, List.foldlM_cons, Proof.applyRule]
    cases Registry.builtin.apply p.currentGoal step.rule (.subDiagram step.index) style with
    | error e => exact .inr ⟨p.length, e, rfl, rfl⟩
    | ok out =>
      have hlater := ih { p with steps := p.steps ++ [⟨⟨step.rule, .subDiagram step.index, style⟩, out⟩] }
      rw [p.currentGoal_concat] at hlater
      exact hlater

/-! ## Outcomes -/

theorem run_apply_of_read (h : Diagram.ofJsonText text = .ok d) :
    (Request.apply input steps style allGoals).run locale (.ok text) =
      (do
        let p ← applySteps style steps (.ofGoal d)
        return (if allGoals then p.goals else [p.currentGoal]).map Diagram.jsonText) := by
  show ((Diagram.ofJsonText text).mapError _ >>= _) = _
  rw [h]
  rfl

/-- A run prints the goal that the steps lead to, or fails with the step that leads nowhere. -/
theorem run_apply_cases (locale input : String) (style : Style) (steps : List StepRequest)
    (h : Diagram.ofJsonText text = .ok d) :
    (∃ goal, derive style steps d = .ok goal ∧
        (Request.apply input steps style false).run locale (.ok text) = .ok [goal.jsonText]) ∨
      ∃ position e, derive style steps d = .error e ∧
        (Request.apply input steps style false).run locale (.ok text) =
          .error (.failedStep position e) := by
  rw [run_apply_of_read h]
  rcases applySteps_cases style steps (.ofGoal d) with ⟨p, hp, hd⟩ | ⟨position, e, hp, hd⟩
  · rw [hp]
    exact .inl ⟨p.currentGoal, hd, rfl⟩
  · rw [hp]
    exact .inr ⟨position, e, hd, rfl⟩

theorem exitCode_apply (h : Diagram.ofJsonText text = .ok d) :
    exitCode ((Request.apply input steps style false).run locale (.ok text)) =
      match derive style steps d with
      | .ok _ => 0
      | .error _ => 1 := by
  rcases run_apply_cases locale input style steps h with ⟨goal, hd, hrun⟩ | ⟨position, e, hd, hrun⟩
  · rw [hd, hrun, exitCode]
  · rw [hd, hrun, exitCode, Failure.exitCode]

theorem output_apply (h : Diagram.ofJsonText text = .ok d) :
    output ((Request.apply input steps style false).run locale (.ok text)) =
      match derive style steps d with
      | .ok goal => goal.jsonText ++ "\n"
      | .error _ => "" := by
  rcases run_apply_cases locale input style steps h with ⟨goal, hd, hrun⟩ | ⟨position, e, hd, hrun⟩
  · rw [hd, hrun]
    simp [output, unlines]
  · rw [hd, hrun, output]

/-- The introduction of an equivalence prints the diagram that was read. -/
theorem run_equivalenceIntroduction (h : Diagram.ofJsonText text = .ok d) :
    (Request.apply input [⟨"equivalence_introduction", 0⟩] style false).run locale (.ok text) =
      .ok [d.jsonText] := by
  have happly : Registry.builtin.apply d "equivalence_introduction" (.subDiagram 0) style = .ok d := by
    show Rule.equivalenceIntroduction.apply d (.subDiagram 0) style = .ok d
    exact Rule.equivalenceIntroduction_eq_ok_iff.mpr ⟨0, rfl, d.count_pos, rfl⟩
  have hderive : derive style [⟨"equivalence_introduction", 0⟩] d = .ok d := by
    rw [derive, List.foldlM_cons, happly]
    rfl
  rcases run_apply_cases locale input style _ h with ⟨goal, hd, hrun⟩ | ⟨position, e, hd, hrun⟩
  · rw [hderive] at hd
    cases hd
    exact hrun
  · rw [hderive] at hd
    cases hd

/-- Applying steps to what was printed for the steps before them is applying all the steps, and steps that
fail also fail with others behind them. -/
theorem apply_composes (locale : String) (style : Style) (input next : String) (d : Diagram)
    (hread : ∃ e, Diagram.ofJsonText d.jsonText = .ok e) (s₁ s₂ : List StepRequest) :
    let applied (input text : String) (steps : List StepRequest) :=
      (Request.apply input steps style false).run locale (.ok text)
    (exitCode (applied input d.jsonText s₁) = 0 →
        ∀ T, output (applied input d.jsonText s₁) = T ∨ output (applied input d.jsonText s₁) = T ++ "\n" →
          (∃ e, Diagram.ofJsonText T = .ok e) ∧
            exitCode (applied next T s₂) = exitCode (applied input d.jsonText (s₁ ++ s₂)) ∧
            output (applied next T s₂) = output (applied input d.jsonText (s₁ ++ s₂))) ∧
      (exitCode (applied input d.jsonText s₁) = 1 →
        exitCode (applied input d.jsonText (s₁ ++ s₂)) = 1) := by
  intro applied
  obtain ⟨e, he⟩ := hread
  have hdeep : d.toJson.nesting ≤ Interchange.nestingLimit := by
    rw [Diagram.ofJsonText_of_line (.inl rfl)] at he
    split at he
    · assumption
    · cases he
  have hd : Diagram.ofJsonText d.jsonText = .ok d := by
    rw [Diagram.ofJsonText_of_line (.inl rfl), if_pos hdeep]
  rw [exitCode_apply hd, exitCode_apply hd, output_apply hd, output_apply hd, derive_append]
  cases hfirst : derive style s₁ d with
  | error e =>
    refine ⟨fun hcode => ?_, fun _ => rfl⟩
    cases hcode
  | ok middle =>
    refine ⟨fun _ T hT => ?_, fun hcode => ?_⟩
    · have hline : T = middle.jsonText ∨ T = middle.jsonText ++ "\n" := by
        rcases hT with hT | hT
        · exact .inr hT.symm
        · exact .inl ((String.append_left_inj "\n").mp hT).symm
      have hmiddle : Diagram.ofJsonText T = .ok middle := by
        rw [Diagram.ofJsonText_of_line hline, if_pos (Nat.le_trans (nesting_le_of_derive hfirst) hdeep)]
      rw [exitCode_apply hmiddle, output_apply hmiddle]
      exact ⟨⟨middle, hmiddle⟩, rfl, rfl⟩
    · cases hcode

/-- Two eliminations in two runs or in one, and one that fails before another. -/
theorem apply_composes_eliminations :
    let d := Diagram.negation (.negation (.negation (.negation .null)))
    let eliminate (i : Nat) : StepRequest := ⟨"double_negation_elimination", i⟩
    let applied (text : String) (steps : List StepRequest) :=
      (Request.apply "-" steps .backward false).run "en" (.ok text)
    output (applied d.jsonText [eliminate 1]) = (Diagram.negation (.negation .null)).jsonText ++ "\n" ∧
      output (applied (Diagram.negation (.negation .null)).jsonText [eliminate 0]) =
        output (applied d.jsonText [eliminate 1, eliminate 0]) ∧
      exitCode (applied d.jsonText [eliminate 3, eliminate 0]) = 1 := by
  intro d eliminate applied
  have hread : Diagram.ofJsonText d.jsonText = .ok d := by
    rw [Diagram.ofJsonText_of_line (.inl rfl)]
    exact if_pos (by decide)
  have hfirst : derive .backward [eliminate 1] d = .ok (.negation (.negation .null)) := by
    rw [← toOption_eq_some_iff]
    decide +kernel
  have houtput : output (applied d.jsonText [eliminate 1]) =
      (Diagram.negation (.negation .null)).jsonText ++ "\n" := by
    rw [output_apply hread, hfirst]
  obtain ⟨hcompose, -⟩ :=
    apply_composes "en" .backward "-" "-" d ⟨d, hread⟩ [eliminate 1] [eliminate 0]
  obtain ⟨-, -, hsame⟩ := hcompose (by rw [exitCode_apply hread, hfirst]) _ (.inr houtput)
  obtain ⟨-, hfails⟩ := apply_composes "en" .backward "-" "-" d ⟨d, hread⟩ [eliminate 3] [eliminate 0]
  refine ⟨houtput, hsame, hfails ?_⟩
  rw [exitCode_apply hread]
  decide +kernel

/-! ## Goals that are printed -/

/-- No goal of a proof nests deeper than the one that its steps began with. -/
theorem nesting_le_of_applySteps (h : applySteps style steps (.ofGoal d) = .ok p) :
    ∀ goal ∈ p.goals, goal.toJson.nesting ≤ d.toJson.nesting := by
  refine applySteps_induct (P := fun p => ∀ goal ∈ p.goals, goal.toJson.nesting ≤ d.toJson.nesting) h
    ?_ ?_
  · intro goal hgoal
    cases List.mem_singleton.mp hgoal
    exact Nat.le_refl _
  · intro p p' application hp happly
    exact Proof.forall_goals_of_applyRule hp happly fun g out hg hout =>
      Nat.le_trans (Registry.nesting_le_of_builtin_apply hout) hg

/-- Every printed goal is read as that goal, unless the text that it was made from nests as deep as is
allowed and the printed one deeper. -/
theorem apply_prints_readable (locale input text : String) (steps : List StepRequest) (style : Style)
    (allGoals : Bool) (lines : List String)
    (h : (Request.apply input steps style allGoals).run locale (.ok text) = .ok lines) :
    ∃ d p, Diagram.ofJsonText text = .ok d ∧ applySteps style steps (.ofGoal d) = .ok p ∧
      let goals := if allGoals then p.goals else [p.currentGoal]
      lines = goals.map Diagram.jsonText ∧
        ∀ goal ∈ goals, ∀ line, line = goal.jsonText ∨ line = goal.jsonText ++ "\n" →
          goal.toJson.nesting ≤ 127 ∧ Diagram.ofJsonText line = .ok goal ∨
          goal.toJson.nesting = 128 ∧ (Json.Document.ofText text).root.nesting = 127 ∧
            Diagram.ofJsonText line = .error .invalid := by
  obtain ⟨d, hload, h⟩ := bind_eq_ok_iff.mp h
  obtain ⟨p, hp, hlines⟩ := bind_eq_ok_iff.mp h
  have hd : Diagram.ofJsonText text = .ok d := mapError_eq_ok_iff.mp hload
  refine ⟨d, p, hd, hp, (Except.ok.inj hlines).symm, ?_⟩
  intro goal hgoal line hline
  have hmem : goal ∈ p.goals := by
    cases allGoals with
    | true => exact hgoal
    | false =>
      cases List.mem_singleton.mp hgoal
      exact p.currentGoal_mem_goals
  have hgrown : goal.toJson.nesting ≤ d.toJson.nesting := nesting_le_of_applySteps hp goal hmem
  obtain ⟨hroot, hwritten⟩ := Diagram.nesting_of_ofJsonText hd
  have hlimit : Interchange.nestingLimit = 127 := rfl
  rw [Diagram.ofJsonText_of_line hline]
  by_cases hdeep : goal.toJson.nesting ≤ Interchange.nestingLimit
  · exact .inl ⟨hdeep, if_pos hdeep⟩
  · exact .inr ⟨by omega, by omega, if_neg hdeep⟩

/-- Two negations around a diagram with parts left out, and what is left without them. -/
theorem apply_prints_readable_blank :
    let text := (negationsJson 2).text
    let blank := Diagram.primary .blank
    (Request.apply "-" [⟨"double_negation_elimination", 0⟩] .forward true).run "en" (.ok text) =
        .ok [(Diagram.negation (.negation blank)).jsonText, blank.jsonText] ∧
      ∀ line ∈ [(Diagram.negation (.negation blank)).jsonText, blank.jsonText],
        ∃ goal, Diagram.ofJsonText line = .ok goal ∧ goal.jsonText = line := by
  intro text blank
  have hread : Diagram.ofJsonText text = .ok (.negation (.negation blank)) :=
    ofJsonText_negationsJson (by decide)
  have hsteps : applySteps .forward [⟨"double_negation_elimination", 0⟩] (.ofGoal (.negation (.negation blank))) =
      .ok ⟨.negation (.negation blank), [⟨⟨"double_negation_elimination", .subDiagram 0, .forward⟩, blank⟩]⟩ := by
    rw [← toOption_eq_some_iff]
    decide +kernel
  have hrun : (Request.apply "-" [⟨"double_negation_elimination", 0⟩] .forward true).run "en" (.ok text) =
      .ok [(Diagram.negation (.negation blank)).jsonText, blank.jsonText] := by
    rw [run_apply_of_read hread, hsteps]
    rfl
  refine ⟨hrun, fun line hline => ?_⟩
  obtain ⟨d, p, hd, hp, hlines, hgoals⟩ := apply_prints_readable _ _ _ _ _ _ _ hrun
  rw [hlines] at hline
  obtain ⟨goal, hgoal, rfl⟩ := List.mem_map.mp hline
  rcases hgoals goal hgoal _ (.inl rfl) with ⟨-, hback⟩ | ⟨-, hroot, -⟩
  · exact ⟨goal, hback, rfl⟩
  · rw [Json.Document.ofText_text (isPlain_negationsJson 2)] at hroot
    have hlow : (negationsJson 2).nesting ≠ 127 := by decide
    exact absurd hroot hlow

/-- A diagram that is read and printed, and not read again. -/
theorem apply_prints_unreadable :
    let text := (negationsJson 63).text
    let goal := Nat.repeat Diagram.negation 63 (.primary .blank)
    Diagram.ofJsonText text = .ok goal ∧
      (Request.apply "-" [⟨"equivalence_introduction", 0⟩] .forward false).run "en" (.ok text) =
        .ok [goal.jsonText] ∧
      ∀ line, line = goal.jsonText ∨ line = goal.jsonText ++ "\n" →
        Diagram.ofJsonText line = .error .invalid := by
  intro text goal
  have hread : Diagram.ofJsonText text = .ok goal := ofJsonText_negationsJson (by decide)
  refine ⟨hread, ?_, ?_⟩
  · exact run_equivalenceIntroduction hread
  · intro line hline
    rw [Diagram.ofJsonText_of_line hline, nesting_toJson_negations]
    rfl

end CommandLine

end SpiderDiagrams
