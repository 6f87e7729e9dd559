import Calculator.Proofs.Consistency.Reading
import Calculator.Proofs.Consistency.Running
import Calculator.Proofs.Machine

namespace Calculator

/-- Failures that no line should cause. -/
def LineError.Internal : LineError → Prop
  | .read cause => cause.Internal
  | .run cause => cause.Internal

/-- What the machine does on the postfix order of a line is the evaluation of a tree, or nothing
for a line without tokens. -/
theorem Line.evaluate_cases (functions : FunctionTable) (env : Environment) {line : String}
    {items : List Item} (h : read line = .ok items) :
    (Token.scan line = .ok [] ∧ Calculator.evaluate functions env items = (env, .ok .empty)) ∨
      Token.scan line ≠ .ok [] ∧ ∃ e : Expression .standard,
        Calculator.evaluate functions env items =
          (Evaluating.run (e.evaluate functions) env).swap := by
  rcases read_cases h with ⟨blank, rfl⟩ | ⟨tokens, scanned, present, e, rfl⟩
  · exact .inl ⟨blank, rfl⟩
  · refine .inr ⟨?_, e, ?_⟩
    · rw [scanned]
      exact fun same => present (Except.ok.inj same)
    · rw [evaluate_eq, finish_tree]

theorem Line.avoids_evaluate {functions : FunctionTable} (quiet : functions.Quiet)
    (env : Environment) (line : String) :
    Avoids LineError.Internal (evaluate functions env line).2 := by
  have reads := avoids_read line
  unfold evaluate
  cases h : read line with
  | error e =>
    rw [h] at reads
    have expected : ¬ e.Internal := avoids_error.mp reads
    exact avoids_error.mpr expected
  | ok items =>
    rcases evaluate_cases functions env h with ⟨-, ran⟩ | ⟨-, e, ran⟩
    · simp only [ran]
      exact avoids_ok _ _
    · have runs := e.quiet_evaluate quiet env
      simp only [ran]
      cases result : Evaluating.run (e.evaluate functions) env with
      | mk r env' =>
        rw [result] at runs
        cases r with
        | ok r => exact avoids_ok _ _
        | error cause =>
          have expected : ¬ cause.Internal := avoids_error.mp runs
          exact avoids_error.mpr expected

theorem Line.evaluate_empty_iff {functions : FunctionTable} {env : Environment} {line : String}
    {result : Evaluation} (h : (evaluate functions env line).2 = .ok result) :
    result = .empty ↔ Token.scan line = .ok [] := by
  unfold evaluate at h
  cases read : read line with
  | error e => simp [read] at h
  | ok items =>
    rcases evaluate_cases functions env read with ⟨blank, ran⟩ | ⟨filled, e, ran⟩
    · simp only [read, ran, Except.ok.injEq] at h
      simp [blank, ← h]
    · cases found : Evaluating.run (e.evaluate functions) env with
      | mk r env' =>
        cases r with
        | error cause => simp [read, ran, found] at h
        | ok r =>
          simp only [read, ran, found, Prod.swap_prod_mk, Except.ok.injEq] at h
          subst h
          simp [filled, e.evaluate_ne_empty found]

theorem Line.read_blank {line : String} (h : Token.scan line = .ok []) : read line = .ok [] := by
  have predicted : (Tree.node .line []).Predicted .standard [] := ⟨rfl, trivial⟩
  have grammatical : Tree.AllGrammatical .standard [] := trivial
  obtain ⟨built, accepted, nodes⟩ := Derivation.ofTokens_of_predicted rfl predicted
  have resolved := Derivation.items_eq nodes grammatical
  rw [Tree.tokens, Tree.tokensAll] at accepted
  rw [Tree.tokensAll] at resolved
  rw [read, h, ok_bind, accepted, ok_bind, resolved]
  rfl

/-- Internal failures cannot be reached from text, as long as no function of the table reports one
by itself, which those of the standard table never do; and only a line without tokens has an empty
result. -/
theorem line_consistent :
    FunctionTable.standard.Quiet ∧
      ∀ (functions : FunctionTable) (env : Environment) (line : String),
        (functions.Quiet →
          ∀ e, (Line.evaluate functions env line).2 = .error e → ¬ e.Internal) ∧
        ∀ result, (Line.evaluate functions env line).2 = .ok result →
          (result = .empty ↔ Token.scan line = .ok []) := by
  refine ⟨FunctionTable.quiet_standard, fun functions env line => ⟨?_, ?_⟩⟩
  · intro quiet
    exact Line.avoids_evaluate quiet env line
  · intro result h
    exact Line.evaluate_empty_iff h

/-- The line `ans!(2)`, where a call comes right behind an operator, does not fail internally; a
blank line succeeds with the empty result. -/
theorem line_consistent_standard :
    (∀ e, (Line.evaluate .standard .standard "ans!(2)").2 = .error e → ¬ e.Internal) ∧
      (Line.evaluate .standard .standard " ").2 = .ok .empty ∧ Token.scan " " = .ok [] := by
  obtain ⟨quiet, consistent⟩ := line_consistent
  have scanned : Token.scan " " = .ok [] := by
    simp [Token.scan, Token.scanFrom, Token.isBlank]
  have blank : (Line.evaluate .standard .standard " ").2 = .ok .empty := by
    rw [Line.evaluate, Line.read_blank scanned]
    rfl
  exact ⟨(consistent .standard .standard "ans!(2)").1 quiet, blank,
    ((consistent .standard .standard " ").2 .empty blank).mp rfl⟩

end Calculator
