import Calculator.Proofs.Item.Waiting
import Calculator.Proofs.Line.Items
import Calculator.Proofs.Machine.Discipline
import Calculator.Proofs.Machine.Mentioned

namespace Calculator

namespace Line

/-- What a line does to the variables is done by a run on its items, or nothing. -/
theorem evaluate_environment_cases (functions : FunctionTable) (env : Environment)
    (line : String) :
    (evaluate functions env line).1 = env ∨ ∃ tokens source items, Token.scan line = .ok tokens ∧
      Token.items .standard tokens = .ok source ∧ Item.toPostfix source = .ok items ∧
      (evaluate functions env line).1 =
        ((Machine.start env).run functions items).1.environment := by
  unfold evaluate
  cases h : read line with
  | error e => exact .inl rfl
  | ok items =>
    rw [read_eq] at h
    obtain ⟨tokens, scanned, h⟩ := bind_eq_ok.mp h
    obtain ⟨source, resolved, ordered⟩ := bind_eq_ok.mp h
    refine .inr ⟨tokens, source, items, scanned, resolved, ordered, ?_⟩
    rw [← evaluate_environment]
    dsimp only
    cases Calculator.evaluate functions env items with
    | mk env' result => cases result <;> rfl

variable {functions : FunctionTable} {env : Environment} {line : String}

/-- A line binds names that it mentions, by operators that write. -/
theorem get?_evaluate (x : String) :
    (evaluate functions env line).1.get? x = env.get? x ∨ ∃ tokens items,
      Token.scan line = .ok tokens ∧ Token.items .standard tokens = .ok items ∧
      .name x ∈ items ∧ ∃ item ∈ items, item.writes = true := by
  rcases evaluate_environment_cases functions env line with
    kept | ⟨tokens, source, items, scanned, resolved, ordered, ran⟩
  · exact .inl (by rw [kept])
  · by_cases mentioned : .name x ∈ source
    · by_cases writes : ∃ item ∈ source, item.writes = true
      · exact .inr ⟨tokens, source, scanned, resolved, mentioned, writes⟩
      · left
        have reads : ∀ item ∈ items, item.writes = false := by
          intro item hi
          apply Bool.eq_false_iff.mpr
          intro hw
          exact writes ⟨item, Item.mem_of_toPostfix ordered hi, hw⟩
        rw [ran, Machine.environment_run_of_reads functions reads]
        rfl
    · left
      have other : ¬ Item.name x ∈ items := fun hx => mentioned (Item.mem_of_toPostfix ordered hx)
      rw [ran]
      exact (Machine.within_start (fun y => .name y ∈ items) env).get?_run functions
        (fun _ hy => hy) other

/-- What is bound stays bound. -/
theorem contains_evaluate {x : String} (held : env.contains x = true) :
    (evaluate functions env line).1.contains x = true := by
  rcases evaluate_environment_cases functions env line with
    kept | ⟨tokens, source, items, -, -, -, ran⟩
  · rwa [kept]
  · rw [ran]
    refine Machine.run_induction functions (P := fun m => m.environment.contains x = true) held ?_
    intro m held item _
    rcases m.step_environment functions item with kept | ⟨-, -, y, n, -, bound⟩
    · rwa [kept]
    · rw [bound]
      exact Directory.contains_insertAll held [(y, n)]

end Line

end Calculator
