import Calculator.Proofs.Machine.Effect

namespace Calculator

namespace Machine

/-- No operand on the stack is a name but these. -/
def Within (names : String → Prop) (m : Machine) : Prop := ∀ x ∈ m.stack, x.Within names

/-- Two machines with the same stack, whose variables agree on its names. -/
structure Alike (names : String → Prop) (m m' : Machine) : Prop where
  stack : m.stack = m'.stack
  within : m.Within names
  agree : ∀ y, names y → m.environment.get? y = m'.environment.get? y

theorem within_start (names : String → Prop) (env : Environment) : (start env).Within names := by
  simp [Within, start]

section Steps

variable {names : String → Prop} {m m' : Machine} (functions : FunctionTable)

theorem Within.step (h : m.Within names) {item : Item} (own : ∀ y, item = .name y → names y) :
    (m.step functions item).1.Within names := by
  rintro x hx y rfl
  rcases m.name_mem_step functions item hx with held | same
  · exact h _ held y rfl
  · exact own y same

/-- A step binds none but these names. -/
theorem Within.get?_step (h : m.Within names) (item : Item) {y : String} (hy : ¬ names y) :
    (m.step functions item).1.environment.get? y = m.environment.get? y := by
  rcases m.step_environment functions item with same | ⟨-, -, name, n, held, bound⟩
  · rw [same]
  · have other : y ≠ name := by
      rintro rfl
      exact hy (h _ held y rfl)
    rw [bound, Directory.get?_insert, if_neg other]

/-- Bound alike, names that agreed agree again. -/
theorem agree_insert {env env' : Environment} (agree : ∀ y, names y → env.get? y = env'.get? y)
    (x : String) (n : Number) (y : String) (hy : names y) :
    (env.insert x n).get? y = (env'.insert x n).get? y := by
  rw [Directory.get?_insert, Directory.get?_insert, agree y hy]

/-- A step from machines that are alike fails on both in the same way or on neither, and leaves them
alike. -/
theorem Alike.step (h : m.Alike names m') {item : Item} (own : ∀ y, item = .name y → names y) :
    (m.step functions item).2 = (m'.step functions item).2 ∧
      (m.step functions item).1.Alike names (m'.step functions item).1 := by
  have within := h.within.step functions own
  obtain ⟨stack, env⟩ := m
  obtain ⟨stack', env'⟩ := m'
  obtain rfl : stack = stack' := h.stack
  have around : ∀ x ∈ (stack.take item.taken).reverse, x.Within names := fun x hx =>
    h.within x (mem_operands ⟨stack, env⟩ item hx)
  have effect := Item.alike_effect h.agree functions own around
  -- The stack is the same, so that both lack operands or neither does.
  simp only [step_eq_consume, consume] at within ⊢
  split
  · exact ⟨rfl, rfl, by simp [Within], h.agree⟩
  · next enough =>
    rw [if_neg enough] at within
    generalize item.effect functions env _ = left at effect within
    generalize item.effect functions env' _ = right at effect
    cases effect with
    | failure e => exact ⟨rfl, rfl, within, h.agree⟩
    | kept x => exact ⟨rfl, rfl, within, h.agree⟩
    | written x n => exact ⟨rfl, rfl, within, agree_insert h.agree x n⟩

/-- What holds of a machine and is kept by every step on an item holds of it behind a run. -/
theorem run_induction {items : List Item} {P : Machine → Prop} (start : P m)
    (step : ∀ m, P m → ∀ item ∈ items, P (m.step functions item).1) :
    P (m.run functions items).1 := by
  induction items generalizing m with
  | nil => exact start
  | cons item items ih =>
    have stepped := step m start item List.mem_cons_self
    simp only [run]
    generalize m.step functions item = result at stepped
    obtain ⟨m₁, failure⟩ := result
    cases failure with
    | some e => exact stepped
    | none => exact ih stepped fun m h item hi => step m h item (List.mem_cons_of_mem _ hi)

/-- Runs from machines that are alike fail in the same way or not at all, and leave them alike. -/
theorem Alike.run (h : m.Alike names m') {items : List Item}
    (own : ∀ y, .name y ∈ items → names y) :
    (m.run functions items).2 = (m'.run functions items).2 ∧
      (m.run functions items).1.Alike names (m'.run functions items).1 := by
  induction items generalizing m m' with
  | nil => exact ⟨rfl, h⟩
  | cons item items ih =>
    obtain ⟨failing, alike⟩ := h.step functions fun y hy => own y (hy ▸ List.mem_cons_self)
    simp only [Machine.run]
    generalize m.step functions item = left at failing alike
    generalize m'.step functions item = right at failing alike
    obtain ⟨m₁, failure⟩ := left
    obtain ⟨m₁', failure'⟩ := right
    obtain rfl : failure = failure' := failing
    cases failure with
    | some e => exact ⟨rfl, alike⟩
    | none => exact ih alike fun y hy => own y (List.mem_cons_of_mem item hy)

/-- Off the names of a run and of the stack that it starts from, no variable changes. -/
theorem Within.get?_run (h : m.Within names) {items : List Item}
    (own : ∀ y, .name y ∈ items → names y) {y : String} (hy : ¬ names y) :
    (m.run functions items).1.environment.get? y = m.environment.get? y := by
  refine (run_induction functions (P := fun m' => m'.Within names ∧
    m'.environment.get? y = m.environment.get? y) ⟨h, rfl⟩ ?_).2
  rintro m' ⟨within, same⟩ item hi
  exact ⟨within.step functions fun y hy => own y (hy ▸ hi),
    (within.get?_step functions item hy).trans same⟩

/-- Without an operator that writes, a run leaves all variables. -/
theorem environment_run_of_reads {items : List Item} (reads : ∀ item ∈ items, item.writes = false) :
    (m.run functions items).1.environment = m.environment := by
  refine run_induction functions (P := fun m' => m'.environment = m.environment) rfl ?_
  intro m' same item hi
  rcases m'.step_environment functions item with kept | ⟨-, writes, -⟩
  · exact kept.trans same
  · simp [reads item hi] at writes

theorem Alike.result (h : m.Alike names m') : m.result = m'.result := by
  obtain ⟨stack, env⟩ := m
  obtain ⟨stack', env'⟩ := m'
  obtain rfl : stack = stack' := h.stack
  match stack with
  | [] => rfl
  | [.number n] => rfl
  | [.name x] =>
    have value := Operand.value_congr h.agree (h.within (.name x) List.mem_cons_self)
    exact congrArg (Except.map (Evaluation.variable x)) value
  | x :: _ :: _ => cases x <;> rfl

end Steps

end Machine

section Evaluating

variable (functions : FunctionTable) (env : Environment) (items : List Item)

theorem evaluate_environment :
    (evaluate functions env items).1 = ((Machine.start env).run functions items).1.environment := by
  unfold evaluate
  split <;> simp [*]

theorem evaluate_outcome :
    (evaluate functions env items).2 =
      match ((Machine.start env).run functions items).2 with
      | none => ((Machine.start env).run functions items).1.result
      | some e => .error e := by
  unfold evaluate
  split <;> simp [*]

/-- Evaluation depends on the names that the items mention, and writes to no others: from variables
that agree on these names it has the same outcome, and leaves variables that agree on them again and
are as before on all others. Items without an operator that writes leave all variables, and so come
to the same once more. -/
theorem evaluate_mentioned (env' : Environment)
    (agree : ∀ x, .name x ∈ items → env.get? x = env'.get? x) :
    (evaluate functions env items).2 = (evaluate functions env' items).2 ∧
    (∀ x, .name x ∈ items →
      (evaluate functions env items).1.get? x = (evaluate functions env' items).1.get? x) ∧
    (∀ x, .name x ∉ items → (evaluate functions env items).1.get? x = env.get? x ∧
      (evaluate functions env' items).1.get? x = env'.get? x) ∧
    ((∀ item ∈ items, item.writes = false) →
      (∀ x, (evaluate functions env items).1.get? x = env.get? x) ∧
      evaluate functions (evaluate functions env items).1 items =
        evaluate functions env items) := by
  have within (env : Environment) := Machine.within_start (fun x => .name x ∈ items) env
  have start : (Machine.start env).Alike (fun x => .name x ∈ items) (.start env') :=
    ⟨rfl, within env, agree⟩
  obtain ⟨failing, alike⟩ := start.run functions fun _ => id
  refine ⟨?_, ?_, fun x hx => ⟨?_, ?_⟩, fun reads => ?_⟩
  · rw [evaluate_outcome, evaluate_outcome, failing, alike.result]
  · rw [evaluate_environment, evaluate_environment]
    exact alike.agree
  · rw [evaluate_environment]
    exact (within env).get?_run functions (fun _ => id) hx
  · rw [evaluate_environment]
    exact (within env').get?_run functions (fun _ => id) hx
  · have kept : (evaluate functions env items).1 = env := by
      rw [evaluate_environment]
      exact Machine.environment_run_of_reads functions reads
    rw [kept]
    exact ⟨fun _ => rfl, rfl⟩

end Evaluating

/-- `x = y + 1` binds `x`, and leaves `z` bound or unbound as it was; `y + 1` binds nothing. -/
theorem evaluate_mentioned_assignment :
    let env : Environment := Directory.empty.insert "y" (.integer 2)
    let env' := env.insert "z" (.integer 5)
    let sum : List Item :=
      [.name "y", .literal (.integer 1), .operator (.between "+" 20 (.binary .add))]
    let items := .name "x" :: sum ++ [.operator (.between "=" 10 (.assign none))]
    (∀ x, Item.name x ∈ items → env.get? x = env'.get? x) ∧
      (∀ item ∈ sum, item.writes = false) ∧
      (evaluate .standard env items).2 = (evaluate .standard env' items).2 ∧
      (evaluate .standard env items).1.get? "x" = (evaluate .standard env' items).1.get? "x" ∧
      (evaluate .standard env items).1.get? "z" = none ∧
      (evaluate .standard env' items).1.get? "z" = some (.integer 5) ∧
      evaluate .standard (evaluate .standard env sum).1 sum = evaluate .standard env sum := by
  intro env env' sum items
  have mentioned : ∀ x, Item.name x ∈ items → env.get? x = env'.get? x := by
    intro x hx
    have other : x ≠ "z" := by
      rintro rfl
      simp [items, sum] at hx
    rw [Directory.get?_insert env, if_neg other]
  have reads : ∀ item ∈ sum, item.writes = false := by decide
  obtain ⟨outcome, after, others, -⟩ := evaluate_mentioned .standard env items env' mentioned
  obtain ⟨-, -, -, pure⟩ := evaluate_mentioned .standard env sum env fun _ _ => rfl
  obtain ⟨unbound, bound⟩ := others "z" (by decide)
  exact ⟨mentioned, reads, outcome, after "x" (by decide), unbound.trans rfl, bound.trans rfl,
    (pure reads).2⟩

end Calculator
