import Calculator.Proofs.Except
import Calculator.Proofs.Expression.Evaluation

namespace Calculator

open Evaluating

namespace Evaluating

/-- An effect as a computation. -/
def ofEffect (effect : Environment → Effect) : Evaluating Operand := fun env =>
  match effect env with
  | .ok (x, env') => (.ok x, env')
  | .error e => (.error e, env)

theorem run_ofEffect (effect : Environment → Effect) (env : Environment) :
    run (ofEffect effect) env =
      match effect env with
      | .ok (x, env') => (.ok x, env')
      | .error e => (.error e, env) := rfl

/-- What only reads goes on with the same variables. -/
theorem run_bind_reads {α β : Type} {x : Evaluating α} {f : α → Evaluating β} {env : Environment}
    {r : Except RunError α} : run x env = (r, env) →
    run (x >>= f) env =
      match r with
      | .ok a => run (f a) env
      | .error e => (.error e, env) := by
  intro h
  rw [run_bind, h]
  cases r <;> rfl

theorem run_resolve (x : Operand) (env : Environment) :
    run (resolve x) env = (x.value env, env) := by
  cases x with
  | number n => rfl
  | name x => simp [resolve, run_bind, Operand.value]

theorem run_target (symbol : String) (x : Operand) (env : Environment) :
    run (target symbol x) env = (x.target symbol, env) := by
  cases x <;> rfl

theorem run_mapM_resolve (xs : List Operand) (env : Environment) :
    run (xs.mapM resolve) env = (xs.mapM (·.value env), env) := by
  induction xs with
  | nil => rfl
  | cons x xs ih =>
    rw [List.mapM_cons, List.mapM_cons, run_bind_reads (run_resolve x env)]
    cases x.value env with
    | error e => rfl
    | ok n =>
      simp only [run_bind_reads ih]
      cases xs.mapM (·.value env) <;> rfl

theorem run_combine (d : Operator) (b : Binary) (x : String) (n : Number) (env : Environment) :
    run (combine d b x n) env = run (ofEffect fun env => d.update env b x n) env := by
  rw [combine, run_bind_reads (run_resolve (.name x) env), run_ofEffect, Operator.update]
  simp only [Operand.value]
  cases env.value x with
  | error e => rfl
  | ok old =>
    simp only [ok_bind, run_bind_reads (run_lift env (b.apply d.symbol old n))]
    cases b.apply d.symbol old n <;> rfl

theorem unary_eq (d : Operator) (x : Operand) :
    unary d x = ofEffect fun env => d.applyOne env x := by
  apply ext
  intro env
  have number :
      run (do return Operand.number (← d.operation.applyUnary d.symbol (← resolve x))) env =
      run (ofEffect fun env => do
        return (.number (← d.operation.applyUnary d.symbol (← x.value env)), env)) env := by
    rw [run_bind_reads (run_resolve x env), run_ofEffect]
    cases x.value env with
    | error e => rfl
    | ok n =>
      simp only [ok_bind, run_bind_reads (run_lift env (d.operation.applyUnary d.symbol n))]
      cases d.operation.applyUnary d.symbol n <;> rfl
  have bumped (b : Binary) : run (do combine d b (← target d.symbol x) (.integer 1)) env =
      run (ofEffect fun env => do d.update env b (← x.target d.symbol) (.integer 1)) env := by
    rw [run_bind_reads (run_target d.symbol x env)]
    cases x.target d.symbol with
    | error e => rfl
    | ok name => exact run_combine d b name (.integer 1) env
  cases operation : d.operation with
  | increment => simpa only [unary, Operator.applyOne, operation] using bumped .add
  | decrement => simpa only [unary, Operator.applyOne, operation] using bumped .subtract
  | _ => simpa only [unary, Operator.applyOne, operation] using number

theorem binary_eq (d : Operator) (l r : Operand) :
    binary d l r = ofEffect fun env => d.applyTwo env l r := by
  apply ext
  intro env
  have number : run (do
        let a ← resolve l
        let b ← resolve r
        return Operand.number (← d.operation.applyBinary d.symbol a b)) env =
      run (ofEffect fun env => do
        let a ← l.value env
        let b ← r.value env
        return (.number (← d.operation.applyBinary d.symbol a b), env)) env := by
    rw [run_bind_reads (run_resolve l env), run_ofEffect]
    cases l.value env with
    | error e => rfl
    | ok a =>
      simp only [ok_bind, run_bind_reads (run_resolve r env)]
      cases r.value env with
      | error e => rfl
      | ok b =>
        simp only [ok_bind, run_bind_reads (run_lift env (d.operation.applyBinary d.symbol a b))]
        cases d.operation.applyBinary d.symbol a b <;> rfl
  cases operation : d.operation with
  | assign combining =>
    simp only [binary, Operator.applyTwo, operation, run_ofEffect]
    rw [run_bind_reads (run_target d.symbol l env)]
    cases l.target d.symbol with
    | error e => rfl
    | ok x =>
      simp only [ok_bind, run_bind_reads (run_resolve r env)]
      cases r.value env with
      | error e => rfl
      | ok n =>
        cases combining with
        | none => rfl
        | some b => exact run_combine d b x n env
  | _ => simpa only [binary, Operator.applyTwo, operation] using number

theorem call_eq (functions : FunctionTable) (callee : Operand) (args : List Operand) :
    call functions callee args = ofEffect fun env => functions.call env callee args := by
  apply ext
  intro env
  cases callee with
  | number n => rfl
  | name f =>
    simp only [call, FunctionTable.call, run_ofEffect]
    cases functions.get? f with
    | none => rfl
    | some function =>
      simp only [checkArity]
      by_cases fits : args.length = function.arity
      · simp only [if_pos fits, ok_bind, run_bind_reads (run_mapM_resolve args env)]
        cases args.mapM (·.value env) with
        | error e => rfl
        | ok values =>
          simp only [ok_bind, run_bind_reads (run_lift env (function.run values))]
          cases function.run values <;> rfl
      · simp only [if_neg fits]
        rfl

end Evaluating

namespace Machine

variable (functions : FunctionTable)

/-- A run of the machine from a stack, as a computation of the stack that it leaves. -/
def running (items : List Item) (stack : List Operand) : Evaluating (List Operand) := fun env =>
  match (⟨stack, env⟩ : Machine).run functions items with
  | (m, none) => (.ok m.stack, m.environment)
  | (m, some e) => (.error e, m.environment)

theorem running_nil (stack : List Operand) : running functions [] stack = pure stack := rfl

/-- An item that consumes operands replaces them by what its effect yields. -/
theorem running_consume {item : Item} {consumer : String} {count : Nat}
    {effect : Environment → List Operand → Effect}
    (consumes : ∀ m : Machine, m.step functions item = m.consume consumer count effect)
    (items : List Item) (operands below : List Operand) (enough : operands.length = count) :
    running functions (item :: items) (operands.reverse ++ below) =
      (ofEffect fun env => effect env operands) >>= fun x =>
        running functions items (x :: below) := by
  apply ext
  intro env
  have top : (operands.reverse ++ below).take count = operands.reverse := by
    rw [List.take_append_of_le_length (by simp [enough]), List.take_of_length_le (by simp [enough])]
  have rest : (operands.reverse ++ below).drop count = below := by
    rw [List.drop_append_of_le_length (by simp [enough]), List.drop_of_length_le (by simp [enough])]
    rfl
  rw [run_bind, run_ofEffect]
  simp only [Evaluating.run, running, Machine.run, consumes, consume, top, rest]
  rw [if_neg (by simp [enough]), List.reverse_reverse]
  cases effect env operands <;> rfl

variable (items : List Item) (below : List Operand)

theorem running_unary {d : Operator} (h : d.taken = 1) (x : Operand) :
    running functions (.operator d :: items) (x :: below) =
      unary d x >>= fun z => running functions items (z :: below) := by
  rw [unary_eq]
  have consumes (m : Machine) :
      m.step functions (.operator d) = m.consume d.symbol d.taken d.apply := rfl
  exact running_consume functions consumes items [x] below h.symm

theorem running_binary {d : Operator} (h : d.taken = 2) (l r : Operand) :
    running functions (.operator d :: items) (r :: l :: below) =
      binary d l r >>= fun z => running functions items (z :: below) := by
  rw [binary_eq]
  have consumes (m : Machine) :
      m.step functions (.operator d) = m.consume d.symbol d.taken d.apply := rfl
  exact running_consume functions consumes items [l, r] below h.symm

theorem running_call {arity : Nat} {args : List Operand} (h : args.length = arity)
    (callee : Operand) :
    running functions (.call arity :: items) (args.reverse ++ callee :: below) =
      Evaluating.call functions callee args >>= fun z => running functions items (z :: below) := by
  have consumes (m : Machine) : m.step functions (.call arity) =
      m.consume (Item.call arity).text (arity + 1) (called functions (Item.call arity).text) := rfl
  have consumed := running_consume functions consumes items (callee :: args) below
    (congrArg (· + 1) h)
  rw [List.reverse_cons, List.append_assoc, List.singleton_append] at consumed
  rw [call_eq, consumed]
  rfl

end Machine

namespace OperatorTable.Placed

theorem taken_before (d : standard.Placed .before) : d.val.taken = 1 := by
  have h : ∀ d ∈ standard.definitions, d.position = .before → d.taken = 1 := by decide
  exact h d d.2.1 d.2.2

theorem taken_after (d : standard.Placed .after) : d.val.taken = 1 := by
  have h : ∀ d ∈ standard.definitions, d.position = .after → d.taken = 1 := by decide
  exact h d d.2.1 d.2.2

theorem taken_between (d : standard.Placed .between) : d.val.taken = 2 := by
  have h : ∀ d ∈ standard.definitions, d.position = .between → d.taken = 2 := by decide
  exact h d d.2.1 d.2.2

end OperatorTable.Placed

namespace Expression

theorem length_of_evalAll {table : OperatorTable} {functions : FunctionTable}
    {es : List (Expression table)} {xs : List Operand} {env env' : Environment}
    (h : run (evalAll functions es) env = (.ok xs, env')) : xs.length = es.length := by
  induction es generalizing xs env with
  | nil =>
    rw [evalAll, run_pure] at h
    cases h
    rfl
  | cons e es ih =>
    rw [evalAll, run_bind] at h
    split at h
    next x env₁ _ =>
      rw [run_bind] at h
      split at h
      next ys env₂ later =>
        rw [run_pure] at h
        cases h
        rw [List.length_cons, List.length_cons, ih later]
      next => cases h
    next => cases h

/-- There are as many operands as arguments. -/
theorem bind_evalAll {table : OperatorTable} {functions : FunctionTable} {β : Type}
    {es : List (Expression table)} {f g : List Operand → Evaluating β}
    (h : ∀ xs, xs.length = es.length → f xs = g xs) :
    evalAll functions es >>= f = evalAll functions es >>= g := by
  apply Evaluating.ext
  intro env
  rw [run_bind, run_bind]
  split
  next xs env' found => rw [h xs (length_of_evalAll found)]
  next => rfl

end Expression

open Machine Expression

mutual

/-- On the items of a tree the machine pushes what the tree comes to, and goes on. -/
theorem running_tree (functions : FunctionTable) (items : List Item) (stack : List Operand) :
    (e : Expression .standard) →
      running functions (e.postorder ++ items) stack =
        e.eval functions >>= fun x => running functions items (x :: stack)
  | .literal n => rfl
  | .name x => rfl
  | .group inner => running_tree functions items stack inner
  | .before d operand => by
    have inside := running_tree functions (.operator d :: items) stack operand
    simp only [running_unary functions items stack d.taken_before] at inside
    rw [postorder, List.append_assoc, List.singleton_append, inside, eval, bind_assoc]
  | .after d operand => by
    have inside := running_tree functions (.operator d :: items) stack operand
    simp only [running_unary functions items stack d.taken_after] at inside
    rw [postorder, List.append_assoc, List.singleton_append, inside, eval, bind_assoc]
  | .between d left right => by
    have second (l : Operand) :=
      running_tree functions (.operator d :: items) (l :: stack) right
    simp only [running_binary functions items stack d.taken_between] at second
    have first := running_tree functions (right.postorder ++ .operator d :: items) stack left
    simp only [second] at first
    rw [postorder, List.append_assoc, List.append_assoc, List.singleton_append, first, eval]
    simp only [bind_assoc]
  | .call callee args => by
    have listed (f : Operand) :=
      running_trees functions (.call args.length :: items) (f :: stack) args
    have first :=
      running_tree functions (postorderAll args ++ .call args.length :: items) stack callee
    -- The machine counts the operands that a call takes, so their number must be known here.
    have called (f : Operand) :
        (evalAll functions args >>= fun xs =>
          running functions (.call args.length :: items) (xs.reverse ++ f :: stack)) =
        evalAll functions args >>= fun xs =>
          Evaluating.call functions f xs >>= fun z => running functions items (z :: stack) :=
      bind_evalAll fun xs h => running_call functions items stack h f
    simp only [listed, called] at first
    rw [postorder, List.append_assoc, List.append_assoc, List.singleton_append, first, eval]
    simp only [bind_assoc]

theorem running_trees (functions : FunctionTable) (items : List Item) (stack : List Operand) :
    (es : List (Expression .standard)) →
      running functions (postorderAll es ++ items) stack =
        evalAll functions es >>= fun xs => running functions items (xs.reverse ++ stack)
  | [] => rfl
  | e :: es => by
    have first := running_tree functions (postorderAll es ++ items) stack e
    have later (x : Operand) := running_trees functions items (x :: stack) es
    simp only [later] at first
    rw [postorderAll, List.append_assoc, first, evalAll]
    simp only [bind_assoc, pure_bind, List.reverse_cons, List.append_assoc, List.singleton_append]

end

/-- What is left on the stack at the end of a line, as a computation of the result. -/
def Machine.finish (stack : List Operand) : Evaluating Evaluation := fun env =>
  ((⟨stack, env⟩ : Machine).result, env)

theorem finish_singleton (x : Operand) : finish [x] = Evaluating.result x := by
  apply Evaluating.ext
  intro env
  cases x with
  | number n => rfl
  | name x =>
    rw [Evaluating.result, run_bind_reads (run_resolve (.name x) env)]
    simp only [Evaluating.run, finish, Machine.result, Operand.value]
    cases env.value x <;> rfl

/-- A whole run, from the empty stack to the result. -/
theorem evaluate_eq (functions : FunctionTable) (env : Environment) (items : List Item) :
    Calculator.evaluate functions env items =
      (Evaluating.run (running functions items [] >>= finish) env).swap := by
  rw [run_bind]
  simp only [Evaluating.run, running, Calculator.evaluate, Machine.start]
  cases (⟨[], env⟩ : Machine).run functions items with
  | mk m failure => cases failure <;> rfl

theorem finish_tree (functions : FunctionTable) (e : Expression .standard) :
    running functions e.postorder [] >>= finish = e.evaluate functions := by
  have ran := running_tree functions [] [] e
  rw [List.append_nil] at ran
  rw [ran, bind_assoc]
  simp only [running_nil, pure_bind, finish_singleton]
  rfl

/-- The stack machine agrees with tree evaluation: on the postfix order of a tree it has the result
or the failure of the tree, and leaves the same variables. -/
theorem evaluate_postorder (functions : FunctionTable) (env : Environment)
    (e : Expression .standard) :
    Calculator.evaluate functions env e.postorder =
      (Evaluating.run (e.evaluate functions) env).swap := by
  rw [evaluate_eq, finish_tree]

/-- In `x + (x = 5)` the assignment comes first: the left `x` is only looked up for the sum. -/
example :
    let add : OperatorTable.standard.Placed .between := ⟨.between "+" 20 (.binary .add), by decide⟩
    let assign : OperatorTable.standard.Placed .between := ⟨.between "=" 10 (.assign none), by decide⟩
    let assignment : Expression .standard := .between assign (.name "x") (.literal (.integer 5))
    let sum : Expression .standard := .between add (.name "x") (.group assignment)
    Calculator.evaluate .standard (Directory.empty.insert "x" (.integer 1)) sum.postorder =
      (Directory.empty.insert "x" (.integer 5), .ok (.value (.integer 10))) := by
  rfl

end Calculator
