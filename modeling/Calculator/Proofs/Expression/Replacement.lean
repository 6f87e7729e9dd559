import Calculator.Proofs.Machine
import Calculator.Proofs.Machine.Effect

namespace Calculator

namespace Item

/-- A number in the place of a name. -/
def replace (x : String) (v : Number) : Item → Item
  | .name y => if y = x then .literal v else .name y
  | item => item

@[simp] theorem writes_replace (x : String) (v : Number) (item : Item) :
    (item.replace x v).writes = item.writes := by
  cases item with
  | name y =>
    simp only [replace]
    split <;> rfl
  | _ => rfl

end Item

namespace Operand

def replace (x : String) (v : Number) : Operand → Operand
  | .name y => if y = x then .number v else .name y
  | .number n => .number n

/-- The result of a line that leaves this operand. -/
def evaluation (env : Environment) : Operand → Except RunError Evaluation
  | .number n => .ok (.value n)
  | .name x => (env.value x).map (.variable x)

theorem replace_of_ne {x : String} {y : Operand} (v : Number) (h : y ≠ .name x) :
    y.replace x v = y := by
  cases y with
  | number n => rfl
  | name y => exact if_neg fun same => h (congrArg Operand.name same)

section Values

variable {env : Environment} {x : String} {v : Number} (bound : env.get? x = some v)

include bound

/-- What is bound to a number has the value that the number has. -/
theorem value_replace (y : Operand) : (y.replace x v).value env = y.value env := by
  cases y with
  | number n => rfl
  | name y =>
    simp only [replace]
    split
    next same => simp only [same, value, Environment.value, bound]
    next => rfl

theorem mapM_value_replace (ys : List Operand) :
    (ys.map (·.replace x v)).mapM (·.value env) = ys.mapM (·.value env) := by
  simp only [List.mapM_map, Function.comp_def, value_replace bound]

end Values

end Operand

namespace Expression

variable {table : OperatorTable} (x : String) (v : Number)

mutual

/-- A number wherever a tree has a name. -/
def replace : Expression table → Expression table
  | literal n => literal n
  | name y => if y = x then literal v else name y
  | group inner => group inner.replace
  | before d operand => before d operand.replace
  | after d operand => after d operand.replace
  | between d left right => between d left.replace right.replace
  | call callee args => call callee.replace (replaceAll args)

def replaceAll : List (Expression table) → List (Expression table)
  | [] => []
  | e :: es => e.replace :: replaceAll es

end

theorem length_replaceAll (es : List (Expression table)) :
    (replaceAll x v es).length = es.length := by
  induction es with
  | nil => rfl
  | cons e es ih => rw [replaceAll, List.length_cons, List.length_cons, ih]

mutual

theorem postorder_replace :
    (e : Expression table) → (e.replace x v).postorder = e.postorder.map (Item.replace x v)
  | literal n => rfl
  | name y => by
    rw [replace, postorder, List.map_singleton, Item.replace]
    split <;> rfl
  | group inner => postorder_replace inner
  | before d operand => by
    rw [replace, postorder, postorder_replace operand, postorder, List.map_append]
    rfl
  | after d operand => by
    rw [replace, postorder, postorder_replace operand, postorder, List.map_append]
    rfl
  | between d left right => by
    rw [replace, postorder, postorder_replace left, postorder_replace right, postorder,
      List.map_append, List.map_append]
    rfl
  | call callee args => by
    rw [replace, postorder, postorder_replace callee, postorderAll_replace args,
      length_replaceAll, postorder, List.map_append, List.map_append]
    rfl

theorem postorderAll_replace : (es : List (Expression table)) →
    postorderAll (replaceAll x v es) = (postorderAll es).map (Item.replace x v)
  | [] => rfl
  | e :: es => by
    rw [replaceAll, postorderAll, postorder_replace e, postorderAll_replace es, postorderAll,
      List.map_append]

end

/-- The name that a tree is, but for parentheses around it. -/
def name? : Expression table → Option String
  | name y => some y
  | group inner => inner.name?
  | _ => none

mutual

/-- No call in the tree is of this name. -/
def CallsNot : Expression table → Prop
  | literal _ | name _ => True
  | group inner => inner.CallsNot
  | before _ operand => operand.CallsNot
  | after _ operand => operand.CallsNot
  | between _ left right => left.CallsNot ∧ right.CallsNot
  | call callee args => callee.name? ≠ some x ∧ callee.CallsNot ∧ AllCallNot args

def AllCallNot : List (Expression table) → Prop
  | [] => True
  | e :: es => e.CallsNot ∧ AllCallNot es

end

end Expression

namespace Evaluating

/-- What is left of a line, looked up. -/
theorem run_result (y : Operand) (env : Environment) :
    run (result y) env = (y.evaluation env, env) := by
  cases y with
  | number n => rfl
  | name y =>
    rw [result, run_bind_reads (run_resolve (.name y) env), Operand.evaluation, Operand.value]
    cases env.value y <;> rfl

section Numbers

variable {d : Operator} (reads : d.operation.writes = false)

include reads

/-- An operator that writes nothing computes from the values of its operands. -/
theorem run_unary_of_reads (y : Operand) (env : Environment) :
    run (unary d y) env =
      ((y.value env >>= d.operation.applyUnary d.symbol).map Operand.number, env) := by
  rw [unary_eq, run_ofEffect, Operator.applyOne]
  cases operation : d.operation with
  | increment => simp [operation, Operation.writes] at reads
  | decrement => simp [operation, Operation.writes] at reads
  | _ =>
    cases y.value env with
    | error e => rfl
    | ok n =>
      simp only [ok_bind]
      cases Operation.applyUnary d.symbol _ n <;> rfl

theorem run_binary_of_reads (l r : Operand) (env : Environment) :
    run (binary d l r) env = ((l.value env >>= fun a => r.value env >>= fun b =>
      d.operation.applyBinary d.symbol a b).map Operand.number, env) := by
  rw [binary_eq, run_ofEffect, Operator.applyTwo]
  cases operation : d.operation with
  | assign combining => simp [operation, Operation.writes] at reads
  | _ =>
    cases l.value env with
    | error e => rfl
    | ok a =>
      cases r.value env with
      | error e => rfl
      | ok b =>
        simp only [ok_bind]
        cases Operation.applyBinary d.symbol _ a b <;> rfl

end Numbers

/-- What a call comes to, from the values of its arguments. -/
def applied (functions : FunctionTable) (callee : Operand) (count : Nat)
    (values : Except RunError (List Number)) : Except RunError Number :=
  match callee with
  | .number n => .error (.notCallable n.text)
  | .name f =>
    match functions.get? f with
    | none => .error (.unknownFunction f)
    | some function => do
      checkArity f count function.arity
      function.run (← values)

theorem run_call (functions : FunctionTable) (callee : Operand) (args : List Operand)
    (env : Environment) :
    run (call functions callee args) env =
      ((applied functions callee args.length (args.mapM (·.value env))).map Operand.number,
        env) := by
  rw [call_eq, run_ofEffect]
  cases callee with
  | number n => rfl
  | name f =>
    simp only [FunctionTable.call, applied]
    cases functions.get? f with
    | none => rfl
    | some function =>
      dsimp only
      cases checkArity f args.length function.arity with
      | error e => rfl
      | ok _ =>
        cases args.mapM (·.value env) with
        | error e => rfl
        | ok values =>
          simp only [ok_bind]
          cases function.run values <;> rfl

/-- A computation that comes to no name. -/
def Nameless (c : Evaluating Operand) : Prop :=
  ∀ env y env', run c env ≠ (.ok (.name y), env')

theorem Nameless.bind {α : Type} (c : Evaluating α) {f : α → Evaluating Operand}
    (h : ∀ a, Nameless (f a)) : Nameless (c >>= f) := by
  intro env y env'
  rw [run_bind]
  split
  next a env₁ _ => exact h a env₁ y env'
  next => simp

theorem nameless_of_run {c : Evaluating Operand}
    (h : ∀ env, ∃ r : Except RunError Number, run c env = (r.map Operand.number, env)) :
    Nameless c := by
  intro env y env'
  obtain ⟨r, ran⟩ := h env
  rw [ran]
  cases r <;> simp [Except.map]

section Numbers

variable {d : Operator} (reads : d.operation.writes = false)

include reads

theorem nameless_unary (operand : Evaluating Operand) : Nameless (operand >>= unary d) :=
  Nameless.bind operand fun y => nameless_of_run fun env => ⟨_, run_unary_of_reads reads y env⟩

theorem nameless_binary (left right : Evaluating Operand) :
    Nameless (left >>= fun l => right >>= binary d l) :=
  Nameless.bind left fun l => Nameless.bind right fun r =>
    nameless_of_run fun env => ⟨_, run_binary_of_reads reads l r env⟩

end Numbers

theorem nameless_call (functions : FunctionTable) (callee : Evaluating Operand)
    (args : Evaluating (List Operand)) :
    Nameless (callee >>= fun f => args >>= call functions f) :=
  Nameless.bind callee fun f => Nameless.bind args fun xs =>
    nameless_of_run fun env => ⟨_, run_call functions f xs env⟩

/-- Two computations that leave the variables as they are and come to the same, but for a change of
what they come to. -/
def Changed {α β : Type} (change : α → β) (env : Environment) (c : Evaluating α)
    (c' : Evaluating β) : Prop :=
  ∃ r : Except RunError α, run c env = (r, env) ∧ run c' env = (r.map change, env)

namespace Changed

variable {α β γ δ : Type} {change : α → β} {env : Environment}

theorem pure (a : α) : Changed change env (pure a) (pure (change a)) := ⟨.ok a, rfl, rfl⟩

theorem bind {later : γ → δ} {c : Evaluating α} {c' : Evaluating β} {f : α → Evaluating γ}
    {f' : β → Evaluating δ} (first : Changed change env c c')
    (h : ∀ a, run c env = (.ok a, env) → Changed later env (f a) (f' (change a))) :
    Changed later env (c >>= f) (c' >>= f') := by
  obtain ⟨r, ran, ran'⟩ := first
  cases r with
  | error e => exact ⟨.error e, by rw [run_bind, ran], by rw [run_bind, ran']; rfl⟩
  | ok a =>
    obtain ⟨s, second, second'⟩ := h a ran
    refine ⟨s, ?_, ?_⟩
    · rw [run_bind, ran, ← second]
    · rw [run_bind, ran', ← second']
      rfl

end Changed

section Replacing

variable {env : Environment} {x : String} {v : Number} (bound : env.get? x = some v)

/-- Numbers stay as they are. -/
theorem map_replace_number (r : Except RunError Number) :
    (r.map Operand.number).map (Operand.replace x v) = r.map Operand.number := by
  cases r <;> rfl

include bound

theorem changed_unary {d : Operator} (reads : d.operation.writes = false) (y : Operand) :
    Changed (Operand.replace x v) env (unary d y) (unary d (y.replace x v)) := by
  refine ⟨_, run_unary_of_reads reads y env, ?_⟩
  rw [run_unary_of_reads reads, Operand.value_replace bound, map_replace_number]

theorem changed_binary {d : Operator} (reads : d.operation.writes = false) (l r : Operand) :
    Changed (Operand.replace x v) env (binary d l r)
      (binary d (l.replace x v) (r.replace x v)) := by
  refine ⟨_, run_binary_of_reads reads l r env, ?_⟩
  rw [run_binary_of_reads reads, Operand.value_replace bound, Operand.value_replace bound,
    map_replace_number]

theorem changed_call (functions : FunctionTable) {callee : Operand} (other : callee ≠ .name x)
    (args : List Operand) :
    Changed (Operand.replace x v) env (call functions callee args)
      (call functions (callee.replace x v) (args.map (Operand.replace x v))) := by
  refine ⟨_, run_call functions callee args env, ?_⟩
  rw [Operand.replace_of_ne v other, run_call, List.length_map, Operand.mapM_value_replace bound,
    map_replace_number]

end Replacing

end Evaluating

namespace Expression

open Evaluating

/-- A tree that comes to a name without writing is that name. -/
theorem name?_of_eval {functions : FunctionTable} {y : String} {env env' : Environment} :
    (e : Expression .standard) → (∀ item ∈ e.postorder, item.writes = false) →
      run (e.eval functions) env = (.ok (.name y), env') → e.name? = some y
  | literal n, _, h => by cases h
  | name z, _, h => by
    cases h
    rfl
  | group inner, reads, h => name?_of_eval inner reads h
  | before d operand, reads, h => by
    have own : d.val.operation.writes = false := reads (.operator d) (by simp [postorder])
    exact absurd h (nameless_unary own (operand.eval functions) env y env')
  | after d operand, reads, h => by
    have own : d.val.operation.writes = false := reads (.operator d) (by simp [postorder])
    exact absurd h (nameless_unary own (operand.eval functions) env y env')
  | between d left right, reads, h => by
    have own : d.val.operation.writes = false := reads (.operator d) (by simp [postorder])
    exact absurd h (nameless_binary own (left.eval functions) (right.eval functions) env y env')
  | call callee args, _, h =>
    absurd h (nameless_call functions (callee.eval functions) (evalAll functions args) env y env')

section Replacing

variable (functions : FunctionTable) {env : Environment} {x : String} {v : Number}

/-- A name in parentheses comes to the name. -/
theorem eval_of_name? : (e : Expression .standard) → e.name? = some x →
    e.eval functions = pure (Operand.name x)
  | name y, h => by rw [eval, Option.some.inj h]
  | group inner, h => eval_of_name? inner h

mutual

theorem changed_eval (bound : env.get? x = some v) : (e : Expression .standard) →
    (∀ item ∈ e.postorder, item.writes = false) → e.CallsNot x →
      Changed (Operand.replace x v) env (e.eval functions) ((e.replace x v).eval functions)
  | literal n, _, _ => .pure (Operand.number n)
  | name y, _, _ => by
    have replaced : ((name y).replace x v : Expression .standard).eval functions =
        pure ((Operand.name y).replace x v) := by
      simp only [replace, Operand.replace]
      split <;> rfl
    rw [replaced]
    exact .pure (Operand.name y)
  | group inner, reads, spared => changed_eval bound inner reads spared
  | before d operand, reads, spared => by
    simp only [postorder, List.forall_mem_append, List.forall_mem_singleton] at reads
    exact (changed_eval bound operand reads.1 spared).bind fun y _ => changed_unary bound reads.2 y
  | after d operand, reads, spared => by
    simp only [postorder, List.forall_mem_append, List.forall_mem_singleton] at reads
    exact (changed_eval bound operand reads.1 spared).bind fun y _ => changed_unary bound reads.2 y
  | between d left right, reads, spared => by
    simp only [postorder, List.forall_mem_append, List.forall_mem_singleton] at reads
    exact (changed_eval bound left reads.1.1 spared.1).bind fun l _ =>
      (changed_eval bound right reads.1.2 spared.2).bind fun r _ => changed_binary bound reads.2 l r
  | call callee args, reads, spared => by
    simp only [postorder, List.forall_mem_append, List.forall_mem_singleton] at reads
    obtain ⟨other, first, later⟩ := spared
    refine (changed_eval bound callee reads.1.1 first).bind fun f found => ?_
    refine (changed_evalAll bound args reads.1.2 later).bind fun xs _ => ?_
    apply changed_call bound functions
    rintro rfl
    exact other (name?_of_eval callee reads.1.1 found)

theorem changed_evalAll (bound : env.get? x = some v) : (es : List (Expression .standard)) →
    (∀ item ∈ postorderAll es, item.writes = false) → AllCallNot x es →
      Changed (List.map (Operand.replace x v)) env (evalAll functions es)
        (evalAll functions (replaceAll x v es))
  | [], _, _ => .pure []
  | e :: es, reads, spared => by
    simp only [postorderAll, List.forall_mem_append] at reads
    exact (changed_eval bound e reads.1 spared.1).bind fun y _ =>
      (changed_evalAll bound es reads.2 spared.2).bind fun ys _ => .pure (y :: ys)

end

end Replacing

theorem run_evaluate_of_eval {functions : FunctionTable} {e : Expression .standard}
    {env : Environment} {r : Except RunError Operand} (h : run (e.eval functions) env = (r, env)) :
    run (e.evaluate functions) env = (r >>= (·.evaluation env), env) := by
  rw [evaluate, run_bind_reads h]
  cases r with
  | error e => rfl
  | ok y => exact run_result y env

end Expression

/-- A tree without an operator that writes and without a call of `x` comes to the same result, or
fails alike, whether it reads `x` or has the value of `x` in its place. If it is nothing but `x`,
the result names the variable in the first case alone. The variables stay as they are. -/
theorem evaluate_replace (functions : FunctionTable) (env : Environment)
    (e : Expression .standard) {x : String} {v : Number} (bound : env.get? x = some v)
    (reads : ∀ item ∈ e.postorder, item.writes = false) (spared : e.CallsNot x) :
    let read := evaluate functions env e.postorder
    let valued := evaluate functions env (e.postorder.map (Item.replace x v))
    read.1 = env ∧ valued.1 = env ∧
      if e.name? = some x then read.2 = .ok (.variable x v) ∧ valued.2 = .ok (.value v)
      else read.2 = valued.2 := by
  obtain ⟨r, ran, changed⟩ := Expression.changed_eval functions bound e reads spared
  intro read valued
  have hread : read = (env, r >>= (·.evaluation env)) := by
    simp only [read]
    rw [evaluate_eq, finish_tree, Expression.run_evaluate_of_eval ran, Prod.swap_prod_mk]
  have hvalued : valued = (env, r.map (·.replace x v) >>= (·.evaluation env)) := by
    simp only [valued]
    rw [← Expression.postorder_replace, evaluate_eq, finish_tree,
      Expression.run_evaluate_of_eval changed, Prod.swap_prod_mk]
  rw [hread, hvalued]
  refine ⟨rfl, rfl, ?_⟩
  by_cases own : e.name? = some x
  · have named : r = .ok (.name x) := by
      rw [Expression.eval_of_name? functions e own, Evaluating.run_pure] at ran
      exact (congrArg Prod.fst ran).symm
    rw [if_pos own, named]
    simp [Except.map, Operand.evaluation, Operand.replace, Environment.value, bound]
  · have kept : r.map (Operand.replace x v) = r := by
      cases r with
      | error e => rfl
      | ok y =>
        refine congrArg Except.ok (Operand.replace_of_ne v ?_)
        rintro rfl
        exact own (Expression.name?_of_eval e reads ran)
    rw [if_neg own, kept]

/-- `abs(x) - (x)` where `x` is -3, and `(x)` by itself. -/
theorem evaluate_replace_difference :
    let minus : Operator := .between "-" 20 (.binary .subtract)
    let env : Environment := Directory.empty.insert "x" (.integer (-3))
    let difference : Expression .standard :=
      .between ⟨minus, by decide⟩ (.call (.name "abs") [.name "x"]) (.group (.name "x"))
    let own : Expression .standard := .group (.name "x")
    let valued : List Item := [.name "abs", .literal (.integer (-3)), .call 1,
      .literal (.integer (-3)), .operator minus]
    env.get? "x" = some (.integer (-3)) ∧
      (∀ item ∈ difference.postorder ++ own.postorder, item.writes = false) ∧
      difference.CallsNot "x" ∧ own.CallsNot "x" ∧
      (evaluate .standard env difference.postorder).2 = (evaluate .standard env valued).2 ∧
      (evaluate .standard env own.postorder).2 = .ok (.variable "x" (.integer (-3))) ∧
      (evaluate .standard env [.literal (.integer (-3))]).2 = .ok (.value (.integer (-3))) := by
  intro minus env difference own valued
  have bound : env.get? "x" = some (.integer (-3)) := by decide
  have reads : ∀ item ∈ difference.postorder ++ own.postorder, item.writes = false := by decide
  obtain ⟨first, second⟩ := List.forall_mem_append.mp reads
  have spared : difference.CallsNot "x" := ⟨⟨by decide, trivial, trivial, trivial⟩, trivial⟩
  obtain ⟨-, -, same⟩ := evaluate_replace .standard env difference bound first spared
  obtain ⟨-, -, named, valued⟩ := evaluate_replace .standard env own bound second trivial
  exact ⟨bound, reads, spared, trivial, same, named, valued⟩

end Calculator
