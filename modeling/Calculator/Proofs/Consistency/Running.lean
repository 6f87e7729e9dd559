import Calculator.Proofs.Except
import Calculator.Proofs.Expression.Evaluation

namespace Calculator

/-- Failures that mean that a sequence was not the postfix order of a tree. -/
def RunError.Internal : RunError → Prop
  | .notEnoughOperands _ | .missingOperators _ | .structuralToken _ => True
  | _ => False

theorem Number.avoids_checked (symbol : String) (n : Option Int64) :
    Avoids RunError.Internal (checked symbol n) := by
  cases n <;> simp [checked, RunError.Internal]

theorem Power.avoids_real (pow : Float → Float → Float) (symbol : String)
    (base exponent : Number) : Avoids RunError.Internal (real pow symbol base exponent) := by
  simp only [real]
  split <;> simp [RunError.Internal]

theorem Power.avoids_apply (symbol : String) (base exponent : Number) :
    Avoids RunError.Internal (apply symbol base exponent) := by
  unfold apply applyBy
  repeat' split
  · simp [RunError.Internal]
  · exact Number.avoids_checked _ _
  · exact avoids_real _ _ _ _
  · exact avoids_real _ _ _ _

theorem Unary.avoids_apply (symbol : String) (operation : Unary) (x : Number) :
    Avoids RunError.Internal (operation.apply symbol x) := by
  unfold apply applyFactorial
  repeat' split
  all_goals first
    | exact Number.avoids_checked _ _
    | simp [RunError.Internal]

theorem Binary.avoids_combine (symbol : String) (whole? : Int64 → Int64 → Option Int64)
    (real : Float → Float → Float) (l r : Number) :
    Avoids RunError.Internal (combine symbol whole? real l r) := by
  unfold combine
  split
  · exact Number.avoids_checked _ _
  · exact avoids_ok _ _

theorem Binary.avoids_apply (symbol : String) (operation : Binary) (l r : Number) :
    Avoids RunError.Internal (operation.apply symbol l r) := by
  unfold apply divided
  repeat' split
  all_goals first
    | exact avoids_combine _ _ _ _ _
    | exact Power.avoids_apply _ _ _
    | simp [RunError.Internal]

namespace Function

theorem avoids_ofOne (name : String) {f : Number → Except RunError Number}
    (h : ∀ x, Avoids RunError.Internal (f x)) (args : List Number) :
    Avoids RunError.Internal ((ofOne name f).run args) := by
  match args with
  | [] => simp [ofOne, RunError.Internal]
  | [x] => exact h x
  | _ :: _ :: _ => simp [ofOne, RunError.Internal]

theorem avoids_ofTwo (name : String) {f : Number → Number → Except RunError Number}
    (h : ∀ x y, Avoids RunError.Internal (f x y)) (args : List Number) :
    Avoids RunError.Internal ((ofTwo name f).run args) := by
  match args with
  | [] => simp [ofTwo, RunError.Internal]
  | [_] => simp [ofTwo, RunError.Internal]
  | [x, y] => exact h x y
  | _ :: _ :: _ :: _ => simp [ofTwo, RunError.Internal]

theorem avoids_ofReal (name : String) (f : Float → Float) (args : List Number) :
    Avoids RunError.Internal ((ofReal name f).run args) :=
  avoids_ofOne name (fun _ => avoids_ok _ _) args

theorem avoids_ofUnitInterval (name : String) (f : Float → Float) (args : List Number) :
    Avoids RunError.Internal ((ofUnitInterval name f).run args) := by
  refine avoids_ofOne name (fun x => ?_) args
  dsimp only
  split <;> simp [RunError.Internal]

theorem avoids_rounding (name : String) (args : List Number) :
    Avoids RunError.Internal ((rounding name).run args) := by
  refine avoids_ofOne name (fun x => ?_) args
  cases x with
  | integer n => exact avoids_ok _ _
  | real x =>
    dsimp only
    split <;> exact avoids_ok _ _

theorem avoids_absolute (args : List Number) : Avoids RunError.Internal (absolute.run args) := by
  refine avoids_ofOne "abs" (fun x => ?_) args
  cases x with
  | integer n => exact Number.avoids_checked _ _
  | real x => exact avoids_ok _ _

theorem avoids_sign (args : List Number) : Avoids RunError.Internal (sign.run args) := by
  refine avoids_ofOne "sign" (fun x => ?_) args
  cases x with
  | integer n => exact Number.avoids_checked _ _
  | real x => exact avoids_ok _ _

theorem avoids_positive (name : String) (x : Number) :
    Avoids RunError.Internal (positive name x) := by
  simp only [positive]
  split <;> simp [RunError.Internal]

theorem avoids_logarithm (name : String) (args : List Number) :
    Avoids RunError.Internal ((logarithm name).run args) := by
  refine avoids_ofOne name (fun x => ?_) args
  exact avoids_bind (avoids_positive name x) fun r _ => avoids_ok _ _

theorem avoids_logarithmTo (args : List Number) :
    Avoids RunError.Internal (logarithmTo.run args) := by
  refine avoids_ofTwo "logbase" (fun x base => ?_) args
  refine avoids_bind (avoids_positive _ x) fun r _ => ?_
  refine avoids_bind (avoids_positive _ base) fun b _ => ?_
  split <;> simp [RunError.Internal]

theorem avoids_squareRoot (args : List Number) :
    Avoids RunError.Internal (squareRoot.run args) := by
  refine avoids_ofOne "sqrt" (fun x => ?_) args
  dsimp only
  split <;> simp [RunError.Internal]

theorem avoids_root (args : List Number) : Avoids RunError.Internal (root.run args) := by
  refine avoids_ofTwo "nthroot" (fun x degree => ?_) args
  dsimp only
  repeat' split
  all_goals simp [RunError.Internal]

theorem avoids_builtin :
    ∀ entry ∈ builtin, ∀ args, Avoids RunError.Internal (entry.2.run args) := by
  simp only [builtin, List.forall_mem_cons]
  exact ⟨avoids_ofReal _ _, avoids_ofReal _ _, avoids_ofReal _ _, avoids_ofUnitInterval _ _,
    avoids_ofUnitInterval _ _, avoids_ofReal _ _, avoids_ofTwo _ fun _ _ => avoids_ok _ _,
    avoids_ofReal _ _, avoids_ofReal _ _, avoids_rounding _, avoids_rounding _, avoids_absolute,
    avoids_sign, avoids_logarithm _, avoids_logarithm _, avoids_logarithm _, avoids_logarithmTo,
    avoids_squareRoot, avoids_root, fun _ h => absurd h List.not_mem_nil⟩

end Function

theorem Directory.mem_of_get?_insertAll {α : Type} {d : Directory α} {es : List (String × α)}
    {name : String} {value : α} (h : (d.insertAll es).get? name = some value) :
    (name, value) ∈ es ∨ d.get? name = some value := by
  induction es generalizing d with
  | nil => exact .inr h
  | cons e es ih =>
    rcases ih h with later | first
    · exact .inl (List.mem_cons_of_mem e later)
    · rw [get?_insert] at first
      split at first
      · next same =>
        obtain rfl := Option.some.inj first
        exact .inl (by simp [same])
      · exact .inr first

/-- Operations on one operand. -/
def Operation.forOne : Operation → Bool
  | .unary _ | .increment | .decrement => true
  | _ => false

/-- Operations on two operands. -/
def Operation.forTwo : Operation → Bool
  | .binary _ | .assign _ => true
  | _ => false

theorem Operation.avoids_applyUnary {operation : Operation} (h : operation.forOne = true)
    (up : operation ≠ .increment) (down : operation ≠ .decrement) (symbol : String) (x : Number) :
    Avoids RunError.Internal (operation.applyUnary symbol x) := by
  cases operation with
  | unary u => exact u.avoids_apply symbol x
  | increment => exact absurd rfl up
  | decrement => exact absurd rfl down
  | binary b => cases h
  | assign b => cases h

theorem Operation.avoids_applyBinary {operation : Operation} (h : operation.forTwo = true)
    (other : ∀ b, operation ≠ .assign b) (symbol : String) (l r : Number) :
    Avoids RunError.Internal (operation.applyBinary symbol l r) := by
  cases operation with
  | binary b => exact b.avoids_apply symbol l r
  | assign b => exact absurd rfl (other b)
  | unary u => cases h
  | increment => cases h
  | decrement => cases h

theorem OperatorTable.forOne_standard : ∀ d ∈ standard.definitions,
    d.position ≠ .between → d.operation.forOne = true := by
  decide

theorem OperatorTable.forTwo_standard : ∀ d ∈ standard.definitions,
    d.position = .between → d.operation.forTwo = true := by
  decide

/-- No function of the table reports an internal failure. -/
def FunctionTable.Quiet (functions : FunctionTable) : Prop :=
  ∀ name function, functions.get? name = some function →
    ∀ args, Avoids RunError.Internal (function.run args)

theorem FunctionTable.quiet_standard : standard.Quiet := by
  intro name function found args
  rcases Directory.mem_of_get?_insertAll found with listed | absent
  · exact Function.avoids_builtin _ listed args
  · cases absent

namespace Evaluating

/-- Fails internally with no variables. -/
def Quiet {α : Type} (x : Evaluating α) : Prop := ∀ env, Avoids RunError.Internal (run x env).1

variable {α β : Type}

theorem quiet_pure (a : α) : Quiet (pure a) := fun _ => avoids_ok _ _

theorem quiet_throw {e : RunError} (h : ¬ e.Internal) : Quiet (throw e : Evaluating α) :=
  fun _ => avoids_error.mpr h

theorem quiet_lift {x : Except RunError α} (h : Avoids RunError.Internal x) :
    Quiet (liftM x : Evaluating α) := fun _ => h

theorem quiet_bind {x : Evaluating α} {f : α → Evaluating β} (hx : Quiet x)
    (hf : ∀ a, Quiet (f a)) : Quiet (x >>= f) := by
  intro env
  have first := hx env
  rw [run_bind]
  cases ran : run x env with
  | mk r env' =>
    rw [ran] at first
    cases r with
    | ok a => exact hf a env'
    | error e => simpa using first

theorem quiet_resolve (x : Operand) : Quiet (resolve x) := by
  cases x with
  | number n => exact quiet_pure _
  | name x =>
    refine quiet_bind (fun _ => avoids_ok _ _) fun env => quiet_lift ?_
    unfold Environment.value
    split <;> simp [RunError.Internal]

theorem quiet_target (symbol : String) (x : Operand) : Quiet (target symbol x) := by
  cases x with
  | number n => exact quiet_throw (by simp [RunError.Internal])
  | name x => exact quiet_pure _

theorem quiet_combine (d : Operator) (b : Binary) (x : String) (n : Number) :
    Quiet (combine d b x n) := by
  refine quiet_bind (quiet_resolve _) fun old => ?_
  refine quiet_bind (quiet_lift (b.avoids_apply _ _ _)) fun new => ?_
  exact quiet_bind (fun _ => avoids_ok _ _) fun _ => quiet_pure _

theorem quiet_unary {d : Operator} (h : d.operation.forOne = true) (x : Operand) :
    Quiet (unary d x) := by
  unfold unary
  split
  · exact quiet_bind (quiet_target _ x) fun _ => quiet_combine d _ _ _
  · exact quiet_bind (quiet_target _ x) fun _ => quiet_combine d _ _ _
  · next up down =>
    refine quiet_bind (quiet_resolve x) fun n => ?_
    exact quiet_bind (quiet_lift (Operation.avoids_applyUnary h up down _ n)) fun _ => quiet_pure _

theorem quiet_binary {d : Operator} (h : d.operation.forTwo = true) (l r : Operand) :
    Quiet (binary d l r) := by
  unfold binary
  split
  · next combining _ =>
    refine quiet_bind (quiet_target _ l) fun x => ?_
    refine quiet_bind (quiet_resolve r) fun n => ?_
    cases combining with
    | none => exact quiet_bind (fun _ => avoids_ok _ _) fun _ => quiet_pure _
    | some b => exact quiet_combine d b x n
  · next other =>
    refine quiet_bind (quiet_resolve l) fun a => ?_
    refine quiet_bind (quiet_resolve r) fun b => ?_
    exact quiet_bind (quiet_lift (Operation.avoids_applyBinary h other _ a b)) fun _ => quiet_pure _

theorem quiet_mapM_resolve (xs : List Operand) : Quiet (xs.mapM resolve) := by
  induction xs with
  | nil => exact quiet_pure _
  | cons x xs ih =>
    rw [List.mapM_cons]
    exact quiet_bind (quiet_resolve x) fun _ => quiet_bind ih fun _ => quiet_pure _

theorem quiet_call {functions : FunctionTable} (h : functions.Quiet) (callee : Operand)
    (args : List Operand) : Quiet (call functions callee args) := by
  unfold call
  split
  · exact quiet_throw (by simp [RunError.Internal])
  · split
    · exact quiet_throw (by simp [RunError.Internal])
    · next name _ function found =>
      split
      · refine quiet_bind (quiet_mapM_resolve args) fun values => ?_
        exact quiet_bind (quiet_lift (h name function found values)) fun _ => quiet_pure _
      · exact quiet_throw (by simp [RunError.Internal])

theorem quiet_result (x : Operand) : Quiet (result x) := by
  cases x with
  | number n => exact quiet_pure _
  | name x => exact quiet_bind (quiet_resolve _) fun _ => quiet_pure _

theorem result_ne_empty {x : Operand} {env env' : Environment} {r : Evaluation}
    (h : run (result x) env = (.ok r, env')) : r ≠ .empty := by
  cases x with
  | number n =>
    cases h
    simp
  | name x =>
    rw [result, run_bind] at h
    split at h
    · cases h
      simp
    · cases h

end Evaluating

namespace Expression

open Evaluating

mutual

theorem quiet_eval {functions : FunctionTable} (h : functions.Quiet) :
    (e : Expression .standard) → Quiet (e.eval functions)
  | literal n => quiet_pure _
  | name x => quiet_pure _
  | group inner => quiet_eval h inner
  | before d operand =>
    quiet_bind (quiet_eval h operand)
      (quiet_unary (OperatorTable.forOne_standard d d.2.1 (by simp [d.2.2])))
  | after d operand =>
    quiet_bind (quiet_eval h operand)
      (quiet_unary (OperatorTable.forOne_standard d d.2.1 (by simp [d.2.2])))
  | between d left right =>
    quiet_bind (quiet_eval h left) fun l => quiet_bind (quiet_eval h right)
      (quiet_binary (OperatorTable.forTwo_standard d d.2.1 d.2.2) l)
  | call callee args =>
    quiet_bind (quiet_eval h callee) fun f => quiet_bind (quiet_evalAll h args) (quiet_call h f)

theorem quiet_evalAll {functions : FunctionTable} (h : functions.Quiet) :
    (es : List (Expression .standard)) → Quiet (evalAll functions es)
  | [] => quiet_pure _
  | e :: es =>
    quiet_bind (quiet_eval h e) fun _ => quiet_bind (quiet_evalAll h es) fun _ => quiet_pure _

end

/-- Evaluating a tree never fails internally. -/
theorem quiet_evaluate {functions : FunctionTable} (h : functions.Quiet)
    (e : Expression .standard) : Quiet (e.evaluate functions) :=
  quiet_bind (quiet_eval h e) quiet_result

/-- A tree always has a result that is not empty, if it has one. -/
theorem evaluate_ne_empty {table : OperatorTable} {functions : FunctionTable}
    {e : Expression table} {env env' : Environment} {r : Evaluation}
    (h : run (e.evaluate functions) env = (.ok r, env')) : r ≠ .empty := by
  rw [evaluate, run_bind] at h
  split at h
  · exact result_ne_empty h
  · cases h

end Expression

end Calculator
