import Calculator.Proofs.Machine

namespace Calculator

section Symbols

variable (symbol symbol' : String)

theorem Number.kind_checked (n : Option Int64) :
    (checked symbol n).mapError RunError.kind = (checked symbol' n).mapError RunError.kind := by
  cases n <;> rfl

theorem Power.kind_real (pow : Float → Float → Float) (base exponent : Number) :
    (real pow symbol base exponent).mapError RunError.kind =
      (real pow symbol' base exponent).mapError RunError.kind := by
  simp only [real]
  split <;> rfl

theorem Power.kind_apply (base exponent : Number) :
    (apply symbol base exponent).mapError RunError.kind =
      (apply symbol' base exponent).mapError RunError.kind := by
  unfold apply applyBy
  repeat' split
  · rfl
  · exact Number.kind_checked _ _ _
  · exact kind_real _ _ _ _ _
  · exact kind_real _ _ _ _ _

theorem Binary.kind_combine (whole? : Int64 → Int64 → Option Int64)
    (real : Float → Float → Float) (l r : Number) :
    (combine symbol whole? real l r).mapError RunError.kind =
      (combine symbol' whole? real l r).mapError RunError.kind := by
  unfold combine
  split
  · exact Number.kind_checked _ _ _
  · rfl

theorem Binary.kind_divided (r : Number) {quotient quotient' : Except RunError Number}
    (alike : quotient.mapError RunError.kind = quotient'.mapError RunError.kind) :
    (divided symbol r quotient).mapError RunError.kind =
      (divided symbol' r quotient').mapError RunError.kind := by
  unfold divided
  split
  · rfl
  · exact alike

/-- The symbol of an operator is of no matter but in its errors. -/
theorem Binary.kind_apply (operation : Binary) (l r : Number) :
    (operation.apply symbol l r).mapError RunError.kind =
      (operation.apply symbol' l r).mapError RunError.kind := by
  cases operation with
  | add => exact kind_combine _ _ _ _ _ _
  | subtract => exact kind_combine _ _ _ _ _ _
  | multiply => exact kind_combine _ _ _ _ _ _
  | power => exact Power.kind_apply _ _ _ _
  | divide => exact kind_divided _ _ r rfl
  | floorDivide => exact kind_divided _ _ r (kind_combine _ _ _ _ _ _)
  | modulo => exact kind_divided _ _ r (kind_combine _ _ _ _ _ _)
  | compare | and | or => rfl

end Symbols

/-- What an operator that counts a variable combines it with one by. -/
def Operation.counting : Operation → Option Binary
  | .increment => some .add
  | .decrement => some .subtract
  | _ => none

namespace Evaluating

/-- Binds a name to a number, where there is one, and shows it. -/
def settled (x : String) (env : Environment) :
    Except RunError Number → Except RunError Evaluation × Environment
  | .ok n => (.ok (.variable x n), env.insert x n)
  | .error e => (.error e, env)

section Settling

variable (x : String) (env : Environment)

theorem value_insert (n : Number) : Environment.value (env.insert x n) x = .ok n := by
  rw [Environment.value, Directory.get?_insert, if_pos rfl]

theorem run_result_name (n : Number) :
    run (result (.name x)) (env.insert x n) = (.ok (.variable x n), env.insert x n) := by
  rw [result, run_bind_reads (run_resolve (.name x) _), Operand.value, value_insert]
  rfl

/-- A name that is combined with a number. -/
theorem run_combine_result (d : Operator) (b : Binary) (n : Number) :
    run (combine d b x n >>= result) env =
      settled x env (do b.apply d.symbol (← env.value x) n) := by
  rw [run_bind, run_combine, run_ofEffect, Operator.update]
  cases env.value x with
  | error e => rfl
  | ok old =>
    simp only [ok_bind]
    cases b.apply d.symbol old n with
    | error e => rfl
    | ok new => exact run_result_name x env new

variable {d : Operator} {b : Binary}

theorem run_count (counts : d.operation.counting = some b) :
    run (unary d (.name x) >>= result) env =
      settled x env (do b.apply d.symbol (← env.value x) (.integer 1)) := by
  rw [← run_combine_result, unary]
  cases operation : d.operation with
  | increment =>
    obtain rfl : .add = b := by simpa [operation, Operation.counting] using counts
    rfl
  | decrement =>
    obtain rfl : .subtract = b := by simpa [operation, Operation.counting] using counts
    rfl
  | _ => simp [operation, Operation.counting] at counts

/-- The operand is looked up in front of the name. -/
theorem run_compound (assigns : d.operation = .assign (some b)) (y : Operand) :
    run (binary d (.name x) y >>= result) env = settled x env (do
      let n ← y.value env
      b.apply d.symbol (← env.value x) n) := by
  have computed : binary d (.name x) y = resolve y >>= combine d b x := by
    rw [binary, assigns]
    rfl
  rw [computed, bind_assoc, run_bind_reads (run_resolve y env)]
  cases y.value env with
  | error e => rfl
  | ok n => exact run_combine_result x env d b n

/-- The operand is looked up behind the name. -/
theorem run_expansion (computes : d.operation = .binary b) {assignment : Operator}
    (assigns : assignment.operation = .assign none) (y : Operand) :
    run (binary d (.name x) y >>= fun z => binary assignment (.name x) z >>= result) env =
      settled x env (do
        let old ← env.value x
        b.apply d.symbol old (← y.value env)) := by
  have bound (n : Number) : run (binary assignment (.name x) (.number n) >>= result) env =
      settled x env (.ok n) := by
    rw [binary, assigns]
    exact run_result_name x env n
  have own : (Operand.name x).value env = env.value x := rfl
  rw [run_bind, binary_eq, run_ofEffect, Operator.applyTwo, computes]
  simp only [own]
  cases env.value x with
  | error e => rfl
  | ok old =>
    cases y.value env with
    | error e => rfl
    | ok n =>
      simp only [ok_bind, Operation.applyBinary]
      cases b.apply d.symbol old n with
      | error e => rfl
      | ok m => exact bound m

/-- A name that has no value is the wrong name. -/
theorem kind_of_value {y : Operand} {e : RunError} (h : y.value env = .error e) :
    e.kind = .name := by
  cases y with
  | number n => cases h
  | name y =>
    rw [Operand.value, Environment.value] at h
    split at h
    · cases h
    · cases h
      rfl

/-- The order in which two operands are looked up does not tell the kind of an error, and nor does
the symbol of the operator. -/
theorem kind_combined (b : Binary) (symbol symbol' : String) (y : Operand) :
    (do let n ← y.value env; b.apply symbol (← env.value x) n).mapError RunError.kind =
      (do let old ← env.value x; b.apply symbol' old (← y.value env)).mapError
        RunError.kind := by
  have own : env.value x = (Operand.name x).value env := rfl
  rw [own]
  cases later : y.value env with
  | error e =>
    cases earlier : (Operand.name x).value env with
    | error e' =>
      have kind := kind_of_value env later
      have kind' := kind_of_value env earlier
      exact congrArg Except.error (kind.trans kind'.symm)
    | ok old => rfl
  | ok n =>
    cases (Operand.name x).value env with
    | error e' => rfl
    | ok old => exact b.kind_apply symbol symbol' old n

end Settling

end Evaluating

open Evaluating

namespace Expression

variable {table : OperatorTable} (functions : FunctionTable) (x : String)

theorem evaluate_before (d : table.Placed .before) :
    (before d (name x)).evaluate functions = unary d (.name x) >>= result := by
  simp only [evaluate, eval, pure_bind]

theorem evaluate_after (d : table.Placed .after) :
    (after d (name x)).evaluate functions = unary d (.name x) >>= result := by
  simp only [evaluate, eval, pure_bind]

theorem evaluate_between (d : table.Placed .between) (e : Expression table) :
    (between d (name x) e).evaluate functions =
      e.eval functions >>= fun y => binary d (.name x) y >>= result := by
  simp only [evaluate, eval, pure_bind, bind_assoc]

end Expression

end Calculator
