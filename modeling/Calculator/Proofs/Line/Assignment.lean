import Calculator.Proofs.Expression.Assignment
import Calculator.Proofs.Line.Expressions
import Calculator.Proofs.Number

namespace Calculator

open Token Evaluating

namespace OperatorTable

def assignment : standard.Placed .between := ⟨.between "=" 10 (.assign none), by decide⟩

/-- An operator that binds what another one computes. -/
structure Compound (sign : String) (b : Binary) (d base : standard.Placed .between) : Prop where
  symbol : d.val.symbol = sign ++ "="
  base_symbol : base.val.symbol = sign
  assigns : d.val.operation = .assign (some b)
  computes : base.val.operation = .binary b
  tighter : assignment.val.precedence < base.val.precedence

/-- The operators that have a form with an assignment. -/
def computing : List (String × Binary) :=
  [("+", .add), ("-", .subtract), ("*", .multiply), ("/", .divide)]

theorem exists_compound {sign : String} {b : Binary} (h : (sign, b) ∈ computing) :
    ∃ d base, Compound sign b d base := by
  have listed : (sign = "+" ∧ b = .add) ∨ (sign = "-" ∧ b = .subtract) ∨
      (sign = "*" ∧ b = .multiply) ∨ (sign = "/" ∧ b = .divide) := by simpa [computing] using h
  rcases listed with ⟨rfl, rfl⟩ | ⟨rfl, rfl⟩ | ⟨rfl, rfl⟩ | ⟨rfl, rfl⟩
  · exact ⟨⟨.between "+=" 10 (.assign (some .add)), by decide⟩,
      ⟨.between "+" 20 (.binary .add), by decide⟩, rfl, rfl, rfl, rfl, by decide⟩
  · exact ⟨⟨.between "-=" 10 (.assign (some .subtract)), by decide⟩,
      ⟨.between "-" 20 (.binary .subtract), by decide⟩, rfl, rfl, rfl, rfl, by decide⟩
  · exact ⟨⟨.between "*=" 10 (.assign (some .multiply)), by decide⟩,
      ⟨.between "*" 30 (.binary .multiply), by decide⟩, rfl, rfl, rfl, rfl, by decide⟩
  · exact ⟨⟨.between "/=" 10 (.assign (some .divide)), by decide⟩,
      ⟨.between "/" 30 (.binary .divide), by decide⟩, rfl, rfl, rfl, rfl, by decide⟩

/-- The operators that bind what another one computes with one. -/
structure Counting (sign : String) (b : Binary) (before : standard.Placed .before)
    (after : standard.Placed .after) : Prop where
  before_symbol : before.val.symbol = sign ++ sign
  after_symbol : after.val.symbol = sign ++ sign
  before_counts : before.val.operation.counting = some b
  after_counts : after.val.operation.counting = some b

theorem exists_counting {sign : String} (h : sign ∈ ["+", "-"]) :
    ∃ b before after, (sign, b) ∈ computing ∧ Counting sign b before after := by
  have listed : sign = "+" ∨ sign = "-" := by simpa using h
  rcases listed with rfl | rfl
  · exact ⟨.add, ⟨.before "++" .increment, by decide⟩, ⟨.after "++" .increment, by decide⟩,
      by simp [computing], rfl, rfl, rfl, rfl⟩
  · exact ⟨.subtract, ⟨.before "--" .decrement, by decide⟩, ⟨.after "--" .decrement, by decide⟩,
      by simp [computing], rfl, rfl, rfl, rfl⟩

end OperatorTable

open OperatorTable

namespace Line

/-- Two lines come to the same variable or fail with errors of one kind, and leave the same
variables. -/
inductive Agree (x : String) : Environment × Except LineError Evaluation →
    Environment × Except LineError Evaluation → Prop
  | bound (env : Environment) (n : Number) :
    Agree x (env, .ok (.variable x n)) (env, .ok (.variable x n))
  | failed (env : Environment) {e e' : LineError} (alike : e.kind = e'.kind) :
    Agree x (env, .error e) (env, .error e')

theorem agree_settled (x : String) (env : Environment) {r r' : Except RunError Number}
    (alike : r.mapError RunError.kind = r'.mapError RunError.kind) :
    Agree x (outcome (settled x env r)) (outcome (settled x env r')) := by
  cases r with
  | ok n =>
    cases r' with
    | ok m =>
      obtain rfl : n = m := Except.ok.inj alike
      exact .bound _ n
    | error e' => cases alike
  | error e =>
    cases r' with
    | ok m => cases alike
    | error e' => exact .failed env (Except.error.inj alike)

section Compound

variable {sign : String} {b : Binary} {d base : standard.Placed .between}
  (compound : Compound sign b d base) (functions : FunctionTable) (env : Environment) (x : String)

include compound

/-- The assignment yields to the operator behind it. -/
theorem tree_expansion (p : Phrase .standard) :
    (Phrase.name x (.between assignment (.name x (.between base (.group p .done))))).tree [] =
      .between assignment (.name x) (.between base (.name x) (.group (p.tree []))) := by
  have binds : assignment.val.yieldsTo base = false := by
    have tighter := compound.tighter
    simp [Operator.yieldsTo, base.2.2, tighter]
  simp [Phrase.tree, Trailer.tree, Expression.settled, Frame.plug, Frame.fill, Frame.operator,
    binds]

/-- Whatever the operand does to the variables, the operator and its expansion find them alike. -/
theorem agree_trees (operand : Expression .standard) :
    Agree x (outcome (run ((Expression.between d (.name x) operand).evaluate functions) env))
      (outcome (run ((Expression.between assignment (.name x)
        (.between base (.name x) operand)).evaluate functions) env)) := by
  have expanded : (Expression.between base (.name x) operand).eval functions =
      operand.eval functions >>= fun y => binary base (.name x) y := by
    simp only [Expression.eval, pure_bind]
  rw [Expression.evaluate_between, Expression.evaluate_between, expanded, bind_assoc, run_bind,
    run_bind]
  cases run (operand.eval functions) env with
  | mk r env' =>
    cases r with
    | error e => exact .failed env' rfl
    | ok y =>
      dsimp only
      rw [run_compound x env' compound.assigns, run_expansion x env' compound.computes rfl]
      exact agree_settled x env' (kind_combined x env' b _ _ y)

end Compound

section Kinds

variable {line : String}

theorem kind_mapError_moved {α : Type} (n : Nat) (r : Except ReadError α) :
    (r.mapError (ReadError.moved n)).mapError ReadError.kind = r.mapError ReadError.kind := by
  cases r with
  | ok a => rfl
  | error e => cases e <;> rfl

theorem kind_items_group (h : IsExpression line) :
    (items ("(" ++ line ++ ")")).mapError ReadError.kind =
      ((items line).mapError ReadError.kind).map
        fun items => .openParen :: (items ++ [.closeParen]) := by
  rw [items_group h, mapError_map, kind_mapError_moved]

theorem kind_items_joined (h : IsExpression line) {x : String} (hx : IsName x.toList)
    (d : standard.Placed .between) :
    (items (x ++ " " ++ d.val.symbol ++ " " ++ line)).mapError ReadError.kind =
      ((items line).mapError ReadError.kind).map fun items => .name x :: .operator d :: items := by
  obtain ⟨n, joined⟩ := items_joined h hx d
  rw [joined, mapError_map, kind_mapError_moved]

theorem items_of_kind {source : List Item}
    (h : (items line).mapError ReadError.kind = .ok source) : items line = .ok source := by
  cases resolved : items line with
  | error e => simp [resolved] at h
  | ok found => simpa [resolved] using h

theorem evaluate_of_kind {kind : ErrorKind}
    (h : (items line).mapError ReadError.kind = .error kind) (functions : FunctionTable)
    (env : Environment) :
    ∃ e : LineError, e.kind = kind ∧ evaluate functions env line = (env, .error e) := by
  cases resolved : items line with
  | ok found => simp [resolved] at h
  | error e =>
    rw [resolved] at h
    refine ⟨.read e, Except.error.inj h, ?_⟩
    rw [evaluate, read_eq_items, resolved]
    rfl

end Kinds

section Texts

variable {x : String} (hx : IsName x.toList) (functions : FunctionTable) (env : Environment)

include hx

/-- An operand in parentheses is refused alike behind the operator and in its expansion, or read as
the same tree. -/
theorem agree_compound {sign : String} {b : Binary} {d base : standard.Placed .between}
    (compound : Compound sign b d base) {text : String} (h : IsExpression text) :
    Agree x (evaluate functions env s!"{x} {sign}= ({text})")
      (evaluate functions env s!"{x} = {x} {sign} ({text})") := by
  have first : s!"{x} {sign}= ({text})" =
      x ++ " " ++ d.val.symbol ++ " " ++ ("(" ++ text ++ ")") := by
    rw [compound.symbol]
    apply String.toList_injective
    simp [toString]
  have second : s!"{x} = {x} {sign} ({text})" = x ++ " " ++ assignment.val.symbol ++ " " ++
      (x ++ " " ++ base.val.symbol ++ " " ++ ("(" ++ text ++ ")")) := by
    rw [compound.base_symbol]
    apply String.toList_injective
    simp [toString, assignment, Operator.between]
  have compounded := kind_items_joined h.group hx d
  have expanded := kind_items_joined (h.group.joined hx base) hx assignment
  rw [kind_items_joined h.group hx base] at expanded
  rw [kind_items_group h] at compounded expanded
  rw [first, second]
  cases resolved : items text with
  | error e =>
    rw [resolved] at compounded expanded
    obtain ⟨e₁, kind₁, failed₁⟩ := evaluate_of_kind compounded functions env
    obtain ⟨e₂, kind₂, failed₂⟩ := evaluate_of_kind expanded functions env
    rw [failed₁, failed₂]
    exact .failed env (kind₁.trans kind₂.symm)
  | ok source =>
    rw [resolved] at compounded expanded
    obtain ⟨p, rfl⟩ := h.phrase resolved
    rw [evaluate_phrase (.name x (.between d (.group p .done))) (items_of_kind compounded),
      evaluate_phrase (.name x (.between assignment (.name x (.between base (.group p .done)))))
        (items_of_kind expanded), tree_expansion compound x p]
    exact agree_trees compound functions env x (.group (p.tree []))

section Counting

variable {sign : String} {b : Binary} {before : standard.Placed .before}
  {after : standard.Placed .after} (counting : Counting sign b before after)

include counting

theorem evaluate_before : evaluate functions env s!"{sign}{sign}{x}" = outcome (settled x env
    (do b.apply before.val.symbol (← env.value x) (.integer 1))) := by
  have text : s!"{sign}{sign}{x}".toList = before.val.symbol.toList ++ (x.toList ++ []) := by
    rw [counting.before_symbol]
    simp [toString]
  have spelled := (Spells.name hx (by simp [Ends]) .done).operator before.2.1
    (unpaired_word hx.word.1 hx.word.2)
  rw [← text] at spelled
  rw [evaluate_phrase _ (items_of_spells (.before before (.name x .done)) spelled),
    ← run_count x env counting.before_counts, ← Expression.evaluate_before]
  rfl

theorem evaluate_after : evaluate functions env s!"{x}{sign}{sign}" = outcome (settled x env
    (do b.apply after.val.symbol (← env.value x) (.integer 1))) := by
  have text : s!"{x}{sign}{sign}".toList = x.toList ++ (after.val.symbol.toList ++ []) := by
    rw [counting.after_symbol]
    simp [toString]
  have spelled := (Spells.done.operator after.2.1 (by simp [Unpaired])).name hx
    (ends_operator after.2.1)
  rw [← text] at spelled
  rw [evaluate_phrase _ (items_of_spells (.name x (.after after .done)) spelled),
    ← run_count x env counting.after_counts, ← Expression.evaluate_after]
  rfl

end Counting

theorem evaluate_one {sign : String} {b : Binary} {d base : standard.Placed .between}
    (compound : Compound sign b d base) : evaluate functions env s!"{x} {sign}= 1" =
      outcome (settled x env (do b.apply d.val.symbol (← env.value x) (.integer 1))) := by
  have text : s!"{x} {sign}= 1".toList =
      x.toList ++ ' ' :: (d.val.symbol.toList ++ ' ' :: ("1".toList ++ [])) := by
    rw [compound.symbol]
    simp [toString]
  have blank : isBlank ' ' = true := rfl
  have one : (Number.integer 1).text = "1" := rfl
  obtain ⟨present, digits, read⟩ := Number.text_digits (i := 1) (by decide)
  rw [one] at present digits read
  have literal := Spells.literal present digits read (by simp [Ends]) .done
  have operator := (literal.blank blank).operator d.2.1 (unpaired_cons (by decide))
  have spelled := (operator.blank blank).name hx (ends_cons (by decide))
  rw [← text] at spelled
  have tree : (Phrase.name x (.between d (.literal (.integer 1) .done))).tree [] =
      .between d (.name x) (.literal (.integer 1)) := rfl
  rw [evaluate_phrase _ (items_of_spells (.name x (.between d (.literal (.integer 1) .done)))
    spelled), tree, Expression.evaluate_between, Expression.eval, pure_bind,
    run_compound x env compound.assigns]
  rfl

end Texts

/-- Whatever the symbol of the operator, counting fails alike. -/
theorem agree_counted (x : String) (env : Environment) (b : Binary) (symbol symbol' : String) :
    Agree x (outcome (settled x env (do b.apply symbol (← env.value x) (.integer 1))))
      (outcome (settled x env (do b.apply symbol' (← env.value x) (.integer 1)))) := by
  apply agree_settled
  cases env.value x with
  | error e => rfl
  | ok old => exact b.kind_apply symbol symbol' old (.integer 1)

/-- An assignment that computes is its expansion, whatever its operand does: the two bind the same
number and show it, or fail with errors of one kind, and leave the same variables. A variable that is
counted up or down, with the operator on either side, agrees so with the assignment of one more or
one less. -/
theorem assignment_agrees {x : String} (hx : IsName x.toList) (functions : FunctionTable)
    (env : Environment) :
    (∀ sign ∈ ["+", "-", "*", "/"], ∀ text, IsExpression text →
      Agree x (evaluate functions env s!"{x} {sign}= ({text})")
        (evaluate functions env s!"{x} = {x} {sign} ({text})")) ∧
    ∀ sign ∈ ["+", "-"],
      Agree x (evaluate functions env s!"{sign}{sign}{x}")
        (evaluate functions env s!"{x} {sign}= 1") ∧
      Agree x (evaluate functions env s!"{x}{sign}{sign}")
        (evaluate functions env s!"{x} {sign}= 1") := by
  refine ⟨?_, ?_⟩
  · intro sign member text h
    have computes : sign ∈ computing.map Prod.fst := member
    obtain ⟨⟨sign, b⟩, listed, rfl⟩ := List.mem_map.mp computes
    obtain ⟨d, base, compound⟩ := exists_compound listed
    exact agree_compound hx functions env compound h
  · intro sign member
    obtain ⟨b, before, after, listed, counting⟩ := exists_counting member
    obtain ⟨d, base, compound⟩ := exists_compound listed
    rw [evaluate_one hx functions env compound, evaluate_before hx functions env counting,
      evaluate_after hx functions env counting]
    exact ⟨agree_counted x env b _ _, agree_counted x env b _ _⟩

/-- With `x` bound to 1, the operand of `x += (x = 5)` binds it anew in front of the sum, and the
unbound `y` cannot be counted. -/
theorem assignment_agrees_rebound :
    let env : Environment := Directory.empty.insert "x" (.integer 1)
    IsName "x".toList ∧ IsName "y".toList ∧ IsExpression "x = 5" ∧
      Agree "x" (evaluate .standard env "x += (x = 5)")
        (evaluate .standard env "x = x + (x = 5)") ∧
      (evaluate .standard env "x += (x = 5)").2 = .ok (.variable "x" (.integer 10)) ∧
      Agree "y" (evaluate .standard env "++y") (evaluate .standard env "y += 1") ∧
      (evaluate .standard env "++y").2 = .error (.run (.unknownVariable "y")) := by
  intro env
  have x : IsName "x".toList := ⟨rfl, by simp⟩
  have y : IsName "y".toList := ⟨rfl, by simp⟩
  have five : IsExpression "5" := ⟨[⟨.number, "5", 0, 1⟩], by decide +kernel, .value rfl⟩
  have rebound : IsExpression "x = 5" := five.joined x assignment
  obtain ⟨compound, -⟩ := assignment_agrees x .standard env
  obtain ⟨-, counting⟩ := assignment_agrees y .standard env
  refine ⟨x, y, rebound, compound "+" (by simp) "x = 5" rebound, by decide +kernel,
    (counting "+" (by simp)).1, by decide +kernel⟩

end Line

end Calculator
