import Calculator.Machine
import Calculator.Proofs.Except

namespace Calculator

/-- Operations that bind a name. -/
def Operation.writes : Operation → Bool
  | .assign _ | .increment | .decrement => true
  | _ => false

namespace Item

def writes : Item → Bool
  | .operator d => d.operation.writes
  | _ => false

/-- How many operands an item takes off the stack. -/
def taken : Item → Nat
  | .operator d => d.taken
  | .call arity => arity + 1
  | _ => 0

/-- The effect of an item on its operands. Literals and names have none. -/
def effect (functions : FunctionTable) (item : Item) (env : Environment) (xs : List Operand) :
    Effect :=
  match item with
  | .literal n => .ok (.number n, env)
  | .name x => .ok (.name x, env)
  | .operator d => d.apply env xs
  | .call _ => Machine.called functions item.text env xs
  | .openParen | .closeParen | .comma => .error (.structuralToken item.text)

end Item

/-- An operand that is none but these names. -/
def Operand.Within (names : String → Prop) (x : Operand) : Prop := ∀ y, x = .name y → names y

/-- Two effects that differ in nothing but the variables they start from: they fail alike, yield the
same operand, or bind the same name to the same number and yield it. -/
inductive Effect.Alike (names : String → Prop) (writes : Bool) (env env' : Environment) :
    Effect → Effect → Prop
  | failure (e : RunError) : Alike names writes env env' (.error e) (.error e)
  | kept (x : Operand) (within : x.Within names) :
    Alike names writes env env' (.ok (x, env)) (.ok (x, env'))
  | written (x : String) (n : Number) (within : names x) (h : writes = true) :
    Alike names writes env env' (.ok (.name x, env.insert x n)) (.ok (.name x, env'.insert x n))

section Effects

variable {names : String → Prop} {writes : Bool} {env env' : Environment}

/-- Effects behind the same computation. -/
theorem Effect.Alike.bind {α : Type} (x : Except RunError α) {f g : α → Effect}
    (h : ∀ a, x = .ok a → Alike names writes env env' (f a) (g a)) :
    Alike names writes env env' (x >>= f) (x >>= g) := by
  cases x with
  | error e => exact .failure e
  | ok a => exact h a rfl

theorem Operand.within_number (names : String → Prop) (n : Number) :
    (Operand.number n).Within names := by
  simp [Within]

theorem Effect.alike_number (x : Except RunError Number) :
    Alike names writes env env' (x >>= fun n => .ok (.number n, env))
      (x >>= fun n => .ok (.number n, env')) :=
  .bind x fun n _ => .kept _ (Operand.within_number names n)

variable (agree : ∀ y, names y → env.get? y = env'.get? y)

include agree

theorem Operand.value_congr {x : Operand} (h : x.Within names) : x.value env = x.value env' := by
  cases x with
  | number n => rfl
  | name y => simp only [value, Environment.value, agree y (h y rfl)]

theorem Operand.mapM_value_congr {xs : List Operand} (h : ∀ x ∈ xs, x.Within names) :
    xs.mapM (·.value env) = xs.mapM (·.value env') := by
  induction xs with
  | nil => rfl
  | cons x xs ih =>
    rw [List.mapM_cons, List.mapM_cons, value_congr agree (h x List.mem_cons_self),
      ih fun y hy => h y (List.mem_cons_of_mem x hy)]

namespace Operator

variable (d : Operator)

theorem alike_update (b : Binary) {x : String} (hx : names x) (n : Number) :
    Effect.Alike names true env env' (d.update env b x n) (d.update env' b x n) := by
  have old : env.value x = env'.value x := by simp only [Environment.value, agree x hx]
  unfold update
  rw [old]
  refine .bind _ fun old _ => .bind _ fun new _ => ?_
  exact .written x new hx rfl

/-- A name that is counted up or down. -/
theorem alike_bump (b : Binary) {x : Operand} (hx : x.Within names) :
    Effect.Alike names true env env' (do d.update env b (← x.target d.symbol) (.integer 1))
      (do d.update env' b (← x.target d.symbol) (.integer 1)) := by
  refine .bind _ fun y hy => alike_update agree d b ?_ _
  cases x with
  | number n => cases hy
  | name x => exact Except.ok.inj hy ▸ hx x rfl

theorem alike_applyOne {x : Operand} (hx : x.Within names) :
    Effect.Alike names d.operation.writes env env' (d.applyOne env x) (d.applyOne env' x) := by
  unfold applyOne
  cases d.operation with
  | increment => exact alike_bump agree d .add hx
  | decrement => exact alike_bump agree d .subtract hx
  | _ =>
    rw [Operand.value_congr agree hx]
    exact .bind _ fun n _ => Effect.alike_number _

theorem alike_applyTwo {l r : Operand} (hl : l.Within names) (hr : r.Within names) :
    Effect.Alike names d.operation.writes env env' (d.applyTwo env l r) (d.applyTwo env' l r) := by
  unfold applyTwo
  rw [Operand.value_congr agree hr]
  cases d.operation with
  | assign combining =>
    refine .bind _ fun x hx => .bind _ fun n _ => ?_
    have target : names x := by
      cases l with
      | number n => cases hx
      | name y => exact Except.ok.inj hx ▸ hl y rfl
    cases combining with
    | none => exact .written x n target rfl
    | some b => exact alike_update agree d b target n
  | _ =>
    rw [Operand.value_congr agree hl]
    exact .bind _ fun a _ => .bind _ fun b _ => Effect.alike_number _

theorem alike_apply {xs : List Operand} (h : ∀ x ∈ xs, x.Within names) :
    Effect.Alike names d.operation.writes env env' (d.apply env xs) (d.apply env' xs) := by
  match xs with
  | [] => exact .failure _
  | [x] => exact alike_applyOne agree d (h x (by simp))
  | [l, r] => exact alike_applyTwo agree d (h l (by simp)) (h r (by simp))
  | _ :: _ :: _ :: _ => exact .failure _

end Operator

theorem FunctionTable.alike_call (functions : FunctionTable) (callee : Operand)
    {args : List Operand} (h : ∀ x ∈ args, x.Within names) :
    Effect.Alike names writes env env' (functions.call env callee args)
      (functions.call env' callee args) := by
  cases callee with
  | number n => exact .failure _
  | name f =>
    simp only [call]
    cases functions.get? f with
    | none => exact .failure _
    | some function =>
      simp only [Operand.mapM_value_congr agree h]
      exact .bind _ fun _ _ => .bind _ fun values _ => Effect.alike_number _

/-- From variables that agree on the names among the operands, an item has the same effect. -/
theorem Item.alike_effect (functions : FunctionTable) {item : Item}
    (own : ∀ y, item = .name y → names y) {xs : List Operand} (h : ∀ x ∈ xs, x.Within names) :
    Effect.Alike names item.writes env env' (item.effect functions env xs)
      (item.effect functions env' xs) := by
  cases item with
  | literal n => exact .kept _ (Operand.within_number names n)
  | name x =>
    refine .kept _ fun y hy => own y ?_
    rw [Operand.name.inj hy]
  | operator d => exact Operator.alike_apply agree d h
  | call arity =>
    cases xs with
    | nil => exact .failure _
    | cons callee args =>
      exact FunctionTable.alike_call agree functions callee
        fun x hx => h x (List.mem_cons_of_mem callee hx)
  | openParen => exact .failure _
  | closeParen => exact .failure _
  | comma => exact .failure _

end Effects

namespace Machine

variable (functions : FunctionTable) (m : Machine) (item : Item)

/-- Every step consumes operands for the effect of its item. -/
theorem step_eq_consume :
    m.step functions item = m.consume item.text item.taken (item.effect functions) := by
  cases item <;> rfl

theorem length_take_lt_iff {count : Nat} :
    (m.stack.take count).length < count ↔ m.stack.length < count := by
  rw [List.length_take]
  omega

/-- The operands that an item takes off the stack. -/
def operands : List Operand := (m.stack.take item.taken).reverse

theorem mem_operands {x : Operand} (h : x ∈ m.operands item) : x ∈ m.stack :=
  List.mem_of_mem_take (List.mem_reverse.mp h)

/-- All that a step can do: it lacks operands, or its effect fails, or the effect yields an operand
in the place of those taken. -/
inductive Stepped : Machine × Option RunError → Prop
  | short (h : m.stack.length < item.taken) :
    Stepped (⟨[], m.environment⟩, some (.notEnoughOperands item.text))
  | failed {e : RunError} (enough : item.taken ≤ m.stack.length)
    (h : item.effect functions m.environment (m.operands item) = .error e) :
    Stepped (⟨m.stack.drop item.taken, m.environment⟩, some e)
  | done {x : Operand} {env : Environment} (enough : item.taken ≤ m.stack.length)
    (h : item.effect functions m.environment (m.operands item) = .ok (x, env)) :
    Stepped (⟨x :: m.stack.drop item.taken, env⟩, none)

theorem stepped : m.Stepped functions item (m.step functions item) := by
  rw [step_eq_consume]
  unfold consume
  by_cases short : m.stack.length < item.taken
  · rw [if_pos (m.length_take_lt_iff.mpr short)]
    exact .short short
  · rw [if_neg (mt m.length_take_lt_iff.mp short)]
    cases h : item.effect functions m.environment (m.stack.take item.taken).reverse with
    | error e => exact .failed (Nat.le_of_not_lt short) h
    | ok yielded => exact .done (Nat.le_of_not_lt short) h

/-- Where an effect succeeds, the variables are as before, or the name that it yields is bound. -/
theorem written_of_effect {x : Operand} {env : Environment}
    (h : item.effect functions m.environment (m.operands item) = .ok (x, env)) :
    (∀ y, x = .name y → .name y ∈ m.stack ∨ item = .name y) ∧
      (env = m.environment ∨ item.writes = true ∧ ∃ name n, x = .name name ∧
        .name name ∈ m.stack ∧ env = m.environment.insert name n) := by
  have around : ∀ y : Operand, y ∈ m.operands item →
      y.Within fun name => .name name ∈ m.operands item ∨ item = .name name := by
    rintro y hy name rfl
    exact .inl hy
  have alike : Effect.Alike _ item.writes m.environment m.environment
      (item.effect functions m.environment (m.operands item)) _ :=
    Item.alike_effect (fun _ _ => rfl) functions (fun _ => .inr) around
  rw [h] at alike
  cases alike with
  | kept x within => exact ⟨fun y hy => (within y hy).imp_left (m.mem_operands item), .inl rfl⟩
  | written name n within writes =>
    -- A name writes nothing, so that what is written has been on the stack.
    have held : .name name ∈ m.stack := by
      rcases within with held | rfl
      · exact m.mem_operands item held
      · cases writes
    refine ⟨?_, .inr ⟨writes, name, n, rfl, held, rfl⟩⟩
    rintro y hy
    exact .inl (Operand.name.inj hy ▸ held)

/-- A step binds one name of the stack or none; to bind it, it has to succeed. -/
theorem step_environment :
    (m.step functions item).1.environment = m.environment ∨
      (m.step functions item).2 = none ∧ item.writes = true ∧ ∃ name n, .name name ∈ m.stack ∧
        (m.step functions item).1.environment = m.environment.insert name n := by
  have stepped := m.stepped functions item
  generalize m.step functions item = result at stepped
  cases stepped with
  | short => exact .inl rfl
  | failed => exact .inl rfl
  | done enough yields =>
    obtain ⟨-, written⟩ := m.written_of_effect functions item yields
    refine written.imp_right ?_
    rintro ⟨writes, name, n, -, held, bound⟩
    exact ⟨rfl, writes, name, n, held, bound⟩

/-- The names on the stack behind a step have been there, but for the item's own. -/
theorem name_mem_step {y : String} (h : .name y ∈ (m.step functions item).1.stack) :
    .name y ∈ m.stack ∨ item = .name y := by
  have stepped := m.stepped functions item
  generalize m.step functions item = result at stepped h
  cases stepped with
  | short => cases h
  | failed => exact .inl (List.mem_of_mem_drop h)
  | done enough yields =>
    rcases List.mem_cons.mp h with same | below
    · exact (m.written_of_effect functions item yields).1 y same.symm
    · exact .inl (List.mem_of_mem_drop below)

end Machine

end Calculator
