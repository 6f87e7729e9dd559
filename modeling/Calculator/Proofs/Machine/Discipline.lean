import Calculator.Proofs.Consistency.Running
import Calculator.Proofs.Machine
import Calculator.Proofs.Machine.Effect
import Mathlib.Data.List.Basic

namespace Calculator

/-- Failures for want of operands. -/
def RunError.Starved : RunError → Prop
  | .notEnoughOperands _ => True
  | _ => False

theorem RunError.Starved.internal {e : RunError} (h : e.Starved) : e.Internal := by
  cases e <;> trivial

/-- No function of the table says that the machine lacks operands. -/
def FunctionTable.Fed (functions : FunctionTable) : Prop :=
  ∀ name function, functions.get? name = some function →
    ∀ args, Avoids RunError.Starved (function.run args)

namespace Item

/-- Items that no sequence in postfix order has. -/
def Structural (item : Item) : Prop := item = .openParen ∨ item = .closeParen ∨ item = .comma

/-- Literals, names, operators of the standard table and calls. -/
def Standard : Item → Prop
  | .operator d => d ∈ OperatorTable.standard.definitions
  | .openParen | .closeParen | .comma => False
  | _ => True

/-- How many operands an item has: those of its definition, or the callee and the arguments. -/
def operands : Item → Nat
  | .operator d => d.operands
  | .call arity => arity + 1
  | _ => 0

theorem taken_eq_operands {item : Item} (h : item.Standard) : item.taken = item.operands := by
  have listed : ∀ d ∈ OperatorTable.standard.definitions, d.taken = d.operands := by decide
  cases item with
  | operator d => exact listed d h
  | _ => rfl

end Item

section Starving

theorem avoids_starved {α : Type} {x : Except RunError α} (h : Avoids RunError.Internal x) :
    Avoids RunError.Starved x :=
  fun e found starved => h e found starved.internal

theorem avoids_of_quiet {effect : Environment → Effect}
    (h : Evaluating.Quiet (Evaluating.ofEffect effect)) (env : Environment) :
    Avoids RunError.Starved (effect env) := by
  intro e failed starved
  have quiet := h env
  rw [Evaluating.run_ofEffect, failed] at quiet
  exact avoids_error.mp quiet starved.internal

/-- With as many operands as it takes, a standard operator does not ask for more. -/
theorem Operator.avoids_apply {d : Operator} (h : d ∈ OperatorTable.standard.definitions)
    (env : Environment) {xs : List Operand} (enough : xs.length = d.taken) :
    Avoids RunError.Starved (d.apply env xs) := by
  have forOne : ∀ d ∈ OperatorTable.standard.definitions,
      d.taken = 1 → d.operation.forOne = true := by decide
  have forTwo : ∀ d ∈ OperatorTable.standard.definitions,
      d.taken = 2 → d.operation.forTwo = true := by decide
  have few : ∀ d ∈ OperatorTable.standard.definitions, d.taken = 1 ∨ d.taken = 2 := by decide
  rcases few d h with one | two
  · obtain ⟨x, rfl⟩ := List.length_eq_one_iff.mp (enough.trans one)
    have quiet := Evaluating.quiet_unary (forOne d h one) x
    rw [Evaluating.unary_eq] at quiet
    exact avoids_of_quiet quiet env
  · obtain ⟨l, r, rfl⟩ := List.length_eq_two.mp (enough.trans two)
    have quiet := Evaluating.quiet_binary (forTwo d h two) l r
    rw [Evaluating.binary_eq] at quiet
    exact avoids_of_quiet quiet env

theorem FunctionTable.avoids_call {functions : FunctionTable} (fed : functions.Fed)
    (env : Environment) (callee : Operand) (args : List Operand) :
    Avoids RunError.Starved (functions.call env callee args) := by
  cases callee with
  | number n => simp [call, RunError.Starved]
  | name f =>
    simp only [call]
    cases found : functions.get? f with
    | none => simp [RunError.Starved]
    | some function =>
      have resolved : Avoids RunError.Internal (args.mapM (·.value env)) := by
        have quiet := Evaluating.quiet_mapM_resolve args env
        rwa [Evaluating.run_mapM_resolve] at quiet
      refine avoids_bind ?_ fun _ _ => ?_
      · unfold checkArity
        split <;> simp [RunError.Starved]
      · refine avoids_bind (avoids_starved resolved) fun values _ => ?_
        exact avoids_bind (fed f function found values) fun n _ => avoids_ok _ _

/-- With as many operands as it takes, no item asks for more. -/
theorem Item.avoids_effect {functions : FunctionTable} (fed : functions.Fed) {item : Item}
    (standard : item.Standard) (env : Environment) {xs : List Operand}
    (enough : xs.length = item.taken) :
    Avoids RunError.Starved (item.effect functions env xs) := by
  cases item with
  | literal n => exact avoids_ok _ _
  | name x => exact avoids_ok _ _
  | operator d => exact Operator.avoids_apply standard env enough
  | call arity =>
    obtain ⟨callee, args, rfl⟩ := List.exists_cons_of_length_eq_add_one enough
    exact FunctionTable.avoids_call fed env callee args
  | _ => exact standard.elim

end Starving

namespace Machine

/-- One operand stands in the place of those of an item, and at most one name is bound anew: the
operand itself, by an operator that writes. -/
def Replaces (m m' : Machine) (item : Item) : Prop :=
  item.operands ≤ m.stack.length ∧ ∃ x : Operand,
    m'.stack = x :: m.stack.drop item.operands ∧
      (m'.environment = m.environment ∨
        item.writes = true ∧ ∃ name n, x = .name name ∧
          m'.environment = m.environment.insert name n)

/-- At most the operands of an item are gone, and no name is bound anew. -/
def Loses (m m' : Machine) (item : Item) : Prop :=
  m'.environment = m.environment ∧ ∃ n ≤ item.operands, m'.stack = m.stack.drop n

/-- Steps through a whole sequence, also on behind failures. -/
def stepAll (functions : FunctionTable) (m : Machine) (items : List Item) : Machine :=
  items.foldl (fun m item => (m.step functions item).1) m

/-- The items of a sequence whose steps succeed. -/
def succeeding (functions : FunctionTable) (m : Machine) : List Item → List Item
  | [] => []
  | item :: items =>
    let (m, failure) := m.step functions item
    (if failure.isNone then [item] else []) ++ m.succeeding functions items

section Steps

variable (functions : FunctionTable) (m : Machine) (item : Item)

theorem step_structural {item : Item} (h : item.Structural) :
    m.step functions item = (m, some (.structuralToken item.text)) := by
  rcases h with rfl | rfl | rfl <;> rfl

theorem length_operands (enough : item.taken ≤ m.stack.length) :
    (m.operands item).length = item.taken := by
  simp [operands, enough]

theorem replaces_of_step {item : Item} (standard : item.Standard) {m' : Machine}
    (h : m.step functions item = (m', none)) : m.Replaces m' item := by
  have stepped := m.stepped functions item
  rw [h] at stepped
  cases stepped with
  | @done x env enough yields =>
    rw [Item.taken_eq_operands standard] at *
    obtain ⟨-, written⟩ := m.written_of_effect functions item yields
    refine ⟨enough, x, rfl, written.imp_right ?_⟩
    rintro ⟨writes, name, n, hx, -, bound⟩
    exact ⟨writes, name, n, hx, bound⟩

theorem loses_of_step {item : Item} (standard : item.Standard) {m' : Machine} {e : RunError}
    (h : m.step functions item = (m', some e)) : m.Loses m' item := by
  have stepped := m.stepped functions item
  rw [h] at stepped
  cases stepped with
  | short few =>
    rw [Item.taken_eq_operands standard] at few
    exact ⟨rfl, m.stack.length, Nat.le_of_lt few, (List.drop_length).symm⟩
  | failed => exact ⟨rfl, item.taken, Nat.le_of_eq (Item.taken_eq_operands standard), rfl⟩

theorem notEnoughOperands_iff {functions : FunctionTable} (fed : functions.Fed) {item : Item}
    (standard : item.Standard) :
    (∃ consumer, (m.step functions item).2 = some (.notEnoughOperands consumer)) ↔
      m.stack.length < item.operands := by
  rw [← Item.taken_eq_operands standard]
  have stepped := m.stepped functions item
  generalize m.step functions item = result at stepped
  cases stepped with
  | short few => simp [few]
  | done enough => simp [enough]
  | @failed e enough fails =>
    have quiet := Item.avoids_effect fed standard m.environment (m.length_operands item enough)
    have fed : ∀ consumer, e ≠ .notEnoughOperands consumer := by
      rintro consumer rfl
      exact quiet _ fails trivial
    simp [fed, enough]

end Steps

end Machine

/-- Nothing that is there is lost by inserting. -/
theorem Directory.contains_insertAll {α : Type} {d : Directory α} {name : String}
    (h : d.contains name = true) (es : List (String × α)) :
    (d.insertAll es).contains name = true := by
  induction es generalizing d with
  | nil => exact h
  | cons e es ih =>
    refine ih ?_
    rw [contains, get?_insert]
    split
    · rfl
    · exact h

/-- Over any sequence of steps, names are bound by operators that write and succeed, and only names
that have been on the stack. -/
theorem Machine.written_of_stepAll (functions : FunctionTable) (m : Machine) (items : List Item) :
    ∃ writes, (m.stepAll functions items).environment = m.environment.insertAll writes ∧
      writes.length ≤ (m.succeeding functions items).countP Item.writes ∧
      ∀ w ∈ writes, Operand.name w.1 ∈ m.stack ∨ Item.name w.1 ∈ items := by
  induction items generalizing m with
  | nil => exact ⟨[], rfl, Nat.zero_le _, by simp⟩
  | cons item items ih =>
    rw [stepAll, List.foldl_cons, succeeding, List.countP_append]
    obtain ⟨later, bound, few, named⟩ := ih (m.step functions item).1
    have around : ∀ w ∈ later, Operand.name w.1 ∈ m.stack ∨ Item.name w.1 ∈ item :: items := by
      intro w hw
      rcases named w hw with below | ahead
      · rcases m.name_mem_step functions item below with below | rfl
        · exact .inl below
        · exact .inr List.mem_cons_self
      · exact .inr (List.mem_cons_of_mem item ahead)
    rcases m.step_environment functions item with same | ⟨done, writes, name, n, held, written⟩
    · rw [same] at bound
      exact ⟨later, bound, Nat.le_add_left_of_le few, around⟩
    · rw [written] at bound
      refine ⟨(name, n) :: later, bound, ?_, List.forall_mem_cons.mpr ⟨.inl held, around⟩⟩
      have counted : [item].countP Item.writes = 1 := by simp [writes]
      rw [done, List.length_cons, Option.isNone_none, if_pos rfl, counted, Nat.add_comm]
      exact Nat.add_le_add_left few 1

namespace Machine

section Attempts

variable (size : ℕ) (functions : FunctionTable) (m : Machine)

/-- What a step on a literal, a name, an operator or a call is to do: it ends, the operands are
replaced by one where it succeeds and at most lost where it fails, and it fails for want of operands
exactly where there are too few. -/
structure Disciplined (item : Item) : Prop where
  ends : (m.attempt size functions item).isSome = true
  replaces : ∀ m', m.attempt size functions item = some (m', none) → m.Replaces m' item
  loses : ∀ m' e, m.attempt size functions item = some (m', some e) → m.Loses m' item
  starves : functions.Fed →
    ((∃ m' consumer, m.attempt size functions item =
        some (m', some (.notEnoughOperands consumer))) ↔
      m.stack.length < item.operands)

/-- Goes on behind failures, unless the program breaks off. -/
def attemptAll (items : List Item) : Option Machine :=
  items.foldlM (fun m item => (m.attempt size functions item).map Prod.fst) m

variable {size} {item : Item} {items : List Item}

theorem attempt_of_room (room : item.hasRoom size = true) :
    m.attempt size functions item = some (m.step functions item) :=
  if_pos room

theorem attempt_of_no_room (full : item.hasRoom size = false) :
    m.attempt size functions item = none :=
  if_neg (by simp [full])

theorem disciplined_of_room (standard : item.Standard) (room : item.hasRoom size = true) :
    m.Disciplined size functions item where
  ends := by rw [m.attempt_of_room functions room, Option.isSome_some]
  replaces m' h := by
    rw [m.attempt_of_room functions room] at h
    exact m.replaces_of_step functions standard (Option.some.inj h)
  loses m' e h := by
    rw [m.attempt_of_room functions room] at h
    exact m.loses_of_step functions standard (Option.some.inj h)
  starves fed := by
    rw [← m.notEnoughOperands_iff fed standard, m.attempt_of_room functions room]
    cases m.step functions item
    simp

theorem attemptAll_of_room (room : ∀ item ∈ items, item.hasRoom size = true) :
    m.attemptAll size functions items = some (m.stepAll functions items) := by
  induction items generalizing m with
  | nil => rfl
  | cons item items ih =>
    obtain ⟨first, later⟩ := List.forall_mem_cons.mp room
    rw [attemptAll, List.foldlM_cons, m.attempt_of_room functions first]
    exact ih _ later

theorem attemptAll_of_no_room (full : ∃ item ∈ items, item.hasRoom size = false) :
    m.attemptAll size functions items = none := by
  induction items generalizing m with
  | nil => simp at full
  | cons item items ih =>
    rw [attemptAll, List.foldlM_cons]
    cases room : item.hasRoom size with
    | false =>
      rw [m.attempt_of_no_room functions room]
      rfl
    | true =>
      rw [m.attempt_of_room functions room]
      refine ih _ ?_
      simpa [room] using full

end Attempts

end Machine

/-- Every step that has room keeps the stack and the variables in order. One that succeeds replaces
its operands by one and binds at most the name that this is; one that fails binds nothing and loses
at most its operands; it is for want of operands exactly where there are too few; and parentheses
and commas change nothing. Without room the program breaks off, whatever is on the stack. Over any
sequence of steps no binding is lost, and only names from the stack or the sequence are bound, each
by an operator that writes and succeeds. -/
theorem step_discipline (size : ℕ) (functions : FunctionTable) (m : Machine) :
    (∀ item : Item, item.Structural →
      m.attempt size functions item = some (m, some (.structuralToken item.text))) ∧
    (∀ item : Item, item.Standard →
      (item.hasRoom size = true → m.Disciplined size functions item) ∧
      (item.hasRoom size = false → m.attempt size functions item = none)) ∧
    ∀ items : List Item,
      ((∃ item ∈ items, item.hasRoom size = false) → m.attemptAll size functions items = none) ∧
      ((∀ item ∈ items, item.hasRoom size = true) →
        ∃ m', m.attemptAll size functions items = some m' ∧
          (∀ name, m.environment.contains name = true → m'.environment.contains name = true) ∧
          ∃ writes, m'.environment = m.environment.insertAll writes ∧
            writes.length ≤ (m.succeeding functions items).countP Item.writes ∧
            ∀ w ∈ writes, Operand.name w.1 ∈ m.stack ∨ Item.name w.1 ∈ items) := by
  refine ⟨fun item h => ?_, fun item standard => ⟨?_, ?_⟩, fun items => ⟨?_, fun room => ?_⟩⟩
  · have room : item.hasRoom size = true := by rcases h with rfl | rfl | rfl <;> rfl
    rw [m.attempt_of_room functions room, m.step_structural functions h]
  · exact m.disciplined_of_room functions standard
  · exact m.attempt_of_no_room functions
  · exact m.attemptAll_of_no_room functions
  · obtain ⟨writes, bound, few, named⟩ := m.written_of_stepAll functions items
    refine ⟨_, m.attemptAll_of_room functions room, fun name held => ?_, writes, bound, few, named⟩
    rw [bound]
    exact Directory.contains_insertAll held writes

theorem FunctionTable.fed_standard : standard.Fed :=
  fun name function found args => avoids_starved (quiet_standard name function found args)

/-- With the name `x` above a number, `x++` leaves the number alone and binds `x`; a comma behind it
fails, a second `x++` succeeds, and on the empty stack `++` lacks its operand. There is no room for
as many arguments as there can be bytes. -/
theorem step_discipline_increment :
    let m : Machine := ⟨[.name "x", .number (.integer 7)], Directory.empty.insert "x" (.integer 1)⟩
    let increment : Item := .operator (.after "++" .increment)
    let items : List Item := [increment, .comma, increment]
    let call : Item := .call greatestRoom
    FunctionTable.standard.Fed ∧ increment.Standard ∧ call.Standard ∧ Item.comma.Structural ∧
      (∀ item ∈ items, item.hasRoom 24 = true) ∧ call.hasRoom 24 = false ∧
      m.Replaces (m.step .standard increment).1 increment ∧
      m.attempt 24 .standard .comma = some (m, some (.structuralToken ",")) ∧
      (∃ m' consumer, (Machine.start m.environment).attempt 24 .standard increment =
        some (m', some (.notEnoughOperands consumer))) ∧
      m.attempt 24 .standard call = none ∧ m.attemptAll 24 .standard (call :: items) = none ∧
      ∃ m', m.attemptAll 24 .standard items = some m' ∧ m'.environment.contains "x" = true := by
  intro m increment items call
  have standard : increment.Standard := by
    simp [increment, Item.Standard, OperatorTable.standard]
  have structural : Item.comma.Structural := by simp [Item.Structural]
  have fed := FunctionTable.fed_standard
  have room : ∀ item ∈ items, item.hasRoom 24 = true := by
    simp [items, increment, Item.hasRoom]
  have full : call.hasRoom 24 = false := by decide
  obtain ⟨structurally, steps, runs⟩ := step_discipline 24 .standard m
  obtain ⟨-, starting, -⟩ := step_discipline 24 .standard (.start m.environment)
  have stepped : m.attempt 24 .standard increment =
      some ((m.step .standard increment).1, none) := rfl
  obtain ⟨m', ended, kept, -⟩ := (runs items).2 room
  exact ⟨fed, standard, trivial, structural, room, full,
    ((steps increment standard).1 rfl).replaces _ stepped, structurally .comma structural,
    (((starting increment standard).1 rfl).starves fed).mpr (by decide),
    (steps call trivial).2 full, (runs (call :: items)).1 ⟨call, List.mem_cons_self, full⟩,
    m', ended, kept "x" rfl⟩

/-- If an operand has more than one byte, a call of as many arguments as there can be bytes breaks the
program off on the empty stack, where it is to fail for want of operands. -/
theorem not_step_discipline :
    ¬ ∃ size, 1 < size ∧ ∀ (functions : FunctionTable) (m : Machine) (item : Item),
      item.Standard → m.Disciplined size functions item := by
  rintro ⟨size, wide, always⟩
  let call : Item := .call greatestRoom
  have full : call.hasRoom size = false := by
    have wanted : greatestRoom * 2 ≤ greatestRoom * size := Nat.mul_le_mul_left _ wide
    have more : greatestRoom < greatestRoom * size := Nat.lt_of_lt_of_le (by decide) wanted
    exact decide_eq_false (Nat.not_le.mpr more)
  have stopped := (Machine.start .empty).attempt_of_no_room .standard full
  have starved := (always .standard (.start .empty) call trivial).starves FunctionTable.fed_standard
  obtain ⟨m', consumer, failed⟩ := starved.mpr (Nat.succ_pos _)
  rw [stopped] at failed
  cases failed

end Calculator
