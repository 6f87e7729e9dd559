import Calculator.Proofs.Exact.Arithmetic

namespace Calculator

open Exact (Stop)

inductive Operand.Is : Operand → Exact.Operand → Prop
  | number {x : Number} {n : Int} (h : x.Is n) : Is (.number x) (.number n)
  | name (x : String) : Is (.name x) (.name x)

/-- The variables are bound to whole numbers of these values. -/
def Environment.Is (env : Environment) (store : Exact.Store) : Prop :=
  ∀ x, Option.Rel Number.Is (env.get? x) (store x)

structure Machine.Is (m : Machine) (r : Exact.Machine) : Prop where
  stack : List.Forall₂ Operand.Is m.stack r.stack
  environment : m.environment.Is r.store

inductive Evaluation.Is : Evaluation → Exact.Evaluation → Prop
  | empty : Is .empty .empty
  | value {x : Number} {n : Int} (h : x.Is n) : Is (.value x) (.value n)
  | variable (name : String) {x : Number} {n : Int} (h : x.Is n) :
    Is (.variable name x) (.variable name n)

namespace Exact

def Operand.Fits : Operand → Prop
  | number n => Exact.Fits n
  | name _ => True

def Store.Fits (store : Store) : Prop := ∀ x n, store x = some n → Exact.Fits n

/-- 64 bits hold every number on the stack and in a variable. -/
def Machine.Fits (r : Machine) : Prop := (∀ x ∈ r.stack, x.Fits) ∧ r.store.Fits

end Exact

/-- Every variable is bound to a whole number. -/
def Environment.Whole (env : Environment) : Prop :=
  ∀ x n, env.get? x = some n → ∃ k, n = .integer k

/-- The whole numbers that variables are bound to. -/
def Environment.exact (env : Environment) : Exact.Store := fun x =>
  match env.get? x with
  | some (.integer k) => some k.toInt
  | _ => none

/-- Whole literals, names and operators that find no quotient with a fraction. -/
def Item.Whole : Item → Prop
  | .literal (.integer _) | .name _ => True
  | .operator d => d.operation ≠ .binary .divide ∧ d.operation ≠ .assign (some .divide)
  | _ => False

/-- Two machines that agree before every step of a sequence, until both fail alike, or the exact one
comes to the first number that 64 bits do not hold and the other overflows. Nothing is said from a
negative exponent on. -/
inductive Lockstep (functions : FunctionTable) : Machine → Exact.Machine → List Item → Prop
  | done {m : Machine} {r : Exact.Machine} {v : Evaluation} {w : Exact.Evaluation}
    (agree : m.Is r) (found : m.result = .ok v) (exact : r.result = .ok w) (same : v.Is w) :
    Lockstep functions m r []
  | unfinished {m : Machine} {r : Exact.Machine} {cause : RunError}
    (agree : m.Is r) (failed : m.result = .error cause) (exact : r.result = .error (.fault cause)) :
    Lockstep functions m r []
  | next {m m' : Machine} {r r' : Exact.Machine} {item : Item} {items : List Item}
    (agree : m.Is r) (step : m.step functions item = (m', none)) (exact : r.step item = (r', none))
    (small : r'.Fits) (rest : Lockstep functions m' r' items) :
    Lockstep functions m r (item :: items)
  | fault {m m' : Machine} {r r' : Exact.Machine} {item : Item} {items : List Item}
    {cause : RunError} (agree : m.Is r) (step : m.step functions item = (m', some cause))
    (exact : r.step item = (r', some (.fault cause))) (agree' : m'.Is r') :
    Lockstep functions m r (item :: items)
  | overflow {m m' : Machine} {r r' : Exact.Machine} {item : Item} {items : List Item}
    {below : List Exact.Operand} (agree : m.Is r)
    (step : m.step functions item = (m', some (.overflow item.text)))
    (exact : r.step item = (r', none)) (large : ¬ r'.Fits) (kept : m'.Is ⟨below, r.store⟩) :
    Lockstep functions m r (item :: items)
  | negative {m : Machine} {r r' : Exact.Machine} {item : Item} {items : List Item}
    (agree : m.Is r) (exact : r.step item = (r', some .negativeExponent)) :
    Lockstep functions m r (item :: items)

namespace Follows

variable {α β α' β' : Type} {symbol : String} {stands : α → β → Prop} {stands' : α' → β' → Prop}
  {fits : β → Prop} {fits' : β' → Prop} {x : Except RunError α} {y : Except Stop β}

/-- What comes behind something that cannot overflow. -/
theorem bind (first : Follows symbol stands (fun _ => True) x y)
    {f : α → Except RunError α'} {g : β → Except Stop β'}
    (later : ∀ a b, stands a b → Follows symbol stands' fits' (f a) (g b)) :
    Follows symbol stands' fits' (x >>= f) (y >>= g) := by
  cases first with
  | value h => exact later _ _ h
  | overflow large => exact absurd trivial large
  | fault cause => exact .fault cause
  | negative => exact .negative _

theorem map (first : Follows symbol stands fits x y) {f : α → α'} {g : β → β'}
    (same : ∀ a b, stands a b → stands' (f a) (g b)) (large : ∀ b, ¬ fits b → ¬ fits' (g b)) :
    Follows symbol stands' fits' (x >>= fun a => .ok (f a)) (y >>= fun b => .ok (g b)) := by
  cases first with
  | value h => exact .value (same _ _ h)
  | overflow h => exact .overflow (large _ h)
  | fault cause => exact .fault cause
  | negative => exact .negative _

end Follows

/-- The effect of an operator follows an exact one. -/
abbrev Effect.Follows (symbol : String) : Effect → Exact.Effect → Prop :=
  Calculator.Follows symbol (fun p q => p.1.Is q.1 ∧ p.2.Is q.2) (fun q => q.1.Fits ∧ q.2.Fits)

section Operators

variable {env : Environment} {store : Exact.Store}

theorem Environment.is_insert (same : env.Is store) (x : String) {a : Number} {n : Int}
    (h : a.Is n) : Environment.Is (env.insert x a) (store.set x n) := by
  intro y
  rw [Directory.get?_insert, Exact.Store.set]
  split
  · exact .some h
  · exact same y

theorem Exact.not_fits_set {n : Int} (h : ¬ Fits n) (x : String) : ¬ (store.set x n).Fits := by
  intro fits
  exact h (fits x n (by simp [Store.set]))

theorem Operand.follows_value (symbol : String) (same : env.Is store) {x : Operand}
    {y : Exact.Operand} (h : x.Is y) :
    Follows symbol Number.Is (fun _ => True) (x.value env) (y.value store) := by
  cases h with
  | number h => exact .value h
  | name x =>
    have bound := same x
    simp only [value, Environment.value, Exact.Operand.value]
    generalize env.get? x = found, store x = exact at bound
    cases bound with
    | none => exact .fault _
    | some h => exact .value h

theorem Operand.follows_target (symbol : String) {x : Operand} {y : Exact.Operand} (h : x.Is y) :
    Follows symbol Eq (fun _ => True) (x.target symbol) (y.target symbol) := by
  cases h with
  | number h =>
    obtain ⟨k, rfl, rfl⟩ := h
    exact .fault _
  | name x => exact .value rfl

theorem Operator.follows_update (d : Operator) (same : env.Is store) {b : Binary}
    (whole : b ≠ .divide) (x : String) {a : Number} {n : Int} (h : a.Is n) :
    Effect.Follows d.symbol (d.update env b x a) (Exact.update d.symbol store b x n) := by
  have old := Operand.follows_value d.symbol same (.name x)
  refine old.bind fun l o hl => ?_
  refine (b.follows d.symbol whole hl h).map ?_ ?_
  · exact fun new r hr => ⟨.name x, Environment.is_insert same x hr⟩
  · exact fun r large fits => Exact.not_fits_set large x fits.2

/-- A name that is counted up or down. -/
theorem Operator.follows_bump (d : Operator) (same : env.Is store) {b : Binary}
    (whole : b ≠ .divide) {x : Operand} {y : Exact.Operand} (h : x.Is y) :
    Effect.Follows d.symbol (do d.update env b (← x.target d.symbol) (.integer 1))
      (do Exact.update d.symbol store b (← y.target d.symbol) 1) := by
  refine (Operand.follows_target d.symbol h).bind fun x y hx => ?_
  subst hx
  exact d.follows_update same whole x (Number.is_integer 1)

theorem Operator.follows_applyOne (d : Operator) (same : env.Is store) {x : Operand}
    {y : Exact.Operand} (h : x.Is y) :
    Effect.Follows d.symbol (d.applyOne env x) (Exact.applyOne d store y) := by
  have value := Operand.follows_value d.symbol same h
  unfold applyOne Exact.applyOne
  cases d.operation with
  | increment => exact d.follows_bump same (by simp) h
  | decrement => exact d.follows_bump same (by simp) h
  | unary u =>
    refine value.bind fun a n ha => ?_
    refine (u.follows d.symbol ha).map ?_ ?_
    · exact fun new r hr => ⟨.number hr, same⟩
    · exact fun r large fits => large fits.1
  | binary | assign => exact value.bind fun a n ha => .fault _

theorem Operator.follows_applyTwo (d : Operator)
    (whole : d.operation ≠ .binary .divide ∧ d.operation ≠ .assign (some .divide))
    (same : env.Is store) {l r : Operand} {l' r' : Exact.Operand} (hl : l.Is l') (hr : r.Is r') :
    Effect.Follows d.symbol (d.applyTwo env l r) (Exact.applyTwo d store l' r') := by
  have left := Operand.follows_value d.symbol same hl
  have right := Operand.follows_value d.symbol same hr
  unfold applyTwo Exact.applyTwo
  cases hop : d.operation with
  | assign combining =>
    refine (Operand.follows_target d.symbol hl).bind fun x y hx => ?_
    subst hx
    refine right.bind fun a n ha => ?_
    cases combining with
    | none => exact .value ⟨.name x, Environment.is_insert same x ha⟩
    | some b => exact d.follows_update same (by rintro rfl; exact whole.2 hop) x ha
  | binary b =>
    refine left.bind fun a n ha => right.bind fun c o hc => ?_
    refine (b.follows d.symbol (by rintro rfl; exact whole.1 hop) ha hc).map ?_ ?_
    · exact fun new r hr => ⟨.number hr, same⟩
    · exact fun r large fits => large fits.1
  | unary | increment | decrement =>
    exact left.bind fun a n ha => right.bind fun c o hc => .fault _

theorem Operator.follows_apply (d : Operator)
    (whole : d.operation ≠ .binary .divide ∧ d.operation ≠ .assign (some .divide))
    (same : env.Is store) {xs : List Operand} {ys : List Exact.Operand}
    (h : List.Forall₂ Operand.Is xs ys) :
    Effect.Follows d.symbol (d.apply env xs) (Exact.apply d store ys) := by
  match xs, ys, h with
  | [], [], _ => exact .fault _
  | [x], [y], .cons h _ => exact d.follows_applyOne same h
  | [l, r], [l', r'], .cons hl (.cons hr _) => exact d.follows_applyTwo whole same hl hr
  | _ :: _ :: _ :: _, _ :: _ :: _ :: _, _ => exact .fault _

end Operators

section Steps

variable {functions : FunctionTable} {m : Machine} {r : Exact.Machine}

theorem Operand.Is.fits {x : Operand} {y : Exact.Operand} (h : x.Is y) : y.Fits := by
  cases h with
  | number h => exact h.fits
  | name x => trivial

theorem Operand.fits_of_forall₂ {xs : List Operand} {ys : List Exact.Operand}
    (h : List.Forall₂ Operand.Is xs ys) : ∀ y ∈ ys, y.Fits := by
  induction h with
  | nil => simp
  | cons first _ ih => exact List.forall_mem_cons.mpr ⟨first.fits, ih⟩

theorem Environment.Is.fits {env : Environment} {store : Exact.Store} (same : env.Is store) :
    store.Fits := by
  intro x n bound
  have stands := same x
  rw [bound] at stands
  generalize env.get? x = found at stands
  cases stands with
  | some h => exact h.fits

/-- A number that the machine holds is not out of range. -/
theorem Machine.Is.fits (agree : m.Is r) : r.Fits :=
  ⟨Operand.fits_of_forall₂ agree.stack, agree.environment.fits⟩

theorem Machine.step_operator (functions : FunctionTable) {m : Machine} {d : Operator}
    (enough : ¬ (m.stack.take d.taken).length < d.taken) :
    m.step functions (.operator d) =
      match d.apply m.environment (m.stack.take d.taken).reverse with
      | .ok (x, env) => (⟨x :: m.stack.drop d.taken, env⟩, none)
      | .error e => (⟨m.stack.drop d.taken, m.environment⟩, some e) :=
  if_neg enough

theorem Exact.Machine.step_operator {r : Machine} {d : Operator}
    (enough : ¬ (r.stack.take d.taken).length < d.taken) :
    r.step (.operator d) =
      match Exact.apply d r.store (r.stack.take d.taken).reverse with
      | .ok (x, store) => (⟨x :: r.stack.drop d.taken, store⟩, none)
      | .error stop => (⟨r.stack.drop d.taken, r.store⟩, some stop) :=
  if_neg enough

theorem Machine.step_short (functions : FunctionTable) {m : Machine} {d : Operator}
    (short : (m.stack.take d.taken).length < d.taken) :
    m.step functions (.operator d) =
      (⟨[], m.environment⟩, some (.notEnoughOperands d.symbol)) :=
  if_pos short

theorem Exact.Machine.step_short {r : Machine} {d : Operator}
    (short : (r.stack.take d.taken).length < d.taken) :
    r.step (.operator d) = (⟨[], r.store⟩, some (.fault (.notEnoughOperands d.symbol))) :=
  if_pos short

/-- Both machines apply an operator, or both lack operands. -/
theorem Lockstep.operator {d : Operator} {items : List Item} (agree : m.Is r)
    (whole : (Item.operator d).Whole)
    (rest : ∀ m' r', m'.Is r' → Lockstep functions m' r' items) :
    Lockstep functions m r (.operator d :: items) := by
  have top := List.forall₂_take d.taken agree.stack
  have below := List.forall₂_drop d.taken agree.stack
  by_cases short : (m.stack.take d.taken).length < d.taken
  · have short' : (r.stack.take d.taken).length < d.taken := top.length_eq ▸ short
    exact .fault agree (Machine.step_short functions short) (Exact.Machine.step_short short')
      ⟨.nil, agree.environment⟩
  · have enough' : ¬ (r.stack.take d.taken).length < d.taken := top.length_eq ▸ short
    have stepped := Machine.step_operator functions short
    have stepped' := Exact.Machine.step_operator enough'
    have effect := d.follows_apply whole agree.environment (List.rel_reverse top)
    generalize d.apply m.environment (m.stack.take d.taken).reverse = e,
      Exact.apply d r.store (r.stack.take d.taken).reverse = f at effect stepped stepped'
    cases effect with
    | @value p q same =>
      have agree' : Machine.Is ⟨p.1 :: m.stack.drop d.taken, p.2⟩
          ⟨q.1 :: r.stack.drop d.taken, q.2⟩ := ⟨.cons same.1 below, same.2⟩
      exact .next agree stepped stepped' agree'.fits (rest _ _ agree')
    | overflow large =>
      refine .overflow agree stepped stepped' ?_ ⟨below, agree.environment⟩
      exact fun fits => large ⟨fits.1 _ List.mem_cons_self, fits.2⟩
    | fault cause => exact .fault agree stepped stepped' ⟨below, agree.environment⟩
    | negative e => exact .negative agree stepped'

/-- One step of both machines, from which the rest goes on. -/
theorem Lockstep.cons {item : Item} {items : List Item} (agree : m.Is r) (whole : item.Whole)
    (rest : ∀ m' r', m'.Is r' → Lockstep functions m' r' items) :
    Lockstep functions m r (item :: items) := by
  match item, whole with
  | .literal (.integer k), _ =>
    have agree' : Machine.Is (m.push (.number (.integer k))) (r.push (.number k.toInt)) :=
      ⟨.cons (.number (Number.is_integer k)) agree.stack, agree.environment⟩
    exact .next agree rfl rfl agree'.fits (rest _ _ agree')
  | .name x, _ =>
    have agree' : Machine.Is (m.push (.name x)) (r.push (.name x)) :=
      ⟨.cons (.name x) agree.stack, agree.environment⟩
    exact .next agree rfl rfl agree'.fits (rest _ _ agree')
  | .operator d, whole => exact .operator agree whole rest

/-- Where the sequence ends, both machines have the same result or lack one for the same cause. -/
theorem Lockstep.nil (agree : m.Is r) : Lockstep functions m r [] := by
  obtain ⟨stack, env⟩ := m
  obtain ⟨stack', store⟩ := r
  have pairs := agree.stack
  match stack, stack', pairs with
  | [], [], _ => exact .done agree rfl rfl .empty
  | [.number x], [.number n], .cons (.number h) _ => exact .done agree rfl rfl (.value h)
  | [.name x], [.name _], .cons (.name _) _ =>
    have value : Follows "" Number.Is (fun _ => True) (env.value x)
        ((Exact.Operand.name x).value store) :=
      Operand.follows_value "" agree.environment (.name x)
    have result : (⟨[.name x], env⟩ : Machine).result = (env.value x).map (.variable x) := rfl
    have result' : (⟨[.name x], store⟩ : Exact.Machine).result =
        ((Exact.Operand.name x).value store).map (.variable x) := rfl
    generalize env.value x = v, hw : (Exact.Operand.name x).value store = w
      at value result result'
    cases value with
    | value h => exact .done agree result result' (.variable x h)
    | overflow large => exact absurd trivial large
    | fault cause => exact .unfinished agree result result'
    | negative v =>
      simp only [Exact.Operand.value] at hw
      split at hw <;> cases hw
  | x :: y :: rest, x' :: y' :: rest', pairs =>
    have alone : (⟨x :: y :: rest, env⟩ : Machine).result =
        .error (.missingOperators (x :: y :: rest).length) := by cases x <;> rfl
    have alone' : (⟨x' :: y' :: rest', store⟩ : Exact.Machine).result =
        .error (.fault (.missingOperators (x :: y :: rest).length)) := by
      rw [pairs.length_eq]
      cases x' <;> rfl
    exact .unfinished agree alone alone'

/-- Machines that agree go on in lockstep. -/
theorem lockstep_of_agree (items : List Item) (whole : ∀ item ∈ items, item.Whole)
    (agree : m.Is r) : Lockstep functions m r items := by
  induction items generalizing m r with
  | nil => exact .nil agree
  | cons item items ih =>
    refine .cons agree (whole item List.mem_cons_self) fun m' r' agree' => ?_
    exact ih (fun item' h => whole item' (List.mem_cons_of_mem item h)) agree'

/-- Where the machine gets through a sequence, the exact one has got through it too. -/
theorem Lockstep.run_ok {items : List Item} (h : Lockstep functions m r items) {m' : Machine}
    (ran : m.run functions items = (m', none)) :
    (r.run items).2 = some .negativeExponent ∨
      ∃ r', r.run items = (r', none) ∧ Lockstep functions m' r' [] := by
  induction h with
  | done agree found exact same =>
    cases ran
    exact .inr ⟨_, rfl, .done agree found exact same⟩
  | unfinished agree failed exact =>
    cases ran
    exact .inr ⟨_, rfl, .unfinished agree failed exact⟩
  | next agree step exact small rest ih =>
    rw [Machine.run, step] at ran
    rw [Exact.Machine.run, exact]
    exact ih ran
  | fault agree step exact agree' =>
    rw [Machine.run, step] at ran
    cases ran
  | overflow agree step exact large kept =>
    rw [Machine.run, step] at ran
    cases ran
  | negative agree exact =>
    rw [Exact.Machine.run, exact]
    exact .inl rfl

end Steps

theorem Environment.is_exact {env : Environment} (whole : env.Whole) : env.Is env.exact := by
  intro x
  rw [exact]
  cases bound : env.get? x with
  | none => exact .none
  | some n =>
    obtain ⟨k, rfl⟩ := whole x n bound
    exact .some (Number.is_integer k)

/-- Whole numbers are computed exactly or not at all: from whole variables on, the machine goes
through a sequence without calls and fractions in lockstep with the exact one. -/
theorem run_exact_or_fault (functions : FunctionTable) {env : Environment} (bound : env.Whole)
    {items : List Item} (whole : ∀ item ∈ items, item.Whole) :
    Lockstep functions (Machine.start env) (Exact.Machine.start env.exact) items :=
  lockstep_of_agree items whole ⟨.nil, Environment.is_exact bound⟩

/-- `20! + x // 3 + x % 3 + (-2) ^ 63`, where `x` is the least number, as is the power. All is in range
but the last sum. -/
theorem run_exact_or_fault_past_end :
    let env : Environment := Directory.empty.insert "x" (.integer Int64.minValue)
    let add : Item := .operator (.between "+" 20 (.binary .add))
    let items : List Item := [
      .literal (.integer 20), .operator (.after "!" (.unary .factorial)),
      .name "x", .literal (.integer 3), .operator (.between "//" 30 (.binary .floorDivide)), add,
      .name "x", .literal (.integer 3), .operator (.between "%" 30 (.binary .modulo)), add,
      .literal (.integer (-2)), .literal (.integer 63), .operator (.between "^" 40 (.binary .power))]
    Lockstep .standard (Machine.start env) (Exact.Machine.start env.exact) (items ++ [add]) ∧
      ((Machine.start env).run .standard items).1.stack =
        [.number (.integer Int64.minValue), .number (.integer (-641555337441618602))] ∧
      (evaluate .standard env (items ++ [add])).2 = .error (.overflow "+") := by
  intro env add items
  have bound : env.Whole := by
    intro x n h
    rw [Directory.get?_insert] at h
    split at h
    · exact ⟨Int64.minValue, (Option.some.inj h).symm⟩
    · contradiction
  have whole : ∀ item ∈ items ++ [add], item.Whole := by
    simp [items, add, Item.Whole, Operator.after, Operator.between]
  exact ⟨run_exact_or_fault .standard bound whole, by decide +kernel, by decide +kernel⟩

/-- No wrong number is ever found: a line that has a result has the exact one, as has every variable
behind it. -/
theorem evaluate_ok_exact {functions : FunctionTable} {env env' : Environment} (bound : env.Whole)
    {items : List Item} (whole : ∀ item ∈ items, item.Whole) {v : Evaluation}
    (found : evaluate functions env items = (env', .ok v)) :
    ((Exact.Machine.start env.exact).run items).2 = some .negativeExponent ∨
      ∃ r w, (Exact.Machine.start env.exact).run items = (r, none) ∧ r.result = .ok w ∧ v.Is w ∧
        env'.Is r.store := by
  have start : Machine.Is (.start env) (.start env.exact) := ⟨.nil, Environment.is_exact bound⟩
  have steps : Lockstep functions (.start env) (.start env.exact) items :=
    lockstep_of_agree items whole start
  rw [evaluate] at found
  cases ran : (Machine.start env).run functions items with
  | mk m failure =>
    rw [ran] at found
    cases failure with
    | some cause => cases found
    | none =>
      rcases steps.run_ok ran with negative | ⟨r, exact, ended⟩
      · exact .inl negative
      · simp only [Prod.mk.injEq] at found
        obtain ⟨rfl, found⟩ := found
        cases ended with
        | done agree result exact' same =>
          rw [result] at found
          cases found
          exact .inr ⟨r, _, exact, exact', same, agree.environment⟩
        | unfinished agree failed =>
          rw [failed] at found
          cases found

end Calculator
