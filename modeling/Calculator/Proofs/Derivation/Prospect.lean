import Calculator.Proofs.Derivation.Building
import Calculator.Proofs.Grammar.Turn

namespace Calculator

/-- What an open parenthesis encloses. -/
inductive Enclosure where
  | group
  | call
deriving DecidableEq, Repr

/-- What is to come inside open parentheses, the innermost first. -/
inductive Prospect where
  | line
  | operand (opened : List Enclosure)
  /-- An argument of the call opened last, or the end of its arguments. -/
  | argument (first : Bool) (outside : List Enclosure)
  | trailer (opened : List Enclosure)
deriving DecidableEq, Repr

/-- The symbols behind an operand that is complete. -/
def Enclosure.symbols : List Enclosure → List Symbol
  | [] => []
  | group :: outside => .terminal .closeParen :: .rule .trailer :: symbols outside
  | call :: outside =>
    .rule .argumentTail :: .terminal .closeParen :: .rule .trailer :: symbols outside

namespace Prospect

/-- The symbols that are still to be derived. -/
def symbols : Prospect → List Symbol
  | line => [.rule .line]
  | operand opened => .rule .expression :: Enclosure.symbols opened
  | argument first outside =>
    .rule (if first then .firstArgument else .nextArgument) :: .terminal .closeParen ::
      .rule .trailer :: Enclosure.symbols outside
  | trailer opened => .rule .trailer :: Enclosure.symbols opened

/-- Where an operand is due, only what begins an expression is taken. -/
def begin (opened : List Enclosure) (token : Token) : Lookahead → Except ReadError Prospect
  | .value => .ok (trailer opened)
  | .openParen => .ok (operand (.group :: opened))
  | .operator true _ _ => .ok (operand opened)
  | _ => .error (.noExpression token.text token.start)

/-- Takes a token of some class. -/
def advance (token : Token) : Prospect → Lookahead → Except ReadError Prospect
  | line, .operator false true _ => .ok (operand [])
  | line, l => begin [] token l
  | operand opened, l => begin opened token l
  | argument _ outside, .closeParen => .ok (trailer outside)
  | argument _ outside, l => begin (.call :: outside) token l
  | trailer opened, .openParen => .ok (argument true opened)
  | trailer opened, .operator _ true _ => .ok (operand opened)
  | trailer opened, .operator _ false true => .ok (trailer opened)
  | trailer (_ :: outside), .closeParen => .ok (trailer outside)
  | trailer (.call :: outside), .comma => .ok (argument false outside)
  | trailer [], _ => .error (.trailing token.text token.start)
  | trailer (_ :: _), _ => .error (.misplacedToken token.text token.start)

def next (table : OperatorTable) (p : Prospect) (token : Token) : Except ReadError Prospect :=
  p.advance token (.of table (some token))

/-- A line may end where nothing is due and nothing is open. -/
def finish : Prospect → Except ReadError Unit
  | line | trailer [] => .ok ()
  | _ => .error .unexpectedEnd

def run (table : OperatorTable) (p : Prospect) : List Token → Except ReadError Unit
  | [] => p.finish
  | token :: rest => do (← p.next table token).run table rest

end Prospect

/-- The classes of tokens that a terminal takes. -/
def Terminal.admits : Terminal → Lookahead → Bool
  | .operator .before, .operator before _ _ => before
  | .operator .between, .operator _ between _ => between
  | .operator .after, .operator _ _ after => after
  | .value, .value => true
  | .openParen, .openParen => true
  | .closeParen, .closeParen => true
  | .comma, .comma => true
  | _, _ => false

theorem Terminal.accepts_eq (table : OperatorTable) (terminal : Terminal) (token : Token) :
    terminal.accepts table token = terminal.admits (.of table (some token)) := by
  obtain ⟨kind, text, start, stop⟩ := token
  cases terminal with
  | operator position => cases kind <;> cases position <;> simp [accepts, admits, Lookahead.of]
  | _ => cases kind <;> simp [accepts, admits, Lookahead.of]

theorem Lookahead.of_ne_finish (table : OperatorTable) (token : Token) :
    Lookahead.of table (some token) ≠ .finish := by
  cases h : token.kind <;> simp [of, h]

namespace Derivation

/-- Whatever has been built before, deriving these symbols from the tokens comes to this. -/
def Foresees (table : OperatorTable) (symbols : List Symbol) (tokens : List Token)
    (result : Except ReadError Unit) : Prop :=
  ∀ (t : Derivation) (place : Nat) (work : List Task), Task.symbols work = symbols →
    (build table t place work tokens).map (fun _ => ()) = result

section Foreseeing

variable {table : OperatorTable} {symbols : List Symbol} {tokens : List Token}
  {result : Except ReadError Unit}

/-- Nodes are closed before the next symbol is expanded. -/
theorem foresees_cons {symbol : Symbol}
    (h : ∀ (t : Derivation) (place : Nat) (parent : Option Nat) (work : List Task),
      Task.symbols work = symbols →
        (build table t place (.expand symbol parent :: work) tokens).map (fun _ => ()) = result) :
    Foresees table (symbol :: symbols) tokens result := by
  intro t place work hs
  induction work generalizing t with
  | nil => cases hs
  | cons task work ih =>
    cases task with
    | close id =>
      rw [build_close]
      exact ih _ hs
    | expand s parent =>
      obtain ⟨rfl, later⟩ := List.cons.inj hs
      exact h t place parent work later

theorem foresees_nil (h : ∀ (t : Derivation) (place : Nat),
    (build table t place [] tokens).map (fun _ => ()) = result) :
    Foresees table [] tokens result := by
  intro t place work hs
  induction work generalizing t with
  | nil => exact h t place
  | cons task work ih =>
    cases task with
    | close id =>
      rw [build_close]
      exact ih _ hs
    | expand s parent => cases hs

theorem foresees_done : Foresees table [] [] (.ok ()) :=
  foresees_nil fun t place => by rw [build_done]; rfl

theorem foresees_left (token : Token) :
    Foresees table [] (token :: tokens) (.error (.trailing token.text token.start)) :=
  foresees_nil fun t place => by rw [build_left]; rfl

theorem foresees_replace {rule : Rule} {l : Lookahead} {body : List Symbol}
    (hl : Lookahead.of table tokens.head? = l) (hb : rule.body? l = some body)
    (h : Foresees table (body ++ symbols) tokens result) :
    Foresees table (.rule rule :: symbols) tokens result := by
  apply foresees_cons
  intro t place parent work hs
  rw [build_replace (hl ▸ hb)]
  exact h _ _ _ (by rw [Task.symbols_below, hs])

theorem foresees_refuse {rule : Rule} {l : Lookahead} (hl : Lookahead.of table tokens.head? = l)
    (hb : rule.body? l = none) :
    Foresees table (.rule rule :: symbols) tokens (.error (rule.refusal tokens.head?)) := by
  apply foresees_cons
  intro t place parent work _
  rw [build_refuse (hl ▸ hb)]
  rfl

theorem foresees_missing (terminal : Terminal) :
    Foresees table (.terminal terminal :: symbols) [] (.error .unexpectedEnd) := by
  apply foresees_cons
  intro t place parent work _
  rw [build_missing]
  rfl

variable {terminal : Terminal} {token : Token} {l : Lookahead}

theorem foresees_take (hl : Lookahead.of table (some token) = l) (ha : terminal.admits l = true)
    (h : Foresees table symbols tokens result) :
    Foresees table (.terminal terminal :: symbols) (token :: tokens) result := by
  apply foresees_cons
  intro t place parent work hs
  rw [build_take (by rw [Terminal.accepts_eq, hl, ha])]
  exact h _ _ _ hs

theorem foresees_mismatch (hl : Lookahead.of table (some token) = l)
    (ha : terminal.admits l = false) :
    Foresees table (.terminal terminal :: symbols) (token :: tokens)
      (.error (.misplacedToken token.text token.start)) := by
  apply foresees_cons
  intro t place parent work _
  rw [build_mismatch (by rw [Terminal.accepts_eq, hl, ha])]
  rfl

end Foreseeing

section Walking

variable {table : OperatorTable} {token : Token} {later : List Token} {l : Lookahead}

/-- What follows a prospect can be derived as it says. -/
def Sound (table : OperatorTable) (later : List Token) : Except ReadError Prospect → Prop
  | .ok p => Foresees table p.symbols later (p.run table later)
  | .error _ => True

/-- Where an operand is due, a token is taken if an expression may begin with it. -/
theorem foresees_begin (hl : Lookahead.of table (some token) = l) (opened : List Enclosure)
    (h : Sound table later (Prospect.begin opened token l)) :
    Foresees table (.rule .expression :: Enclosure.symbols opened) (token :: later)
      (do (← Prospect.begin opened token l).run table later) := by
  match l with
  | .value => exact foresees_replace hl rfl (foresees_take hl rfl h)
  | .openParen => exact foresees_replace hl rfl (foresees_take hl rfl h)
  | .operator true _ _ => exact foresees_replace hl rfl (foresees_take hl rfl h)
  | .operator false _ _ => exact foresees_refuse hl rfl
  | .closeParen => exact foresees_refuse hl rfl
  | .comma => exact foresees_refuse hl rfl
  | .finish => exact foresees_refuse hl rfl

theorem foresees_line (hl : Lookahead.of table (some token) = l)
    (h : Sound table later (Prospect.line.advance token l)) :
    Foresees table [.rule .line] (token :: later)
      (do (← Prospect.line.advance token l).run table later) := by
  have operand (begins : Rule.line.body? l = some [.rule .expression])
      (h : Sound table later (Prospect.begin [] token l)) :
      Foresees table [.rule .line] (token :: later)
        (do (← Prospect.begin [] token l).run table later) := by
    refine foresees_replace hl begins ?_
    exact foresees_begin hl [] h
  match l with
  | .operator true _ _ => exact foresees_replace hl rfl (foresees_take hl rfl h)
  | .operator false true _ => exact foresees_replace hl rfl (foresees_take hl rfl h)
  | .operator false false _ => exact operand rfl h
  | .value => exact operand rfl h
  | .openParen => exact operand rfl h
  | .closeParen => exact operand rfl h
  | .comma => exact operand rfl h
  | .finish => exact absurd hl (Lookahead.of_ne_finish table token)

theorem foresees_argument (hl : Lookahead.of table (some token) = l) (first : Bool)
    (outside : List Enclosure)
    (h : Sound table later ((Prospect.argument first outside).advance token l)) :
    Foresees table (Prospect.argument first outside).symbols (token :: later)
      (do (← (Prospect.argument first outside).advance token l).run table later) := by
  have operand (begins : l.startsExpression = true)
      (h : Sound table later (Prospect.begin (.call :: outside) token l)) :
      Foresees table (Prospect.argument first outside).symbols (token :: later)
        (do (← Prospect.begin (.call :: outside) token l).run table later) := by
    have body : Rule.body? (if first then .firstArgument else .nextArgument) l =
        some [.rule .expression, .rule .argumentTail] := by
      cases first <;> simp [Rule.body?, begins]
    exact foresees_replace hl body (foresees_begin hl (.call :: outside) h)
  have refused (ends : l.startsExpression = false) (other : l ≠ .closeParen) :
      Foresees table (Prospect.argument first outside).symbols (token :: later)
        (.error (.noExpression token.text token.start)) := by
    cases first <;> exact foresees_refuse hl (by simp [Rule.body?, ends, other])
  match l with
  | .value => exact operand rfl h
  | .openParen => exact operand rfl h
  | .operator true _ _ => exact operand rfl h
  | .operator false _ _ => exact refused rfl (by simp)
  | .comma => exact refused rfl (by simp)
  | .finish => exact refused rfl (by simp)
  | .closeParen =>
    exact foresees_replace hl (by cases first <;> rfl) (foresees_take hl rfl h)

theorem foresees_trailer (hl : Lookahead.of table (some token) = l) (opened : List Enclosure)
    (h : Sound table later ((Prospect.trailer opened).advance token l)) :
    Foresees table (Prospect.trailer opened).symbols (token :: later)
      (do (← (Prospect.trailer opened).advance token l).run table later) := by
  -- The trailer is empty, and with it an argument tail behind it.
  have emptied (ends : Rule.trailer.body? l = some []) (noComma : l ≠ .comma)
      (noClose : l ≠ .closeParen) (other : (Prospect.trailer opened).advance token l =
        .error (if opened = [] then .trailing token.text token.start
          else .misplacedToken token.text token.start)) :
      Foresees table (Prospect.trailer opened).symbols (token :: later)
        (do (← (Prospect.trailer opened).advance token l).run table later) := by
    rw [other]
    refine foresees_replace hl ends ?_
    match opened with
    | [] => exact foresees_left token
    | .group :: outside =>
      exact foresees_mismatch hl (by cases l <;> simp_all [Terminal.admits])
    | .call :: outside =>
      have body : Rule.argumentTail.body? l = some [] := by cases l <;> simp_all [Rule.body?]
      exact foresees_replace hl body
        (foresees_mismatch hl (by cases l <;> simp_all [Terminal.admits]))
  match l with
  | .openParen =>
    exact foresees_replace hl rfl (foresees_replace hl rfl (foresees_take hl rfl h))
  | .operator _ true _ => exact foresees_replace hl rfl (foresees_take hl rfl h)
  | .operator _ false true => exact foresees_replace hl rfl (foresees_take hl rfl h)
  | .operator _ false false => exact emptied rfl (by simp) (by simp) (by cases opened <;> rfl)
  | .value => exact emptied rfl (by simp) (by simp) (by cases opened <;> rfl)
  | .finish => exact emptied rfl (by simp) (by simp) (by cases opened <;> rfl)
  | .closeParen =>
    refine foresees_replace hl rfl ?_
    match opened with
    | [] => exact foresees_left token
    | .group :: outside => exact foresees_take hl rfl h
    | .call :: outside => exact foresees_replace hl rfl (foresees_take hl rfl h)
  | .comma =>
    refine foresees_replace hl rfl ?_
    match opened with
    | [] => exact foresees_left token
    | .group :: outside => exact foresees_mismatch hl rfl
    | .call :: outside => exact foresees_replace hl rfl (foresees_take hl rfl h)

/-- Where the tokens end, something is missing unless nothing is due and nothing is open. -/
theorem foresees_finish (p : Prospect) : Foresees table p.symbols [] p.finish := by
  match p with
  | .line => exact foresees_replace rfl rfl foresees_done
  | .operand opened => exact foresees_refuse rfl rfl
  | .argument first outside => cases first <;> exact foresees_refuse rfl rfl
  | .trailer [] => exact foresees_replace rfl rfl foresees_done
  | .trailer (.group :: outside) => exact foresees_replace rfl rfl (foresees_missing .closeParen)
  | .trailer (.call :: outside) =>
    exact foresees_replace rfl rfl (foresees_replace rfl rfl (foresees_missing .closeParen))

/-- The walk tells what becomes of a derivation. -/
theorem foresees_run (p : Prospect) (tokens : List Token) :
    Foresees table p.symbols tokens (p.run table tokens) := by
  induction tokens generalizing p with
  | nil => exact foresees_finish p
  | cons token later ih =>
    have sound : Sound table later (p.next table token) := by
      cases h : p.next table token with
      | error e => trivial
      | ok p => exact ih p
    cases p with
    | line => exact foresees_line rfl sound
    | operand opened => exact foresees_begin rfl opened sound
    | argument first outside => exact foresees_argument rfl first outside sound
    | trailer opened => exact foresees_trailer rfl opened sound

/-- A line is accepted or refused as the walk from its start is. -/
theorem ofTokens_eq_run (tokens : List Token) :
    (ofTokens table tokens).map (fun _ => ()) = Prospect.line.run table tokens :=
  foresees_run .line tokens _ _ _ rfl

end Walking

end Derivation

end Calculator
