import Mathlib.Data.List.Induction
import Calculator.Proofs.Derivation.Prospect

namespace Calculator

namespace Prospect

variable {table : OperatorTable}

/-- Where the walk is behind these tokens. -/
def reach (table : OperatorTable) (p : Prospect) (tokens : List Token) :
    Except ReadError Prospect :=
  tokens.foldlM (next table) p

theorem reach_cons (p : Prospect) (token : Token) (tokens : List Token) :
    p.reach table (token :: tokens) = (do (← p.next table token).reach table tokens) :=
  List.foldlM_cons

theorem reach_concat (p : Prospect) (tokens : List Token) (token : Token) :
    p.reach table (tokens ++ [token]) = (do (← p.reach table tokens).next table token) := by
  simp only [reach, List.foldlM_append, List.foldlM_cons, List.foldlM_nil, bind_pure]

theorem run_append (p : Prospect) (front back : List Token) :
    p.run table (front ++ back) = (do (← p.reach table front).run table back) := by
  induction front generalizing p with
  | nil => rfl
  | cons token front ih =>
    rw [List.cons_append, run, reach_cons]
    cases p.next table token with
    | error e => rfl
    | ok q => exact ih q

/-- A walk that fails does so at one of the tokens or at the end. -/
theorem run_eq_error {p : Prospect} {tokens : List Token} {e : ReadError}
    (h : p.run table tokens = .error e) :
    (∃ front token back q, tokens = front ++ token :: back ∧ p.reach table front = .ok q ∧
        q.next table token = .error e) ∨
      ∃ q, p.reach table tokens = .ok q ∧ q.finish = .error e := by
  induction tokens generalizing p with
  | nil => exact .inr ⟨p, rfl, h⟩
  | cons token tokens ih =>
    rw [run] at h
    cases hn : p.next table token with
    | error e' =>
      rw [hn] at h
      cases h
      exact .inl ⟨[], token, tokens, p, rfl, rfl, hn⟩
    | ok p' =>
      rw [hn] at h
      rcases ih h with ⟨front, last, back, q, rfl, reached, failed⟩ | ⟨q, reached, failed⟩
      · refine .inl ⟨token :: front, last, back, q, rfl, ?_, failed⟩
        rw [reach_cons, hn]
        exact reached
      · refine .inr ⟨q, ?_, failed⟩
        rw [reach_cons, hn]
        exact reached

/-- A token that is refused is refused whatever comes behind it. -/
theorem run_refused {p q : Prospect} {front : List Token} {token : Token} {e : ReadError}
    (reached : p.reach table front = .ok q) (refused : q.next table token = .error e)
    (back : List Token) : p.run table (front ++ token :: back) = .error e := by
  rw [run_append, reached, ok_bind, run, refused]
  rfl

theorem finish_error {p : Prospect} {e : ReadError} (h : p.finish = .error e) :
    e = .unexpectedEnd := by
  unfold finish at h
  split at h <;> cases h
  rfl

/-- Tokens that lead to the end. -/
def completion : Prospect → List Token
  | line => []
  | operand opened =>
    ⟨.name, "x", 0, 1⟩ :: List.replicate opened.length ⟨.closeParen, ")", 0, 1⟩
  | argument _ outside => List.replicate (outside.length + 1) ⟨.closeParen, ")", 0, 1⟩
  | trailer opened => List.replicate opened.length ⟨.closeParen, ")", 0, 1⟩

theorem run_closing (opened : List Enclosure) :
    (trailer opened).run table (List.replicate opened.length ⟨.closeParen, ")", 0, 1⟩) =
      .ok () := by
  induction opened with
  | nil => rfl
  | cons opening outside ih => exact ih

theorem run_completion (p : Prospect) : p.run table p.completion = .ok () := by
  cases p with
  | line => rfl
  | operand opened => exact run_closing opened
  | argument first outside => exact run_closing outside
  | trailer opened => exact run_closing opened

/-- Whose turn it is. -/
def turn : Prospect → Turn
  | line => .line
  | operand _ | argument _ _ => .operand
  | trailer _ => .trailer

/-- How many parentheses are open. -/
def depth : Prospect → Nat
  | line => 0
  | operand opened => opened.length
  | argument _ outside => outside.length + 1
  | trailer opened => opened.length

section Stepping

variable {q : Prospect} {token : Token}

theorem begin_turn {opened : List Enclosure}
    (h : begin opened token (.of table (some token)) = .ok q) :
    q.turn = Turn.operand.next table token ∧
      q.depth + (if token.kind = .closeParen then 1 else 0) =
        opened.length + (if token.kind = .openParen then 1 else 0) := by
  obtain ⟨kind, text, start, stop⟩ := token
  cases kind with
  | operator =>
    simp only [Lookahead.of] at h
    cases before : table.supports text .before <;> rw [before] at h <;> cases h
    simp [turn, depth, Turn.next, Turn.position]
  | _ => cases h <;> simp [turn, depth, Turn.next]

theorem line_turn (h : line.next table token = .ok q) :
    q.turn = line.turn.next table token ∧
      q.depth + (if token.kind = .closeParen then 1 else 0) =
        line.depth + (if token.kind = .openParen then 1 else 0) := by
  obtain ⟨kind, text, start, stop⟩ := token
  cases kind with
  | operator =>
    simp only [next, Lookahead.of] at h
    cases before : table.supports text .before <;>
      cases between : table.supports text .between <;> rw [before, between] at h <;> cases h <;>
      simp [turn, depth, Turn.next, Turn.position, before]
  | _ => cases h <;> simp [turn, depth, Turn.next]

theorem argument_turn {first : Bool} {outside : List Enclosure}
    (h : (argument first outside).next table token = .ok q) :
    q.turn = Turn.operand.next table token ∧
      q.depth + (if token.kind = .closeParen then 1 else 0) =
        outside.length + 1 + (if token.kind = .openParen then 1 else 0) := by
  by_cases closing : token.kind = .closeParen
  · have hl : Lookahead.of table (some token) = .closeParen := by simp [Lookahead.of, closing]
    rw [next, hl] at h
    cases h
    simp [turn, depth, Turn.next, closing]
  · have begun : begin (.call :: outside) token (.of table (some token)) = .ok q := by
      rw [← h, next]
      cases kind : token.kind with
      | closeParen => exact absurd kind closing
      | _ => simp [Lookahead.of, kind, advance]
    exact begin_turn begun

theorem trailer_turn {opened : List Enclosure} (h : (trailer opened).next table token = .ok q) :
    q.turn = Turn.trailer.next table token ∧
      q.depth + (if token.kind = .closeParen then 1 else 0) =
        opened.length + (if token.kind = .openParen then 1 else 0) := by
  obtain ⟨kind, text, start, stop⟩ := token
  cases kind with
  | operator =>
    simp only [next, Lookahead.of] at h
    cases between : table.supports text .between <;> cases after : table.supports text .after <;>
      rw [between, after] at h
    · cases opened <;> cases h
    all_goals
      cases h
      simp [turn, depth, Turn.next, Turn.position, between]
  | openParen =>
    cases h
    simp [turn, depth, Turn.next]
  | _ =>
    cases opened with
    | nil => cases h
    | cons opening outside =>
      cases opening <;> cases h <;> simp [turn, depth, Turn.next]

/-- One token moves the walk on as it changes the turn, and opens or closes a parenthesis. -/
theorem next_turn {p : Prospect} (h : p.next table token = .ok q) :
    q.turn = p.turn.next table token ∧
      q.depth + (if token.kind = .closeParen then 1 else 0) =
        p.depth + (if token.kind = .openParen then 1 else 0) := by
  cases p with
  | line => exact line_turn h
  | operand opened => exact begin_turn h
  | argument first outside => exact argument_turn h
  | trailer opened => exact trailer_turn h

theorem begin_error {opened : List Enclosure} {l : Lookahead} {e : ReadError}
    (h : begin opened token l = .error e) : e = .noExpression token.text token.start := by
  unfold begin at h
  split at h <;> cases h
  rfl

/-- A token that is refused is named with its place. Which error it is depends on whose turn it is
and on whether a parenthesis is open. -/
theorem next_error {p : Prospect} {e : ReadError} (h : p.next table token = .error e) :
    e = if p.turn ≠ .trailer then .noExpression token.text token.start
      else if p.depth = 0 then .trailing token.text token.start
      else .misplacedToken token.text token.start := by
  unfold next advance at h
  split at h
  all_goals first
    | cases h
    | rw [begin_error h]
  all_goals simp [turn, depth]

end Stepping

theorem reach_turn {tokens : List Token} {q : Prospect} (h : line.reach table tokens = .ok q) :
    q.turn = Turn.behind table tokens ∧ q.depth + tokens.countP (·.kind = .closeParen) =
      tokens.countP (·.kind = .openParen) := by
  induction tokens using List.reverseRecOn generalizing q with
  | nil =>
    cases h
    exact ⟨rfl, rfl⟩
  | append_singleton tokens token ih =>
    rw [reach_concat] at h
    obtain ⟨p, reached, h⟩ := bind_eq_ok.mp h
    obtain ⟨turn, depth⟩ := ih reached
    obtain ⟨turn', depth'⟩ := next_turn h
    refine ⟨by rw [turn', turn, Turn.behind_concat], ?_⟩
    simp only [List.countP_append, List.countP_singleton, decide_eq_true_eq]
    omega

theorem reach_depth {tokens : List Token} {q : Prospect} (h : line.reach table tokens = .ok q) :
    q.depth = Token.unclosed tokens := by
  have counted := (reach_turn h).2
  rw [Token.unclosed]
  omega

end Prospect

open Prospect

namespace OperatorTable

/-- The tokens are those of a line. -/
def Accepts (table : OperatorTable) (tokens : List Token) : Prop :=
  ∃ built, Derivation.ofTokens table tokens = .ok built

/-- The tokens begin some line. -/
def Begins (table : OperatorTable) (tokens : List Token) : Prop :=
  ∃ later, table.Accepts (tokens ++ later)

variable {table : OperatorTable} {tokens : List Token}

theorem accepts_iff : table.Accepts tokens ↔ line.run table tokens = .ok () := by
  rw [← Derivation.ofTokens_eq_run, Accepts]
  cases Derivation.ofTokens table tokens <;> simp [Except.map]

theorem refuses_iff {e : ReadError} :
    Derivation.ofTokens table tokens = .error e ↔ line.run table tokens = .error e := by
  rw [← Derivation.ofTokens_eq_run]
  cases Derivation.ofTokens table tokens <;> simp [Except.map]

/-- Wherever the walk gets, some tokens complete the line. -/
theorem begins_of_reach {q : Prospect} (h : line.reach table tokens = .ok q) :
    table.Begins tokens := by
  refine ⟨q.completion, accepts_iff.mpr ?_⟩
  rw [run_append, h, ok_bind, run_completion]

theorem not_begins_of_refused {q : Prospect} {front : List Token} {token : Token} {e : ReadError}
    (reached : line.reach table front = .ok q) (refused : q.next table token = .error e) :
    ¬ table.Begins (front ++ [token]) := by
  rintro ⟨later, accepted⟩
  rw [accepts_iff, List.append_assoc, List.singleton_append,
    run_refused reached refused] at accepted
  cases accepted

end OperatorTable

/-- How a line is refused at a token with these in front of it. -/
def Token.refusal (table : OperatorTable) (front : List Token) (token : Token) : ReadError :=
  if Turn.behind table front ≠ .trailer then .noExpression token.text token.start
  else if unclosed front = 0 then .trailing token.text token.start
  else .misplacedToken token.text token.start

open OperatorTable

theorem Prospect.next_refusal {table : OperatorTable} {front : List Token} {token : Token}
    {q : Prospect} {e : ReadError} (reached : line.reach table front = .ok q)
    (refused : q.next table token = .error e) : e = token.refusal table front := by
  rw [Token.refusal, ← (reach_turn reached).1, ← reach_depth reached]
  exact next_error refused

/-- A line is refused at the first token with which no line goes on, for what is due there and what
is open, or at its end where it is not complete. -/
theorem ofTokens_refuses_first (table : OperatorTable) (tokens : List Token) :
    (∀ e, Derivation.ofTokens table tokens = .error e → e ≠ .unexpectedEnd →
      ∃ front token back, tokens = front ++ token :: back ∧ table.Begins front ∧
        ¬ table.Begins (front ++ [token]) ∧ e = token.refusal table front) ∧
      (Derivation.ofTokens table tokens = .error .unexpectedEnd ↔
        ¬ table.Accepts tokens ∧ table.Begins tokens) := by
  refine ⟨?_, ?_, ?_⟩
  · intro e h named
    rcases run_eq_error (refuses_iff.mp h) with
      ⟨front, token, back, q, rfl, reached, refused⟩ | ⟨q, -, failed⟩
    · exact ⟨front, token, back, rfl, begins_of_reach reached,
        not_begins_of_refused reached refused, next_refusal reached refused⟩
    · exact absurd (finish_error failed) named
  · intro h
    refine ⟨fun ⟨built, accepted⟩ => by simp [h] at accepted, ?_⟩
    rcases run_eq_error (refuses_iff.mp h) with
      ⟨front, token, back, q, rfl, reached, refused⟩ | ⟨q, reached, -⟩
    · have named := next_refusal reached refused
      unfold Token.refusal at named
      repeat' split at named
      all_goals cases named
    · exact begins_of_reach reached
  · rintro ⟨refused, later, accepted⟩
    cases h : line.run table tokens with
    | ok done => exact absurd (accepts_iff.mpr h) refused
    | error e =>
      rcases run_eq_error h with ⟨front, token, back, q, rfl, reached, failed⟩ | ⟨q, -, failed⟩
      · rw [accepts_iff, List.append_assoc, List.cons_append,
          run_refused reached failed] at accepted
        cases accepted
      · rw [refuses_iff, h, finish_error failed]

/-- The line `(1 2)` is refused at its `2`, where an operand has ended inside a parenthesis, and the
line `(1` at its end. -/
theorem ofTokens_refuses_first_in_group :
    let o : Token := ⟨.openParen, "(", 0, 1⟩
    let one : Token := ⟨.number, "1", 1, 2⟩
    let two : Token := ⟨.number, "2", 3, 4⟩
    let c : Token := ⟨.closeParen, ")", 4, 5⟩
    Derivation.ofTokens .standard [o, one, two, c] = .error (.misplacedToken "2" 3) ∧
      (∃ front token back, [o, one, two, c] = front ++ token :: back ∧
        OperatorTable.standard.Begins front ∧ ¬ OperatorTable.standard.Begins (front ++ [token]) ∧
        .misplacedToken "2" 3 = token.refusal .standard front) ∧
      Derivation.ofTokens .standard [o, one] = .error .unexpectedEnd ∧
      ¬ OperatorTable.standard.Accepts [o, one] ∧ OperatorTable.standard.Begins [o, one] := by
  intro o one two c
  have refused : Derivation.ofTokens .standard [o, one, two, c] = .error (.misplacedToken "2" 3) :=
    refuses_iff.mpr rfl
  have ended : Derivation.ofTokens .standard [o, one] = .error .unexpectedEnd :=
    refuses_iff.mpr rfl
  exact ⟨refused, (ofTokens_refuses_first .standard _).1 _ refused (by simp), ended,
    (ofTokens_refuses_first .standard _).2.mp ended⟩

end Calculator
