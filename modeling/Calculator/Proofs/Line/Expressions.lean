import Calculator.Proofs.Derivation.Expressions
import Calculator.Proofs.Line.Phrases

namespace Calculator

open Token

namespace Token

variable {line : String} {tokens : List Token} (scanned : scan line = .ok tokens)

include scanned

theorem scanFrom_further (n : Nat) : scanFrom n line.toList = .ok (tokens.map (moved n)) := by
  rw [scan] at scanned
  rw [← Nat.add_zero n, scanFrom_add, scanned]
  rfl

/-- A closing parenthesis behind a text ends its last token. -/
theorem scan_group : ∃ o c : Token, o.kind = .openParen ∧ c.kind = .closeParen ∧
    scan ("(" ++ line ++ ")") = .ok (o :: (tokens.map (moved 1) ++ [c])) := by
  have whole : ("(" ++ line ++ ")").toList = ['('] ++ (line.toList ++ [')']) := by
    simp
  have opens : front? (['('] ++ (line.toList ++ [')'])) = some (.openParen, ['(']) := rfl
  have closes (place : Nat) : ∃ c : Token, c.kind = .closeParen ∧
      scanFrom place [')'] = .ok [c] := by
    have front : front? ([')'] ++ []) = some (.closeParen, [')']) := rfl
    have last := scanFrom_front? front place
    rw [List.append_nil, scanFrom] at last
    exact ⟨_, rfl, last⟩
  obtain ⟨c, hc, closed⟩ := closes (1 + byteLength line.toList)
  refine ⟨⟨.openParen, "(", 0, 1⟩, c, rfl, hc, ?_⟩
  rw [scan, whole, scanFrom_front? opens]
  have place : 0 + byteLength ['('] = 1 := rfl
  rw [place, scanFrom_append (separated_cons (by decide) _), scanFrom_further scanned, closed]
  rfl

/-- Blanks keep a name, an operator and a text apart. -/
theorem scan_joined {x : String} (hx : IsName x.toList) {d : Operator}
    (hd : d ∈ OperatorTable.standard.definitions) :
    ∃ (n : Nat) (v o : Token), v.kind = .name ∧ v.text = x ∧ o.kind = .operator ∧
      o.text = d.symbol ∧
      scan (x ++ " " ++ d.symbol ++ " " ++ line) = .ok (v :: o :: tokens.map (moved n)) := by
  have whole : (x ++ " " ++ d.symbol ++ " " ++ line).toList =
      x.toList ++ ' ' :: (d.symbol.toList ++ ' ' :: line.toList) := by
    simp
  have blank : isBlank ' ' = true := rfl
  have named (rest : List Char) : front? (x.toList ++ ' ' :: rest) = some (.name, x.toList) :=
    front?_name hx (ends_cons (by decide))
  have operated (rest : List Char) :
      front? (d.symbol.toList ++ ' ' :: rest) = some (.operator, d.symbol.toList) :=
    front?_operator hd (unpaired_cons (by decide))
  have skipped (place : Nat) (rest : List Char) :
      scanFrom place (' ' :: rest) = scanFrom (place + ' '.utf8Size) rest := by
    rw [scanFrom, if_pos blank]
  let first := 0 + byteLength x.toList
  let second := first + ' '.utf8Size + byteLength d.symbol.toList
  refine ⟨second + ' '.utf8Size, ⟨.name, x, 0, first⟩,
    ⟨.operator, d.symbol, first + ' '.utf8Size, second⟩, rfl, rfl, rfl, rfl, ?_⟩
  rw [scan, whole, scanFrom_front? (named _), skipped, scanFrom_front? (operated _), skipped,
    scanFrom_further scanned, String.ofList_toList, String.ofList_toList]
  rfl

end Token

namespace Line

/-- A text whose tokens are those of one expression. -/
def IsExpression (line : String) : Prop :=
  ∃ tokens, scan line = .ok tokens ∧ OperatorTable.standard.DerivesFrom .expression tokens

variable {line : String} (h : IsExpression line)

include h

theorem IsExpression.group : IsExpression ("(" ++ line ++ ")") := by
  obtain ⟨tokens, scanned, derives⟩ := h
  obtain ⟨o, c, opens, closes, whole⟩ := scan_group scanned
  exact ⟨_, whole, (derives.moved 1).group opens closes⟩

theorem items_group : items ("(" ++ line ++ ")") =
    ((items line).mapError (ReadError.moved 1)).map
      fun items => .openParen :: (items ++ [.closeParen]) := by
  obtain ⟨tokens, scanned, derives⟩ := h
  obtain ⟨o, c, opens, closes, whole⟩ := scan_group scanned
  rw [items, whole, items, scanned]
  exact Token.items_group OperatorTable.separated_standard derives 1 opens closes

variable {x : String} (hx : IsName x.toList) (d : OperatorTable.standard.Placed .between)

include hx

theorem IsExpression.joined : IsExpression (x ++ " " ++ d.val.symbol ++ " " ++ line) := by
  obtain ⟨tokens, scanned, derives⟩ := h
  obtain ⟨n, v, o, names, -, operator, text, whole⟩ := scan_joined scanned hx d.2.1
  exact ⟨_, whole, (derives.moved n).joined names (Tree.accepts_operator d operator text)⟩

theorem items_joined : ∃ n, items (x ++ " " ++ d.val.symbol ++ " " ++ line) =
    ((items line).mapError (ReadError.moved n)).map
      fun items => .name x :: .operator d :: items := by
  obtain ⟨tokens, scanned, derives⟩ := h
  obtain ⟨n, v, o, names, named, operator, text, whole⟩ := scan_joined scanned hx d.2.1
  refine ⟨n, ?_⟩
  rw [items, whole, items, scanned, ← named]
  exact Token.items_joined OperatorTable.separated_standard derives
    OperatorTable.unambiguous_standard n names operator d text

omit hx

/-- The items of an expression, where it has any, are those of a phrase. -/
theorem IsExpression.phrase {source : List Item} (resolved : items line = .ok source) :
    ∃ p : Phrase .standard, p.items = source := by
  obtain ⟨tokens, scanned, derives⟩ := h
  rw [items, scanned, ok_bind, Token.items] at resolved
  obtain ⟨built, accepted, found⟩ := bind_eq_ok.mp resolved
  obtain ⟨es, grammatical, rfl⟩ := OperatorTable.derivesFrom_expression.mp derives
  rcases Derivation.items_cases accepted found with ⟨none, -⟩ | ⟨-, p, same⟩
  · exact absurd none (Tree.tokens_expression_ne_nil grammatical)
  · exact ⟨p, same⟩

end Line

end Calculator
