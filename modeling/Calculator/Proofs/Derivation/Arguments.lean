import Calculator.Proofs.Phrase.Derivation
import Calculator.Proofs.Token.Reading

namespace Calculator

open Token

namespace Terminal

variable {table : OperatorTable} {token : Token}

theorem kind_of_operator {position : Position}
    (h : (operator position).accepts table token = true) : token.kind = .operator := by
  simp_all [accepts]

theorem kind_of_openParen (h : openParen.accepts table token = true) :
    token.kind = .openParen := by
  simpa [accepts] using h

theorem kind_of_closeParen (h : closeParen.accepts table token = true) :
    token.kind = .closeParen := by
  simpa [accepts] using h

theorem kind_of_comma (h : comma.accepts table token = true) : token.kind = .comma := by
  simpa [accepts] using h

theorem kind_of_value (h : value.accepts table token = true) :
    token.kind = .number ∨ token.kind = .name := by
  simpa [accepts] using h

end Terminal

namespace Tree

variable {table : OperatorTable}

theorem undivided_operator {position : Position} {token : Token}
    (h : (Terminal.operator position).accepts table token = true) : Undivided [token] := by
  have := Terminal.kind_of_operator h
  apply Undivided.plain <;> simp [this]

mutual

/-- The commas of an expression are those of its calls. -/
theorem undivided_expression (es : List Tree)
    (grammatical : (node .expression es).Grammatical table) : Undivided (tokensAll es) := by
  obtain ⟨shaped, parts⟩ := grammatical
  rcases expression_shape shaped with ⟨o, inner, c, ks, rfl⟩ | ⟨o, operand, rfl⟩ | ⟨v, ks, rfl⟩
  · have enclosed := Undivided.enclosed (Terminal.kind_of_openParen parts.1)
      (undivided_expression inner parts.2.1).balanced (Terminal.kind_of_closeParen parts.2.2.1)
    have whole := enclosed.append (undivided_trailer ks parts.2.2.2.1)
    simpa [tokensAll, tokens] using whole
  · have whole := (undivided_operator parts.1).append (undivided_expression operand parts.2.1)
    simpa [tokensAll, tokens] using whole
  · have plain : Undivided [v] := by
      rcases Terminal.kind_of_value parts.1 with hv | hv <;> apply Undivided.plain <;> simp [hv]
    have whole := plain.append (undivided_trailer ks parts.2.1)
    simpa [tokensAll, tokens] using whole
termination_by sizeAll es
decreasing_by
  all_goals
    subst_vars
    simp only [sizeAll, size]
    omega

theorem undivided_trailer (ks : List Tree) (grammatical : (node .trailer ks).Grammatical table) :
    Undivided (tokensAll ks) := by
  obtain ⟨shaped, parts⟩ := grammatical
  rcases trailer_shape shaped with ⟨cs, ks, rfl⟩ | ⟨o, right, rfl⟩ | ⟨o, ks, rfl⟩ | rfl
  · obtain ⟨shaped, inside⟩ := parts.1
    obtain ⟨o, args, c, rfl⟩ := call_shape shaped
    have enclosed := Undivided.enclosed (Terminal.kind_of_openParen inside.1)
      (balanced_arguments (.inl rfl) args inside.2.1) (Terminal.kind_of_closeParen inside.2.2.1)
    have whole := enclosed.append (undivided_trailer ks parts.2.1)
    simpa [tokensAll, tokens] using whole
  · have whole := (undivided_operator parts.1).append (undivided_expression right parts.2.1)
    simpa [tokensAll, tokens] using whole
  · have whole := (undivided_operator parts.1).append (undivided_trailer ks parts.2.1)
    simpa [tokensAll, tokens] using whole
  · exact .nil
termination_by sizeAll ks
decreasing_by
  all_goals
    subst_vars
    simp only [sizeAll, size]
    omega

theorem balanced_arguments {rule : Rule} (hr : rule = .firstArgument ∨ rule = .nextArgument)
    (args : List Tree) (grammatical : (node rule args).Grammatical table) :
    Balanced (tokensAll args) := by
  obtain ⟨shaped, parts⟩ := grammatical
  rcases argument_shape hr shaped with ⟨es, ts, rfl⟩ | rfl
  · have whole := (undivided_expression es parts.1).balanced.append (balanced_tail ts parts.2.1)
    simpa [tokensAll, tokens] using whole
  · exact .nil
termination_by sizeAll args
decreasing_by
  all_goals
    subst_vars
    simp only [sizeAll, size]
    omega

theorem balanced_tail (ts : List Tree) (grammatical : (node .argumentTail ts).Grammatical table) :
    Balanced (tokensAll ts) := by
  obtain ⟨shaped, parts⟩ := grammatical
  rcases argumentTail_shape shaped with ⟨c, ns, rfl⟩ | rfl
  · have comma : Balanced [c] := by
      have := Terminal.kind_of_comma parts.1
      apply Balanced.plain <;> simp [this]
    have whole := comma.append (balanced_arguments (.inr rfl) ns parts.2.1)
    simpa [tokensAll, tokens] using whole
  · exact .nil
termination_by sizeAll ts
decreasing_by
  all_goals
    subst_vars
    simp only [sizeAll, size]
    omega

end

/-- The tail of an argument list is counted by its commas, up to one that ends it. -/
theorem countTail_eq (counted : Nat) (ts : List Tree)
    (grammatical : (node .argumentTail ts).Grammatical table) :
    ∃ later, arguments 0 (tokensAll ts) = [] :: later ∧
      (node .argumentTail ts).countTail counted =
        if endsInComma (tokensAll ts) then .error (counted + later.countP (!·.isEmpty) + 1)
        else .ok (counted + later.length) := by
  obtain ⟨shaped, parts⟩ := grammatical
  rcases argumentTail_shape shaped with ⟨c, ns, rfl⟩ | rfl
  · have hc := Terminal.kind_of_comma parts.1
    obtain ⟨shaped, inside⟩ := parts.2.1
    rcases argument_shape (.inr rfl) shaped with ⟨es, ts, rfl⟩ | rfl
    · have argument := undivided_expression es inside.1
      have present : tokensAll es ≠ [] := tokens_expression_ne_nil inside.1
      obtain ⟨later, cut, counts⟩ := countTail_eq (counted + 1) ts inside.2.1
      refine ⟨tokensAll es :: later, ?_, ?_⟩
      · simp [tokensAll, tokens, arguments_comma hc, argument.arguments_append, cut]
      · have ends : endsInComma (c :: (tokensAll es ++ tokensAll ts)) =
            endsInComma (tokensAll ts) := by
          rw [← List.singleton_append, endsInComma_append (by simp [present]),
            argument.endsInComma_append]
        have whole : tokensAll [leaf .comma c,
            node .nextArgument [node .expression es, node .argumentTail ts]] =
            c :: (tokensAll es ++ tokensAll ts) := by
          simp [tokensAll, tokens]
        rw [countTail, counts, whole, ends]
        split
        · simp [present]
          omega
        · simp
          omega
    · exact ⟨[[]], by simp [tokensAll, tokens, arguments_comma hc, arguments],
        by simp [tokensAll, tokens, countTail, endsInComma, hc]⟩
  · exact ⟨[], rfl, by simp [tokensAll, countTail, endsInComma]⟩
termination_by sizeAll ts
decreasing_by
  subst_vars
  simp only [sizeAll, size]
  omega

/-- The arguments of a call are counted by their commas. -/
theorem count_eq (args : List Tree) (grammatical : (node .firstArgument args).Grammatical table) :
    (node .firstArgument args).count =
      if endsInComma (tokensAll args) then
        .error ((arguments 0 (tokensAll args)).countP (!·.isEmpty) + 1)
      else .ok (if tokensAll args = [] then 0 else (arguments 0 (tokensAll args)).length) := by
  obtain ⟨shaped, parts⟩ := grammatical
  rcases argument_shape (.inl rfl) shaped with ⟨es, ts, rfl⟩ | rfl
  · have argument := undivided_expression es parts.1
    have present : tokensAll es ≠ [] := tokens_expression_ne_nil parts.1
    obtain ⟨later, cut, counts⟩ := countTail_eq 1 ts parts.2.1
    have whole : tokensAll [node .expression es, node .argumentTail ts] =
        tokensAll es ++ tokensAll ts := by
      simp [tokensAll, tokens]
    have first : arguments 0 (tokensAll es ++ tokensAll ts) = tokensAll es :: later := by
      simp [argument.arguments_append, cut]
    rw [count, counts, whole, argument.endsInComma_append, first]
    simp [present, Nat.add_comm]
  · simp [tokensAll, count, endsInComma]

/-- The parenthesis of a call is the one that its tokens open. -/
theorem opening_call {front : List Token} (back : List Token) {o c : Token} {args : List Tree}
    (grammatical : (node .firstArgument args).Grammatical table) (hc : c.kind = .closeParen)
    (ended : Turn.behind table front = .trailer) :
    opening front (some (node .call [leaf .openParen o, node .firstArgument args,
      leaf .closeParen c])) = openingIn table front (tokensAll args ++ c :: back) := by
  have balanced := balanced_arguments (.inl rfl) args grammatical
  have inner := balanced.inside_enclosed hc back
  have counted : arity (tokensAll args ++ c :: back) =
      if tokensAll args = [] then 0 else (arguments 0 (tokensAll args)).length := by
    rw [arity, inner, length_arguments]
    cases h : tokensAll args with
    | nil => simp [hc]
    | cons t ts =>
      have opens : t.kind ≠ .closeParen := by
        intro ht
        rw [h, List.cons_append, inside_closing ht] at inner
        cases inner
      simp [opens]
  rw [openingIn, inner, if_pos ended, counted, opening, count_eq args grammatical]
  cases endsInComma (tokensAll args) <;> rfl

/-- A parenthesis where an operand is due is no call. -/
theorem opening_group {front : List Token} (back : List Token) {o c : Token} {es : List Tree}
    (ks : List Tree) (grammatical : (node .expression es).Grammatical table)
    (hc : c.kind = .closeParen) (due : Turn.behind table front ≠ .trailer) :
    opening front (some (node .expression [leaf .openParen o, node .expression es,
      leaf .closeParen c, node .trailer ks])) =
      openingIn table front (tokensAll es ++ c :: back) := by
  have undivided := undivided_expression es grammatical
  have inner := undivided.balanced.inside_enclosed hc back
  rw [openingIn, inner, undivided.not_endsInComma, if_neg due]
  rfl

/-- Every parenthesis of a line has its partner. -/
theorem balanced_line {children : List Tree}
    (shaped : children.map symbol ∈ Rule.line.bodies ∨ children.map symbol = Rule.prefixed)
    (grammatical : AllGrammatical table children) : Balanced (tokensAll children) := by
  have operated {position : Position} {o : Token} {es : List Tree}
      (h : AllGrammatical table [leaf (.operator position) o, node .expression es]) :
      Balanced (tokensAll [leaf (.operator position) o, node .expression es]) := by
    have whole := (undivided_operator h.1).append (undivided_expression es h.2.1)
    simpa [tokensAll, tokens] using whole.balanced
  rcases shaped with shaped | shaped
  · rcases line_shape shaped with ⟨es, rfl⟩ | ⟨o, es, rfl⟩ | rfl
    · simpa [tokensAll, tokens] using (undivided_expression es grammatical.1).balanced
    · exact operated grammatical
    · exact .nil
  · obtain ⟨o, es, rfl⟩ := prefixed_shape shaped
    exact operated grammatical

/-- A parenthesis at the start of a line is no call. -/
theorem not_endsInComma_line {children : List Tree} {o : Token} {back : List Token}
    (shaped : children.map symbol ∈ Rule.line.bodies ∨ children.map symbol = Rule.prefixed)
    (grammatical : AllGrammatical table children) (first : tokensAll children = o :: back)
    (ho : o.kind = .openParen) : endsInComma (inside 0 back) = false := by
  have operated {position : Position} {o' : Token} {trees : List Tree}
      (accepted : (Terminal.operator position).accepts table o' = true)
      (first : tokensAll (leaf (.operator position) o' :: trees) = o :: back) : False := by
    obtain ⟨rfl, -⟩ := List.cons.inj first
    simp [Terminal.kind_of_operator accepted] at ho
  rcases shaped with shaped | shaped
  · rcases line_shape shaped with ⟨es, rfl⟩ | ⟨o', es, rfl⟩ | rfl
    · obtain ⟨shaped, parts⟩ := grammatical.1
      rcases expression_shape shaped with ⟨o', inner, c, ks, rfl⟩ | ⟨o', operand, rfl⟩ |
        ⟨v, ks, rfl⟩
      · have undivided := undivided_expression inner parts.2.1
        have hc := Terminal.kind_of_closeParen parts.2.2.1
        obtain rfl : tokensAll inner ++ c :: tokensAll ks = back := by
          simpa [tokensAll, tokens] using (List.cons.inj first).2
        rw [undivided.balanced.inside_enclosed hc, undivided.not_endsInComma]
      · exact (operated parts.1 (by simpa [tokensAll, tokens] using first)).elim
      · obtain ⟨rfl, -⟩ := List.cons.inj first
        rcases Terminal.kind_of_value parts.1 with h | h <;> simp [h] at ho
    · exact (operated grammatical.1 first).elim
    · cases first
  · obtain ⟨o', es, rfl⟩ := prefixed_shape shaped
    exact (operated grammatical.1 first).elim

end Tree

end Calculator
