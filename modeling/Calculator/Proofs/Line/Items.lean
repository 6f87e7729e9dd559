import Calculator.Proofs.Consistency.Reading
import Calculator.Proofs.Derivation.Reading
import Calculator.Proofs.Derivation.Refusal
import Calculator.Proofs.Item.Waiting
import Calculator.Proofs.Token.Literal

namespace Calculator

open Token

/-- The items of tokens, if the grammar accepts them. -/
def Token.items (table : OperatorTable) (tokens : List Token) : Except ReadError (List Item) := do
  let built ← Derivation.ofTokens table tokens
  built.items table tokens

/-- An opening parenthesis of these tokens whose partner comes right behind a comma. -/
structure LeftOpen (tokens front : List Token) (o : Token) (back : List Token) : Prop where
  around : tokens = front ++ o :: back
  opens : o.kind = .openParen
  ends : endsInComma (inside 0 back) = true

section Accepted

variable {table : OperatorTable} {tokens : List Token} {built : Derivation}

theorem Derivation.items_eq_itemsIn (accepted : Derivation.ofTokens table tokens = .ok built) :
    built.items table tokens =
      (itemsIn table [] tokens []).map (impliedItems table tokens ++ ·) := by
  obtain ⟨tree, line, predicted, rfl, nodes⟩ := Derivation.exists_predicted accepted
  obtain ⟨children, rfl⟩ := Tree.symbol_eq_rule.mp line
  have same := Derivation.items_eq nodes (Tree.allGrammatical_line predicted)
  exact same.trans (Tree.readsLine_of_predicted predicted)

/-- The items of tokens are found without a derivation. -/
theorem Token.items_eq (table : OperatorTable) (tokens : List Token) :
    Token.items table tokens = (do
      Prospect.line.run table tokens
      let read ← itemsIn table [] tokens []
      return impliedItems table tokens ++ read) := by
  have walked : (Derivation.ofTokens table tokens).map (fun _ => ()) =
      Prospect.line.run table tokens := Derivation.ofTokens_eq_run tokens
  rw [Token.items, ← walked]
  cases accepted : Derivation.ofTokens table tokens with
  | error e => rfl
  | ok built =>
    rw [ok_bind, Derivation.items_eq_itemsIn accepted]
    cases itemsIn table [] tokens [] <;> rfl

/-- A line is read token by token, item by item, and put in order. -/
theorem Line.read_eq (line : String) : read line = (do
    let tokens ← scan line
    let items ← Token.items .standard tokens
    Item.toPostfix items) := by
  rw [read]
  cases scan line with
  | error e => rfl
  | ok tokens =>
    simp only [Token.items, ok_bind]
    cases Derivation.ofTokens .standard tokens <;> rfl

/-- Lines with the same tokens are evaluated alike. -/
theorem Line.evaluate_congr {line line' : String} (same : Token.scan line = Token.scan line')
    (functions : FunctionTable) (env : Environment) :
    evaluate functions env line = evaluate functions env line' := by
  have read : read line = read line' := by rw [read_eq, read_eq, same]
  rw [evaluate, evaluate, read]

theorem Derivation.balanced_of_accepted (accepted : Derivation.ofTokens table tokens = .ok built) :
    Balanced tokens := by
  obtain ⟨tree, line, predicted, rfl, -⟩ := Derivation.exists_predicted accepted
  obtain ⟨children, rfl⟩ := Tree.symbol_eq_rule.mp line
  exact Tree.balanced_line (Tree.line_body predicted.1) (Tree.allGrammatical_line predicted)

/-- What is called stands in front of an argument list. -/
theorem LeftOpen.callee {front back : List Token} {o : Token} (h : LeftOpen tokens front o back)
    (accepted : Derivation.ofTokens table tokens = .ok built) :
    ∃ before callee, front = before ++ [callee] := by
  obtain ⟨tree, line, predicted, rfl, -⟩ := Derivation.exists_predicted accepted
  obtain ⟨children, rfl⟩ := Tree.symbol_eq_rule.mp line
  rcases List.eq_nil_or_concat' front with rfl | ⟨before, callee, rfl⟩
  · have first := Tree.not_endsInComma_line (Tree.line_body predicted.1)
      (Tree.allGrammatical_line predicted) h.around h.opens
    simp [h.ends] at first
  · exact ⟨before, callee, rfl⟩

theorem LeftOpen.itemIn_eq (table : OperatorTable) {front back : List Token} {o : Token}
    (h : LeftOpen tokens front o back) : ∃ e, o.itemIn table front back = .error e := by
  rw [itemIn, h.opens]
  simp [openingIn, h.ends]

/-- A comma right before a closing parenthesis leaves the argument list around it open. -/
theorem exists_leftOpen (balanced : Balanced tokens) {front back : List Token} {c p : Token}
    (around : tokens = front ++ c :: p :: back) (hc : c.kind = .comma) (hp : p.kind = .closeParen) :
    ∃ before o later, LeftOpen tokens before o later := by
  have split : tokens = (front ++ [c]) ++ p :: back := by simpa using around
  obtain ⟨before, o, inner, closed, hi, ho⟩ := balanced.opened split hp
  have present : inner ≠ [] := by
    rintro rfl
    obtain rfl : c = o := by simpa using congrArg List.getLast? closed
    simp [ho] at hc
  refine ⟨before, o, inner ++ p :: back, by simp [split, closed], ho, ?_⟩
  have whole : endsInComma (before ++ o :: inner) = true := by
    rw [← closed, endsInComma_append (List.cons_ne_nil _ _)]
    simp [endsInComma, hc]
  rw [hi.inside_enclosed hp, ← whole, List.append_cons, endsInComma_append present]

theorem LeftOpen.comma (balanced : Balanced tokens) {front back : List Token} {o : Token}
    (h : LeftOpen tokens front o back) :
    ∃ before c p later, tokens = before ++ c :: p :: later ∧ c.kind = .comma ∧
      p.kind = .closeParen := by
  obtain ⟨inner, p, later, rfl, hi, hp⟩ := balanced.closed h.around h.opens
  have ends := h.ends
  rw [hi.inside_enclosed hp] at ends
  rcases List.eq_nil_or_concat inner with rfl | ⟨argument, c, rfl⟩
  · cases ends
  · have hc : c.kind = .comma := by simpa [endsInComma] using ends
    exact ⟨front ++ o :: argument, c, p, later, by simp [h.around], hc, hp⟩

end Accepted

/-- Between their neighbours the tokens of a line fail only where an argument list is left open. -/
theorem itemIn_eq_error {table : OperatorTable} {front back : List Token} {token : Token}
    {e : ReadError} (failed : token.itemIn table front back = .error e)
    (defined : ¬ e.Internal) (scannable : token.kind = .number → Scannable token.text) :
    LeftOpen (front ++ token :: back) front token back ∧
      e = .emptyArgument ((front.getLast?.map Token.text).getD "")
        ((arguments 0 (inside 0 back)).countP (!·.isEmpty) + 1) := by
  unfold itemIn at failed
  split at failed
  · next number =>
    obtain ⟨n, hn⟩ := (scannable number).read
    simp [Derivation.value, number, hn] at failed
  · next name => simp [Derivation.value, name] at failed
  · next operator =>
    cases found : table.find token.text
        ((Turn.behind table front).position table token.text) with
    | ok d => simp [found, Except.map] at failed
    | error cause =>
      obtain rfl : cause = e := by simpa [found, Except.map] using failed
      unfold OperatorTable.find at found
      repeat' split at found
      all_goals cases found
      all_goals exact absurd trivial defined
  · next opens =>
    unfold openingIn at failed
    split at failed
    · next ends => exact ⟨⟨rfl, opens, ends⟩, (Except.error.inj failed).symm⟩
    · split at failed <;> cases failed
  · cases failed
  · cases failed

/-- The first token without an item opens the first argument list that is left open. -/
theorem leftmost_of_error {table : OperatorTable} {tokens : List Token} {e : ReadError}
    (failed : itemsIn table [] tokens [] = .error e) (defined : ¬ e.Internal)
    (scannable : ∀ t ∈ tokens, t.kind = .number → Scannable t.text) :
    ∃ front o back, LeftOpen tokens front o back ∧
      (∀ front' o' back', LeftOpen tokens front' o' back' → front.length ≤ front'.length) ∧
      e = .emptyArgument ((front.getLast?.map Token.text).getD "")
        ((arguments 0 (inside 0 back)).countP (!·.isEmpty) + 1) := by
  obtain ⟨front, o, back, items, rfl, before, here⟩ := itemsIn_eq_error failed
  rw [List.nil_append, List.append_nil] at here
  obtain ⟨leftOpen, rfl⟩ := itemIn_eq_error here defined (scannable o (by simp))
  refine ⟨front, o, back, leftOpen, ?_, rfl⟩
  intro front' o' back' other
  rcases append_eq_around other.around with ⟨later, rfl, rfl⟩ | ⟨later, -, rfl⟩
  · obtain ⟨item, -, found⟩ := getElem?_itemsIn before rfl
    obtain ⟨e', refused⟩ := other.itemIn_eq table
    simp [refused] at found
  · simp

/-- The items of an accepted line are one for each token, in order, as the token stands among the
others, behind the last result where it is implied. They fail exactly where a comma comes right
before a closing parenthesis, for the argument that is left out of the first call of this kind. -/
theorem items_of_tokens {table : OperatorTable} {tokens : List Token} {built : Derivation}
    (unambiguous : table.Unambiguous)
    (scannable : ∀ t ∈ tokens, t.kind = .number → Scannable t.text)
    (accepted : Derivation.ofTokens table tokens = .ok built) :
    ((∃ e, built.items table tokens = .error e) ↔
      ∃ front c p back, tokens = front ++ c :: p :: back ∧ c.kind = .comma ∧
        p.kind = .closeParen) ∧
    (∀ e, built.items table tokens = .error e → ∃ front callee o back,
      LeftOpen tokens (front ++ [callee]) o back ∧
      (∀ front' o' back', LeftOpen tokens front' o' back' → front.length < front'.length) ∧
      e = .emptyArgument callee.text
        ((arguments 0 (inside 0 back)).countP (!·.isEmpty) + 1)) ∧
    (∀ items, built.items table tokens = .ok items → ∃ read,
      items = impliedItems table tokens ++ read ∧ read.length = tokens.length ∧
      ∀ front t back, tokens = front ++ t :: back →
        ∃ item, read[front.length]? = some item ∧ t.itemIn table front back = .ok item) := by
  have flat := Derivation.items_eq_itemsIn accepted
  have balanced := Derivation.balanced_of_accepted accepted
  have first {e : ReadError} (failed : built.items table tokens = .error e) :=
    leftmost_of_error (e := e)
      (by rw [flat] at failed; cases read : itemsIn table [] tokens [] <;> simp_all [Except.map])
      (Derivation.avoids_items_of_accepted unambiguous accepted e failed) scannable
  refine ⟨⟨?_, ?_⟩, ?_, ?_⟩
  · rintro ⟨e, failed⟩
    obtain ⟨front, o, back, leftOpen, -, -⟩ := first failed
    exact leftOpen.comma balanced
  · rintro ⟨front, c, p, back, around, hc, hp⟩
    obtain ⟨before, o, later, leftOpen⟩ := exists_leftOpen balanced around hc hp
    obtain ⟨e, refused⟩ := leftOpen.itemIn_eq table
    cases read : itemsIn table [] tokens [] with
    | error e => exact ⟨e, by rw [flat, read]; rfl⟩
    | ok items =>
      obtain ⟨item, -, found⟩ := getElem?_itemsIn read leftOpen.around
      simp [refused] at found
  · intro e failed
    obtain ⟨front, o, back, leftOpen, leftmost, rfl⟩ := first failed
    obtain ⟨before, callee, rfl⟩ := leftOpen.callee accepted
    refine ⟨before, callee, o, back, leftOpen, ?_, by simp⟩
    intro front' o' back' other
    have := leftmost front' o' back' other
    simp only [List.length_append, List.length_singleton] at this
    omega
  · intro items resolved
    rw [flat] at resolved
    cases read : itemsIn table [] tokens [] with
    | error e => simp [read, Except.map] at resolved
    | ok later =>
      obtain rfl : impliedItems table tokens ++ later = items := by
        simpa [read, Except.map] using resolved
      refine ⟨later, rfl, length_itemsIn read, ?_⟩
      intro front t back around
      simpa using getElem?_itemsIn read around

/-- A minus before its operand, a call of two arguments within a group, a factorial behind it. -/
example : (scan "-(f(1, 2))!").bind (Token.items .standard) = .ok [
    .operator (.before "-" (.unary .negate)), .openParen, .name "f", .call 2, .literal (.integer 1),
    .comma, .literal (.integer 2), .closeParen, .closeParen,
    .operator (.after "!" (.unary .factorial))] := by
  decide +kernel

/-- The line `f(1,)` is accepted and lacks the second argument of `f`. -/
theorem items_of_tokens_open_list :
    let f : Token := ⟨.name, "f", 0, 1⟩
    let o : Token := ⟨.openParen, "(", 1, 2⟩
    let one : Token := ⟨.number, "1", 2, 3⟩
    let comma : Token := ⟨.comma, ",", 3, 4⟩
    let c : Token := ⟨.closeParen, ")", 4, 5⟩
    Scannable "1" ∧ ∃ built, Derivation.ofTokens .standard [f, o, one, comma, c] = .ok built ∧
      built.items .standard [f, o, one, comma, c] = .error (.emptyArgument "f" 2) := by
  intro f o one comma c
  have scanned : scan "1" = .ok [⟨.number, "1", 0, 1⟩] := by decide +kernel
  have scannable : Scannable "1" := ⟨"1", _, scanned, _, List.mem_singleton_self _, rfl, rfl⟩
  obtain ⟨built, accepted⟩ : OperatorTable.standard.Accepts [f, o, one, comma, c] :=
    OperatorTable.accepts_iff.mpr rfl
  obtain ⟨fails, described, -⟩ := items_of_tokens OperatorTable.unambiguous_standard
    (by simp [f, o, one, comma, c, scannable]) accepted
  obtain ⟨e, failed⟩ := fails.mpr ⟨[f, o, one], comma, c, [], rfl, rfl, rfl⟩
  obtain ⟨front, callee, o', back, leftOpen, leftmost, rfl⟩ := described e failed
  have call : LeftOpen [f, o, one, comma, c] [f] o [one, comma, c] := ⟨rfl, rfl, rfl⟩
  obtain rfl : front = [] := by simpa using leftmost _ _ _ call
  obtain ⟨rfl, rfl, rfl⟩ : f = callee ∧ o = o' ∧ [one, comma, c] = back := by
    simpa using leftOpen.around
  exact ⟨scannable, built, accepted, failed⟩

/-- A call has at most as many arguments as there are tokens from its parenthesis on. -/
theorem Token.arity_le_of_itemIn {table : OperatorTable} {front back : List Token} {t : Token}
    {n : Nat} (h : t.itemIn table front back = .ok (.call n)) : n ≤ back.length + 1 := by
  unfold itemIn at h
  split at h
  · rcases Derivation.value_eq_ok h with ⟨_, same⟩ | ⟨_, same⟩ <;> cases same
  · rcases Derivation.value_eq_ok h with ⟨_, same⟩ | ⟨_, same⟩ <;> cases same
  · cases found : table.find t.text ((Turn.behind table front).position table t.text) with
    | error e => simp [found, Except.map] at h
    | ok d => simp [found, Except.map] at h
  · unfold openingIn at h
    repeat' split at h
    all_goals cases h
    exact arity_le back
  · cases h
  · cases h

/-- No call of a line is without room if there is room for as many operands as the line has tokens. -/
theorem Line.hasRoom_of_read {size : Nat} {line : String} {tokens : List Token} {items : List Item}
    (scanned : scan line = .ok tokens) (short : tokens.length * size ≤ greatestRoom)
    (found : read line = .ok items) : ∀ item ∈ items, item.hasRoom size = true := by
  intro item present
  rw [read_eq, scanned, ok_bind] at found
  obtain ⟨source, resolved, ordered⟩ := bind_eq_ok.mp found
  have listed : item ∈ source := Item.mem_of_toPostfix ordered present
  rw [Token.items_eq] at resolved
  obtain ⟨-, -, resolved⟩ := bind_eq_ok.mp resolved
  obtain ⟨own, read, resolved⟩ := bind_eq_ok.mp resolved
  obtain rfl := Except.ok.inj resolved
  cases item with
  | call arity =>
    have mine : Item.call arity ∈ own := by
      unfold impliedItems at listed
      split at listed <;> simpa using listed
    obtain ⟨xs, t, ys, rfl, call⟩ := exists_of_mem_itemsIn read mine
    have few : arity ≤ (xs ++ t :: ys).length := by
      have counted := arity_le_of_itemIn call
      simp only [List.append_nil] at counted
      simp only [List.length_append, List.length_cons]
      omega
    exact decide_eq_true ((Nat.mul_le_mul_right size few).trans short)
  | _ => rfl

end Calculator
