import Calculator.Line
import Calculator.Proofs.Grammar.Prediction
import Calculator.Proofs.Phrase.Derivation
import Calculator.Proofs.Phrase.Postfix

namespace Calculator

/-- Failures that mean that the steps of reading do not fit together. -/
def ReadError.Internal : ReadError → Prop
  | .noOperator .. | .ambiguousOperator .. | .unbalanced => True
  | _ => False

namespace Token

theorem avoids_scanFrom (place : Nat) (text : List Char) :
    Avoids ReadError.Internal (scanFrom place text) := by
  induction place, text using scanFrom.induct with
  | case1 place => simp [scanFrom]
  | case2 place c r blank ih => simpa [scanFrom, blank] using ih
  | case3 place c r word none =>
    rw [scanFrom, if_neg word]
    split
    · simp [ReadError.Internal]
    · simp_all
  | case4 place c r word kind lexeme found present stop ih =>
    rw [scanFrom, if_neg word]
    split
    · simp_all
    · next kind' lexeme' found' =>
      obtain ⟨rfl, rfl⟩ := Prod.mk.inj (Option.some.inj (found.symm.trans found'))
      exact avoids_bind ih fun later _ => avoids_ok _ _

end Token

namespace Derivation

/-- Building a derivation fails at a token, or at the end of the line. -/
theorem avoids_build {table : OperatorTable} (t : Derivation) (place : Nat) :
    (work : List Task) → (tokens : List Token) →
      Avoids ReadError.Internal (build table t place work tokens)
  | [], [] => by simp [build_done]
  | [], token :: tokens => by simp [build_left, ReadError.Internal]
  | .close id :: work, tokens => by
    rw [build_close]
    exact avoids_build _ place work tokens
  | .expand (.terminal terminal) parent :: work, [] => by
    simp [build_missing, ReadError.Internal]
  | .expand (.terminal terminal) parent :: work, token :: tokens => by
    cases ha : terminal.accepts table token with
    | false => simp [build_mismatch ha, ReadError.Internal]
    | true =>
      rw [build_take ha]
      exact avoids_build _ (place + 1) work tokens
  | .expand (.rule rule) parent :: work, tokens => by
    cases hb : rule.body? (.of table tokens.head?) with
    | none =>
      rw [build_refuse hb, avoids_error]
      unfold Rule.refusal
      repeat' split
      all_goals simp [ReadError.Internal]
    | some body =>
      rw [build_replace hb]
      exact avoids_build _ place (Task.below t.size body work) tokens
termination_by work tokens => (tokens.length, Task.rank work)
decreasing_by
  · exact Prod.Lex.right _ (Nat.lt_succ_self _)
  · exact Prod.Lex.left _ _ (Nat.lt_succ_self _)
  · exact Prod.Lex.right _ (Task.rank_below_lt hb t.size parent work)

theorem avoids_value (token : Token) : Avoids ReadError.Internal (value token) := by
  unfold value
  repeat' split
  all_goals simp [ReadError.Internal]

end Derivation

namespace Tree

theorem avoids_opening (front : List Token) (above : Option Tree) :
    Avoids ReadError.Internal (opening front above) := by
  unfold opening
  repeat' split
  all_goals simp [ReadError.Internal]

theorem avoids_leafItems {table : OperatorTable} (unambiguous : table.Unambiguous)
    (above : Option Tree) (front : List Token) {token : Token} {terminal : Terminal}
    (h : terminal.accepts table token = true) :
    Avoids ReadError.Internal (leafItems table above front token terminal) := by
  cases terminal with
  | operator position =>
    obtain ⟨d, found⟩ := OperatorTable.exists_find unambiguous (Terminal.supports_of_accepts h)
    simp [leafItems, found]
  | value => exact avoids_bind (Derivation.avoids_value token) fun item _ => avoids_ok _ _
  | openParen => exact avoids_bind (avoids_opening front above) fun item _ => avoids_ok _ _
  | _ => simp [leafItems]

mutual

/-- Every operator of a grammatical tree has its definition. -/
theorem avoids_items {table : OperatorTable} (unambiguous : table.Unambiguous)
    (above : Option Tree) (front : List Token) :
    (tree : Tree) → tree.Grammatical table →
      Avoids ReadError.Internal (tree.items table above front)
  | leaf _ _, h => avoids_leafItems unambiguous above front h
  | node rule children, h =>
    avoids_itemsAll unambiguous (some (node rule children)) front children h.2

theorem avoids_itemsAll {table : OperatorTable} (unambiguous : table.Unambiguous)
    (above : Option Tree) (front : List Token) :
    (trees : List Tree) → AllGrammatical table trees →
      Avoids ReadError.Internal (itemsAll table above front trees)
  | [], _ => avoids_ok _ _
  | c :: cs, h =>
    avoids_bind (avoids_items unambiguous above front c h.1) fun _ _ =>
      avoids_bind (avoids_itemsAll unambiguous above (front ++ c.tokens) cs h.2) fun _ _ =>
        avoids_ok _ _

end

end Tree

namespace Derivation

/-- The items of a derivation fail for a token of the line. -/
theorem avoids_items_of_accepted {table : OperatorTable} (unambiguous : table.Unambiguous)
    {tokens : List Token} {built : Derivation} (accepted : ofTokens table tokens = .ok built) :
    Avoids ReadError.Internal (built.items table tokens) := by
  obtain ⟨tree, line, predicted, rfl, nodes⟩ := exists_predicted accepted
  obtain ⟨children, rfl⟩ := Tree.symbol_eq_rule.mp line
  have grammatical := Tree.allGrammatical_line predicted
  rw [Tree.tokens, items_eq nodes grammatical]
  exact Tree.avoids_itemsAll unambiguous (some (.node .line children)) [] children grammatical

end Derivation

namespace Line

/-- A line that is read is empty or has the items of a tree in postfix order. -/
theorem read_cases {line : String} {items : List Item} (h : read line = .ok items) :
    (Token.scan line = .ok [] ∧ items = []) ∨
      ∃ tokens, Token.scan line = .ok tokens ∧ tokens ≠ [] ∧
        ∃ e : Expression .standard, items = e.postorder := by
  obtain ⟨tokens, scanned, h⟩ := bind_eq_ok.mp h
  obtain ⟨built, accepted, h⟩ := bind_eq_ok.mp h
  obtain ⟨source, resolved, h⟩ := bind_eq_ok.mp h
  rcases Derivation.items_cases accepted resolved with ⟨rfl, rfl⟩ | ⟨present, p, rfl⟩
  · exact .inl ⟨scanned, (Except.ok.inj h).symm⟩
  · rw [toPostfix_phrase] at h
    exact .inr ⟨tokens, scanned, present, p.tree [], (Except.ok.inj h).symm⟩

theorem avoids_read (line : String) : Avoids ReadError.Internal (read line) := by
  apply avoids_bind (Token.avoids_scanFrom 0 line.toList)
  intro tokens _
  apply avoids_bind (Derivation.avoids_build .empty 0 _ tokens)
  intro built accepted
  have resolves :=
    Derivation.avoids_items_of_accepted OperatorTable.unambiguous_standard accepted
  apply avoids_bind resolves
  intro items resolved
  rcases Derivation.items_cases accepted resolved with ⟨-, rfl⟩ | ⟨-, p, rfl⟩
  · exact avoids_ok _ _
  · rw [toPostfix_phrase]
    exact avoids_ok _ _

end Line

end Calculator
