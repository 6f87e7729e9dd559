import Calculator.Proofs.Line.Phrases
import Calculator.Proofs.Number
import Calculator.Proofs.Phrase.Uniqueness

namespace Calculator

namespace Expression

variable {table : OperatorTable}

mutual

/-- The text of a tree. -/
def print : Expression table → String
  | literal n => n.text
  | name x => x
  | group inner => "(" ++ inner.print ++ ")"
  | before d operand => "(" ++ d.val.symbol ++ operand.print ++ ")"
  | after d operand => "(" ++ operand.print ++ d.val.symbol ++ ")"
  | between d left right => "(" ++ left.print ++ " " ++ d.val.symbol ++ " " ++ right.print ++ ")"
  | call callee args => callee.print ++ "(" ++ ",".intercalate (printAll args) ++ ")"

def printAll : List (Expression table) → List String
  | [] => []
  | e :: es => e.print :: printAll es

end

mutual

/-- Literals are whole and not negative, and names are such as scanning finds. -/
def Printable : Expression table → Prop
  | literal n => ∃ i : Int64, n = .integer i ∧ 0 ≤ i.toInt
  | name x => Token.IsName x.toList
  | group e | before _ e | after _ e => e.Printable
  | between _ left right => left.Printable ∧ right.Printable
  | call callee args => callee.Printable ∧ AllPrintable args

def AllPrintable : List (Expression table) → Prop
  | [] => True
  | e :: es => e.Printable ∧ AllPrintable es

end

mutual

/-- The tree with the parentheses that printing puts around operators. -/
def enclosed : Expression table → Expression table
  | literal n => literal n
  | name x => name x
  | group inner => group inner.enclosed
  | before d operand => group (before d operand.enclosed)
  | after d operand => group (after d operand.enclosed)
  | between d left right => group (between d left.enclosed right.enclosed)
  | call callee args => call callee.enclosed (enclosedAll args)

def enclosedAll : List (Expression table) → List (Expression table)
  | [] => []
  | e :: es => e.enclosed :: enclosedAll es

end

theorem length_enclosedAll (es : List (Expression table)) :
    (enclosedAll es).length = es.length := by
  induction es with
  | nil => rfl
  | cons e es ih => simp [enclosedAll, ih]

mutual

theorem postorder_enclosed : (e : Expression table) → e.enclosed.postorder = e.postorder
  | literal _ | name _ => rfl
  | group e => postorder_enclosed e
  | before d e | after d e => by simp [enclosed, postorder, postorder_enclosed e]
  | between d left right => by
    simp [enclosed, postorder, postorder_enclosed left, postorder_enclosed right]
  | call callee args => by
    simp [enclosed, postorder, postorder_enclosed callee, postorderAll_enclosed args,
      length_enclosedAll]

theorem postorderAll_enclosed :
    (es : List (Expression table)) → postorderAll (enclosedAll es) = postorderAll es
  | [] => rfl
  | e :: es => by
    simp [enclosedAll, postorderAll, postorder_enclosed e, postorderAll_enclosed es]

end

mutual

/-- A tree in which parentheses enclose all operators is grouped as an operand is, whatever waits
for it and whatever comes behind it. -/
theorem tree_phrase_enclosed (spine : List (Frame table)) (k : Trailer table) :
    (e : Expression table) → (e.enclosed.phrase k).tree spine = k.tree spine e.enclosed none
  | literal _ | name _ => rfl
  | group e => by
    simp [enclosed, phrase, Phrase.tree, tree_phrase_enclosed [] .done e, Trailer.tree, Frame.plug,
      settled]
  | before d e => by
    simp [enclosed, phrase, Phrase.tree, tree_phrase_enclosed [.before d] .done e, Trailer.tree,
      Frame.plug, Frame.fill, settled]
  | after d e => by
    simp [enclosed, phrase, Phrase.tree, tree_phrase_enclosed [] (.after d .done) e, Trailer.tree,
      Frame.plug, settled]
  | between d left right => by
    simp [enclosed, phrase, Phrase.tree,
      tree_phrase_enclosed [] (.between d (right.enclosed.phrase .done)) left,
      tree_phrase_enclosed [.between d left.enclosed] .done right, Trailer.tree, Frame.plug,
      Frame.fill, settled]
  | call callee args => by
    simp [enclosed, phrase,
      tree_phrase_enclosed spine (.call (phrases (enclosedAll args)) k) callee, Trailer.tree,
      trees_phrases_enclosed args]

theorem trees_phrases_enclosed :
    (es : List (Expression table)) → Phrase.trees (phrases (enclosedAll es)) = enclosedAll es
  | [] => rfl
  | e :: es => by
    simp [enclosedAll, phrases, Phrase.trees, tree_phrase_enclosed [] .done e,
      trees_phrases_enclosed es, Trailer.tree, Frame.plug, settled]

end

end Expression

namespace Expression

open Token

/-- What a printed tree begins with makes no operator in front of it longer. -/
theorem unpaired_print (rest : List Char) :
    (e : Expression .standard) → e.Printable → Unpaired (e.print.toList ++ rest)
  | literal _, ⟨i, rfl, nonneg⟩ => by
    obtain ⟨present, digits, -⟩ := Number.text_digits nonneg
    exact unpaired_word present fun c hc => isNameRest_of_isDigit (digits c hc)
  | name x, h => unpaired_word h.word.1 h.word.2
  | group _, _ | before _ _, _ | after _ _, _ | between _ _ _, _ => by
    have opens (text : List Char) : Unpaired ('(' :: text) := unpaired_cons (by decide)
    simpa [print] using opens _
  | call callee args, h => by
    simpa [print] using unpaired_print _ callee h.1

mutual

/-- A printed tree spells its items, with all parentheses among them, in front of whatever ends a
name or a numeral. -/
theorem spells_print {rest : List Char} {items : List Item} (ends : Ends rest)
    (later : Spells rest items) : (e : Expression .standard) → e.Printable →
      Spells (e.print.toList ++ rest) (e.enclosed.source ++ items)
  | literal _, ⟨i, rfl, nonneg⟩ => by
    obtain ⟨present, digits, read⟩ := Number.text_digits nonneg
    exact .literal present digits read ends later
  | name x, h => .name h ends later
  | group inner, h => by
    have inside := spells_print (ends_cons (by decide)) later.closeParen inner h
    simpa [print, enclosed, source] using inside.openParen
  | before d operand, h => by
    have inside := spells_print (ends_cons (by decide)) later.closeParen operand h
    have operator := inside.operator d.2.1 (unpaired_print _ operand h)
    simpa [print, enclosed, source] using operator.openParen
  | after d operand, h => by
    have operator := later.closeParen.operator d.2.1 (unpaired_cons (by decide))
    have inside := spells_print (ends_operator d.2.1) operator operand h
    simpa [print, enclosed, source] using inside.openParen
  | between d left right, h => by
    -- What a token spells depends on all that comes behind it, so the text is made up from its end.
    have blank : isBlank ' ' = true := rfl
    have second := spells_print (ends_cons (by decide)) later.closeParen right h.2
    have operator := (second.blank blank).operator d.2.1 (unpaired_cons (by decide))
    have first := spells_print (ends_cons (by decide)) (operator.blank blank) left h.1
    simpa [print, enclosed, source] using first.openParen
  | call callee args, h => by
    have inside := spells_arguments (ends_cons (by decide)) later.closeParen args h.2
    have called := spells_print (ends_cons (by decide)) (inside.call args.length) callee h.1
    simpa [print, enclosed, source, length_enclosedAll] using called

/-- Printed arguments spell their items, with a comma between any two. -/
theorem spells_arguments {rest : List Char} {items : List Item} (ends : Ends rest)
    (later : Spells rest items) : (es : List (Expression .standard)) → AllPrintable es →
      Spells ((",".intercalate (printAll es)).toList ++ rest)
        (Item.listed (sourceAll (enclosedAll es)) ++ items)
  | [], _ => by simpa [printAll, enclosedAll, sourceAll, Item.listed] using later
  | [e], h => by
    have alone := spells_print ends later e h.1
    simpa [printAll, enclosedAll, sourceAll, Item.listed] using alone
  | e :: e' :: es, h => by
    have behind := spells_arguments ends later (e' :: es) h.2
    have first := spells_print (ends_cons (by decide)) behind.comma e h.1
    simpa [printAll, enclosedAll, sourceAll, Item.listed, String.intercalate_cons_cons] using first

end

end Expression

open Expression

/-- Reading a printed tree gives the tree back: its postfix order, with the definition of each of
its operators and the number of arguments of each of its calls. -/
theorem read_print (e : Expression .standard) (h : e.Printable) :
    Line.read e.print = .ok e.postorder := by
  have ends : Token.Ends [] := by simp [Token.Ends]
  have spelled := spells_print ends .done e h
  rw [List.append_nil, List.append_nil] at spelled
  have items : (e.enclosed.phrase .done).items = e.enclosed.source := by
    simp [items_phrase, Trailer.items]
  have tree : (e.enclosed.phrase .done).tree [] = e.enclosed := tree_phrase_enclosed [] .done e
  have resolved := Line.items_of_spells (e.enclosed.phrase .done) (items ▸ spelled)
  rw [Line.read_phrase _ resolved, tree, postorder_enclosed]

/-- The call of `f` with `-x`, `y++ + 3` and a call of `g` without arguments. -/
theorem read_print_call :
    let minus : Operator := .before "-" (.unary .negate)
    let increment : Operator := .after "++" .increment
    let plus : Operator := .between "+" 20 (.binary .add)
    let sum : Expression .standard :=
      .between ⟨plus, by decide⟩ (.after ⟨increment, by decide⟩ (.name "y")) (.literal (.integer 3))
    let e : Expression .standard :=
      .call (.name "f") [.before ⟨minus, by decide⟩ (.name "x"), sum, .call (.name "g") []]
    e.Printable ∧ e.print = "f((-x),((y++) + 3),g())" ∧
      Line.read e.print = .ok [.name "f", .name "x", .operator minus, .name "y",
        .operator increment, .literal (.integer 3), .operator plus, .name "g", .call 0,
        .call 3] := by
  intro minus increment plus sum e
  have named (c : Char) (h : Token.isNameStart c = true) :
      Token.IsName (String.singleton c).toList := by
    simp [Token.IsName, h]
  have printable : e.Printable :=
    ⟨named 'f' rfl, named 'x' rfl, ⟨named 'y' rfl, 3, rfl, by decide⟩, ⟨named 'g' rfl, trivial⟩,
      trivial⟩
  exact ⟨printable, by decide +kernel, read_print e printable⟩

end Calculator
