import Calculator.Proofs.Derivation.Prospect
import Calculator.Proofs.Token.Reading
import Calculator.Proofs.Token.Separation

namespace Calculator

open Token

variable (n : Nat)

namespace Prospect

theorem begin_moved (opened : List Enclosure) (token : Token) (l : Lookahead) :
    begin opened (token.moved n) l = (begin opened token l).mapError (ReadError.moved n) := by
  unfold begin
  split <;> rfl

theorem advance_moved (token : Token) (p : Prospect) (l : Lookahead) :
    p.advance (token.moved n) l = (p.advance token l).mapError (ReadError.moved n) := by
  unfold advance
  split <;> first | rfl | exact begin_moved n _ token _

theorem finish_moved (p : Prospect) : p.finish.mapError (ReadError.moved n) = p.finish := by
  unfold finish
  split <;> rfl

/-- A line is accepted or refused at the same token wherever it stands. -/
theorem run_moved (table : OperatorTable) (p : Prospect) (tokens : List Token) :
    p.run table (tokens.map (moved n)) = (p.run table tokens).mapError (ReadError.moved n) := by
  induction tokens generalizing p with
  | nil => exact (finish_moved n p).symm
  | cons token rest ih =>
    have next : p.next table (token.moved n) = (p.next table token).mapError (ReadError.moved n) :=
      advance_moved n token p (.of table (some token))
    rw [List.map_cons, run, run, next, mapError_bind]
    simp only [ih]

end Prospect

namespace Token

theorem inside_moved (depth : Nat) (tokens : List Token) :
    inside depth (tokens.map (moved n)) = (inside depth tokens).map (moved n) := by
  induction depth, tokens using inside.induct <;> simp_all [inside]

theorem directCommas_moved (depth : Nat) (tokens : List Token) :
    directCommas depth (tokens.map (moved n)) = directCommas depth tokens := by
  induction depth, tokens using directCommas.induct <;> simp_all [directCommas]

theorem modifyHead_moved (token : Token) (parts : List (List Token)) :
    (parts.map (·.map (moved n))).modifyHead (token.moved n :: ·) =
      (parts.modifyHead (token :: ·)).map (·.map (moved n)) := by
  cases parts <;> rfl

theorem arguments_moved (depth : Nat) (tokens : List Token) :
    arguments depth (tokens.map (moved n)) = (arguments depth tokens).map (·.map (moved n)) := by
  induction depth, tokens using arguments.induct <;> simp_all [arguments, modifyHead_moved]

theorem endsInComma_moved (tokens : List Token) :
    endsInComma (tokens.map (moved n)) = endsInComma tokens := by
  rw [endsInComma, endsInComma, List.getLast?_map]
  cases tokens.getLast? <;> rfl

theorem arity_moved (back : List Token) : arity (back.map (moved n)) = arity back := by
  rw [arity, arity, inside_moved, directCommas_moved, List.head?_map]
  cases back.head? <;> rfl

/-- What an item depends on in front of its token. -/
def outlook (table : OperatorTable) (front : List Token) : Turn × Option String :=
  (Turn.behind table front, front.getLast?.map text)

section Items

variable {table : OperatorTable} {front front' : List Token}

theorem outlook_concat (h : outlook table front = outlook table front') (token : Token) :
    outlook table (front ++ [token]) = outlook table (front' ++ [token.moved n]) := by
  obtain ⟨turn, -⟩ := Prod.mk.inj h
  have next : (Turn.behind table front).next table token =
      (Turn.behind table front').next table (token.moved n) := by
    rw [turn]
    rfl
  simp [outlook, next]

theorem openingIn_moved (h : outlook table front = outlook table front') (back : List Token) :
    openingIn table front' (back.map (moved n)) =
      (openingIn table front back).mapError (ReadError.moved n) := by
  obtain ⟨turn, callee⟩ := Prod.mk.inj h
  have filled : (arguments 0 ((inside 0 back).map (moved n))).countP (!·.isEmpty) =
      (arguments 0 (inside 0 back)).countP (!·.isEmpty) := by
    rw [arguments_moved, List.countP_map]
    simp [Function.comp_def]
  simp only [openingIn, inside_moved, endsInComma_moved, arity_moved, turn, callee, filled]
  split
  · rfl
  · split <;> rfl

theorem value_moved (token : Token) :
    Derivation.value (token.moved n) = (Derivation.value token).mapError (ReadError.moved n) := by
  simp only [Derivation.value, moved_kind, moved_text]
  repeat' split
  all_goals rfl

theorem find_moved (table : OperatorTable) (symbol : String) (position : Position) :
    (table.find symbol position).mapError (ReadError.moved n) = table.find symbol position := by
  unfold OperatorTable.find
  split <;> rfl

/-- A token stands for the same wherever the line starts, and fails at its place. -/
theorem itemIn_moved (h : outlook table front = outlook table front') (token : Token)
    (back : List Token) :
    (token.moved n).itemIn table front' (back.map (moved n)) =
      (token.itemIn table front back).mapError (ReadError.moved n) := by
  obtain ⟨turn, -⟩ := Prod.mk.inj h
  simp only [itemIn, moved_kind, moved_text]
  split
  · exact value_moved n token
  · exact value_moved n token
  · rw [← turn, mapError_map, find_moved]
  · exact openingIn_moved n h back
  · rfl
  · rfl

theorem itemsIn_moved (h : outlook table front = outlook table front') (tokens back : List Token) :
    itemsIn table front' (tokens.map (moved n)) (back.map (moved n)) =
      (itemsIn table front tokens back).mapError (ReadError.moved n) := by
  induction tokens generalizing front front' with
  | nil => rfl
  | cons token rest ih =>
    simp only [List.map_cons, itemsIn, ← List.map_append, itemIn_moved n h, mapError_bind,
      ih (outlook_concat n h token)]
    rfl

end Items

end Token

end Calculator
