import Calculator.Error

namespace Calculator

namespace Token

inductive Kind where
  | number
  | name
  | operator
  | openParen
  | closeParen
  | comma
deriving DecidableEq, Repr

end Token

/-- A piece of a line with the byte offsets where it starts and stops. -/
structure Token where
  kind : Token.Kind
  text : String
  start : Nat
  stop : Nat
deriving DecidableEq, Repr

namespace Token

def isBlank (c : Char) : Bool :=
  c = ' ' || c = '\t' || c = '\r' || c = '\n' || c = '\x0c'

def isNameStart (c : Char) : Bool := c.isAlpha || c = '_'

def isNameRest (c : Char) : Bool := c.isAlphanum || c = '_'

/-- A pair of these is one operator. -/
def pairs : List (Char × Char) :=
  [('=', '='), ('!', '='), ('<', '='), ('>', '='), ('&', '&'), ('|', '|'), ('+', '+'), ('-', '-'),
    ('/', '/'), ('+', '='), ('-', '='), ('*', '='), ('/', '=')]

def singles : List Char := ['=', '+', '-', '*', '/', '<', '>', '!', '^', '%']

/-- Digits with at most one point among or behind them, or a point followed by digits. -/
def numeral (text : List Char) : List Char :=
  match text.takeWhile Char.isDigit, text.dropWhile Char.isDigit with
  | [], '.' :: r => if r.takeWhile Char.isDigit = [] then [] else '.' :: r.takeWhile Char.isDigit
  | ds, '.' :: r => ds ++ '.' :: r.takeWhile Char.isDigit
  | ds, _ => ds

def identifier : List Char → List Char
  | c :: r => if isNameStart c then c :: r.takeWhile isNameRest else []
  | [] => []

def operatorSign : List Char → List Char
  | c :: d :: _ => if (c, d) ∈ pairs then [c, d] else if c ∈ singles then [c] else []
  | [c] => if c ∈ singles then [c] else []
  | [] => []

def punctuation : List Char → Option Kind
  | '(' :: _ => some .openParen
  | ')' :: _ => some .closeParen
  | ',' :: _ => some .comma
  | _ => none

/-- The longest token at the front. No two classes share a first character, so the class is
settled by it. -/
def front? (text : List Char) : Option (Kind × List Char) :=
  match punctuation text with
  | some kind => some (kind, text.take 1)
  | none =>
    if numeral text ≠ [] then some (.number, numeral text)
    else if identifier text ≠ [] then some (.name, identifier text)
    else if operatorSign text ≠ [] then some (.operator, operatorSign text)
    else none

theorem front?_ne_nil {text lexeme : List Char} {kind : Kind}
    (h : front? text = some (kind, lexeme)) : lexeme ≠ [] := by
  unfold front? at h
  split at h
  · next hp =>
    cases text with
    | nil => simp [punctuation] at hp
    | cons c r => simp at h; simp [← h.2]
  · repeat' split at h
    all_goals simp_all

def byteLength : List Char → Nat
  | [] => 0
  | c :: r => c.utf8Size + byteLength r

/-- The tokens of a text that starts at a byte offset. -/
def scanFrom (place : Nat) (text : List Char) : Except ReadError (List Token) :=
  match text with
  | [] => .ok []
  | c :: r =>
    if isBlank c then scanFrom (place + c.utf8Size) r
    else
      match h : front? (c :: r) with
      | none => .error (.unrecognized c place)
      | some (kind, lexeme) => do
        have := List.length_pos_iff.mpr (front?_ne_nil h)
        let stop := place + byteLength lexeme
        let later ← scanFrom stop ((c :: r).drop lexeme.length)
        return ⟨kind, String.ofList lexeme, place, stop⟩ :: later
termination_by text.length

/-- Cuts a line from the left, each time at the longest token. Blanks are skipped. -/
def scan (line : String) : Except ReadError (List Token) := scanFrom 0 line.toList

end Token

end Calculator
