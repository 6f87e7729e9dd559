import Calculator.Command
import Calculator.Proofs.Token.Separation

namespace Calculator

section Cutting

variable {α β : Type} [DecidableEq α] [DecidableEq β]

/-- Puts elements in front of the first line. -/
def prepend (front : List α) : List (List α) → List (List α)
  | [] => [front]
  | line :: lines => (front ++ line) :: lines

theorem cutBehind_mark (mark : α) (xs : List α) :
    cutBehind mark (mark :: xs) = [mark] :: cutBehind mark xs := by
  simp [cutBehind]

theorem cutBehind_cons {mark x : α} (h : x ≠ mark) (xs : List α) :
    cutBehind mark (x :: xs) = prepend [x] (cutBehind mark xs) := by
  rw [cutBehind, List.foldr_cons, if_neg h, ← cutBehind]
  cases cutBehind mark xs <;> rfl

theorem cutBehind_append {mark : α} {front : List α} (present : front ≠ [])
    (unmarked : mark ∉ front) (xs : List α) :
    cutBehind mark (front ++ xs) = prepend front (cutBehind mark xs) := by
  induction front with
  | nil => exact absurd rfl present
  | cons x front ih =>
    have other : x ≠ mark := fun same => unmarked (same ▸ List.mem_cons_self)
    have later : mark ∉ front := fun mem => unmarked (List.mem_cons_of_mem x mem)
    rw [List.cons_append, cutBehind_cons other]
    cases front with
    | nil => rfl
    | cons y front =>
      rw [ih (List.cons_ne_nil y front) later]
      cases cutBehind mark xs <;> rfl

/-- Where an encoding has the mark of another one in no other code, a text is cut alike before and
behind encoding. -/
theorem cutBehind_flatMap {mark : α} {mark' : β} {encode : α → List β}
    (marked : encode mark = [mark'])
    (unmarked : ∀ x, x ≠ mark → encode x ≠ [] ∧ mark' ∉ encode x) (xs : List α) :
    cutBehind mark' (xs.flatMap encode) = (cutBehind mark xs).map (·.flatMap encode) := by
  induction xs with
  | nil => rfl
  | cons x xs ih =>
    rw [List.flatMap_cons]
    by_cases h : x = mark
    · subst h
      rw [marked, List.singleton_append, cutBehind_mark, cutBehind_mark, ih]
      simp [marked]
    · obtain ⟨present, other⟩ := unmarked x h
      rw [cutBehind_append present other, cutBehind_cons h, ih]
      cases cutBehind mark xs <;> simp [prepend]

end Cutting

section Bytes

/-- The bytes of other characters are no line feeds: those of a character that has more than one are
128 at least. -/
theorem lineFeed_not_mem_encode {c : Char} (h : c ≠ '\n') : 10 ∉ String.utf8EncodeChar c := by
  have other : c.val.toNat ≠ 10 := by
    intro same
    exact h (Char.ext (UInt32.toNat_inj.mp same))
  have small (n : Nat) (h : 10 = UInt8.ofNat n) : n % 256 = 10 := by
    have values := congrArg UInt8.toNat h
    rw [UInt8.toNat_ofNat'] at values
    exact values.symm
  rw [String.utf8EncodeChar]
  repeat' split
  all_goals
    simp only [List.mem_cons, List.not_mem_nil, or_false, not_or]
    repeat' apply And.intro
  all_goals
    intro h
    have := small _ h
    omega

theorem toUTF8_eq (text : String) :
    text.toUTF8.data.toList = text.toList.flatMap String.utf8EncodeChar := by
  conv_lhs => rw [← String.ofList_toList (s := text)]
  rw [String.toUTF8_eq_toByteArray, String.toByteArray_ofList, List.utf8Encode]
  simp

theorem fromUTF8?_toUTF8 (text : String) : String.fromUTF8? text.toUTF8 = some text := by
  rw [String.fromUTF8?, String.toUTF8_eq_toByteArray, dif_pos text.isValidUTF8]
  rfl

theorem fromUTF8?_encode (text : List Char) :
    String.fromUTF8? ⟨(text.flatMap String.utf8EncodeChar).toArray⟩ = some (String.ofList text) := by
  have bytes : (String.ofList text).toUTF8 = ⟨(text.flatMap String.utf8EncodeChar).toArray⟩ := by
    have listed := toUTF8_eq (String.ofList text)
    rw [String.toList_ofList] at listed
    rw [← listed]
  rw [← bytes, fromUTF8?_toUTF8]

/-- The lines of the bytes of a text are the bytes of its lines. -/
theorem lines_toUTF8 (text : String) :
    cutBehind 10 text.toUTF8.data.toList =
      (cutBehind '\n' text.toList).map (·.flatMap String.utf8EncodeChar) := by
  have marked : String.utf8EncodeChar '\n' = [10] := rfl
  rw [toUTF8_eq, cutBehind_flatMap marked]
  intro c h
  exact ⟨String.utf8EncodeChar_ne_nil, lineFeed_not_mem_encode h⟩

end Bytes

/-- What a script keeps of a line is what the prompt keeps, with blanks behind it. -/
theorem exists_blanks (line : List Char) :
    ∃ gap, Script.lineContents line = Prompt.lineContents line ++ gap ∧
      ∀ c ∈ gap, Token.isBlank c = true := by
  let ends (c : Char) : Bool := c = '\r' || c = '\n'
  have cut (r : List Char) :
      ∃ gap, r.reverse = (r.dropWhile ends).reverse ++ gap ∧ ∀ c ∈ gap, Token.isBlank c = true := by
    refine ⟨(r.takeWhile ends).reverse, ?_, ?_⟩
    · rw [← List.reverse_append, List.takeWhile_append_dropWhile]
    · intro c hc
      have ended : ends c = true := by
        have all := List.all_takeWhile (p := ends) (l := r)
        exact List.all_eq_true.mp all c (List.mem_reverse.mp hc)
      have same : c = '\r' ∨ c = '\n' := by simpa [ends] using ended
      rcases same with rfl | rfl <;> rfl
  have kept (r : List Char) (h : line.reverse.dropWhile ends = r.dropWhile ends) :
      ∃ gap, r.reverse = Prompt.lineContents line ++ gap ∧ ∀ c ∈ gap, Token.isBlank c = true := by
    have parts := cut r
    rwa [← h] at parts
  unfold Script.lineContents
  split
  · next r h => exact kept r (by rw [h]; rfl)
  · next r _ h => exact kept r (by rw [h]; rfl)
  · have whole := kept line.reverse rfl
    rwa [List.reverse_reverse] at whole

end Calculator
