import Calculator.Proofs.Token.Separation

namespace Calculator.Token

/-- The class of a token and its text, without its place. -/
def spelling (token : Token) : Kind × String := (token.kind, token.text)

theorem Kind.Matches.longest {kind : Kind} {text : List Char} (h : kind.Matches text) :
    Longest text kind text where
  front := List.prefix_rfl
  matched := h
  longest _ _ _ front := front.length_le

theorem outcome_scan (line : String) : Outcome line.toList (scan line) := by
  have whole := outcome_scanFrom [] [] [] 0 line.toList .start rfl (by simp) rfl
  have same : (scan line).map ([] ++ ·) = scan line := congrFun Except.map_id _
  exact same ▸ whole

/-- Scanning fails for no other cause than a character that begins no token. -/
theorem unrecognized_of_scan {line : String} {e : ReadError} (h : scan line = .error e) :
    ∃ c place, e = .unrecognized c place := by
  have outcome := outcome_scan line
  rw [h] at outcome
  obtain ⟨front, gap, c, rest, tokens, -, -, -, -, -, rfl⟩ := outcome
  exact ⟨c, _, rfl⟩

theorem Scanned.matches {line front : List Char} {tokens : List Token}
    (h : Scanned line front tokens) : ∀ t ∈ tokens, t.kind.Matches t.text.toList := by
  induction h with
  | start => simp
  | token before split blank longest ih =>
    intro t ht
    rcases List.mem_append.mp ht with earlier | last
    · exact ih t earlier
    · obtain rfl := List.mem_singleton.mp last
      simpa using longest.matched

/-- Every token of a line is of its class. -/
theorem matches_of_scan {line : String} {tokens : List Token} (h : scan line = .ok tokens) :
    ∀ t ∈ tokens, t.kind.Matches t.text.toList := by
  have outcome := outcome_scan line
  rw [h] at outcome
  obtain ⟨front, gap, -, scanned, -⟩ := outcome
  exact scanned.matches

/-- A line with blanks in it is scanned up to them, and then as the line behind them. -/
theorem scan_blanks_between {a w b : String} (present : w ≠ "")
    (blank : ∀ c ∈ w.toList, isBlank c = true) : scan (a ++ w ++ b) = do
      let first ← scan a
      let later ← movedAll (a ++ w).utf8ByteSize (scan b)
      return first ++ later := by
  have separated : ∀ c ∈ (w.toList ++ b.toList).head?, Separates c := by
    obtain ⟨c, gap, cut⟩ := List.exists_cons_of_ne_nil (mt String.toList_eq_nil_iff.mp present)
    rw [cut] at blank ⊢
    exact separated_cons (separates_of_isBlank (blank c List.mem_cons_self)) (gap ++ b.toList)
  have behind : offset (a.toList ++ w.toList) = (a ++ w).utf8ByteSize := by
    rw [offset, String.ofList_append, String.ofList_toList, String.ofList_toList]
  have shifted : scanFrom (a ++ w).utf8ByteSize b.toList =
      movedAll (a ++ w).utf8ByteSize (scan b) := scanFrom_add _ 0 b.toList
  rw [scan, String.toList_append, String.toList_append, List.append_assoc,
    scanFrom_append separated, scanFrom_blanks blank, Nat.zero_add, ← byteLength_append,
    byteLength_eq, behind, shifted]
  rfl

theorem scan_text {kind : Kind} {text : String} (h : kind.Matches text.toList) :
    scan text = .ok [⟨kind, text, 0, text.utf8ByteSize⟩] := by
  have found : front? (text.toList ++ []) = some (kind, text.toList) := by
    rw [List.append_nil]
    exact front?_eq_some_iff.mpr h.longest
  have alone := scanFrom_front? found 0
  rw [List.append_nil, scanFrom, byteLength_eq, offset, Nat.zero_add, String.ofList_toList] at alone
  exact alone

/-- Texts of classes with single spaces between them are scanned one by one. -/
theorem scan_intercalate {tokens : List Token} (h : ∀ t ∈ tokens, t.kind.Matches t.text.toList) :
    ∃ again, scan (" ".intercalate (tokens.map text)) = .ok again ∧
      again.map spelling = tokens.map spelling := by
  induction tokens with
  | nil => exact ⟨[], by simp [scan, scanFrom], rfl⟩
  | cons t ts ih =>
    obtain ⟨here, behind⟩ := List.forall_mem_cons.mp h
    have first := scan_text here
    cases ts with
    | nil => exact ⟨[⟨t.kind, t.text, 0, t.text.utf8ByteSize⟩], by simpa using first, rfl⟩
    | cons t' ts =>
      obtain ⟨later, scanned, same⟩ := ih behind
      have space : ∀ c ∈ " ".toList, isBlank c = true := by simp [isBlank]
      rw [List.map_cons, List.map_cons, String.intercalate_cons_cons,
        scan_blanks_between (by decide) space, first, ← List.map_cons, scanned]
      exact ⟨_, rfl, by simp [spelling, ← same]⟩

/-- Blanks between two lines keep them apart: the first that fails fails the whole, at its own place,
and where none does the tokens of the one come before those of the other, moved behind the blanks.
The texts of a line's tokens, joined by single spaces, are scanned to the same classes and texts. -/
theorem scan_composes :
    (∀ a w b : String, w ≠ "" → (∀ c ∈ w.toList, isBlank c = true) →
      (∀ e, scan a = .error e →
        (∃ c place, e = .unrecognized c place) ∧ scan (a ++ w ++ b) = .error e) ∧
      ∀ first, scan a = .ok first →
        (∀ later, scan b = .ok later → scan (a ++ w ++ b) =
          .ok (first ++ later.map (moved (a ++ w).utf8ByteSize))) ∧
        ∀ e, scan b = .error e → ∃ c place, e = .unrecognized c place ∧
          scan (a ++ w ++ b) = .error (.unrecognized c ((a ++ w).utf8ByteSize + place))) ∧
      ∀ line tokens, scan line = .ok tokens →
        ∃ again, scan (" ".intercalate (tokens.map text)) = .ok again ∧
          again.map spelling = tokens.map spelling := by
  refine ⟨fun a w b present blank => ?_, fun line tokens h => scan_intercalate (matches_of_scan h)⟩
  have whole := @scan_blanks_between a w b present blank
  refine ⟨fun e failed => ⟨unrecognized_of_scan failed, ?_⟩, fun first found => ⟨?_, ?_⟩⟩
  · rw [whole, failed]
    rfl
  · intro later behind
    rw [whole, found, behind]
    rfl
  · intro e failed
    obtain ⟨c, place, rfl⟩ := unrecognized_of_scan failed
    refine ⟨c, place, rfl, ?_⟩
    rw [whole, found, failed]
    rfl

/-- The `é` of a first line is refused whatever comes behind it, the `$` of a second line at its place
behind the first. The signs of `a---b`, once taken apart, stay apart. -/
theorem scan_composes_signs :
    scan "2 é" = .error (.unrecognized 'é' 2) ∧
      scan ("2 é" ++ "\t " ++ "x+=$") = .error (.unrecognized 'é' 2) ∧
      scan ("a---b" ++ "\t " ++ "x+=$") = .error (.unrecognized '$' 10) ∧
      scan ("a---b" ++ "\t " ++ ".5") = .ok [⟨.name, "a", 0, 1⟩, ⟨.operator, "--", 1, 3⟩,
        ⟨.operator, "-", 3, 4⟩, ⟨.name, "b", 4, 5⟩, ⟨.number, ".5", 7, 9⟩] ∧
      ∃ again, scan "a -- - b" = .ok again ∧
        again.map spelling = [(.name, "a"), (.operator, "--"), (.operator, "-"), (.name, "b")] := by
  have blank : ∀ c ∈ "\t ".toList, isBlank c = true := by simp [isBlank]
  have refused : scan "2 é" = .error (.unrecognized 'é' 2) := by decide +kernel
  have signs : scan "a---b" = .ok [⟨.name, "a", 0, 1⟩, ⟨.operator, "--", 1, 3⟩,
    ⟨.operator, "-", 3, 4⟩, ⟨.name, "b", 4, 5⟩] := by decide +kernel
  have dollar : scan "x+=$" = .error (.unrecognized '$' 3) := by decide +kernel
  have half : scan ".5" = .ok [⟨.number, ".5", 0, 2⟩] := by decide +kernel
  obtain ⟨joined, again⟩ := scan_composes
  obtain ⟨-, failed⟩ := (joined "2 é" "\t " "x+=$" (by decide) blank).1 _ refused
  obtain ⟨-, behind⟩ := (joined "a---b" "\t " "x+=$" (by decide) blank).2 _ signs
  obtain ⟨found, -⟩ := (joined "a---b" "\t " ".5" (by decide) blank).2 _ signs
  obtain ⟨c, place, same, moved⟩ := behind _ dollar
  cases same
  exact ⟨refused, failed, moved, found _ half, again "a---b" _ signs⟩

end Calculator.Token
