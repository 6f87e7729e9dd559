import Calculator.Proofs.Token.Longest

namespace Calculator.Token

/-- The byte offset behind the front of a line. -/
def offset (front : List Char) : Nat := (String.ofList front).utf8ByteSize

/-- The front of a line that ends with these tokens: each comes behind the one before it and blanks,
and is the longest that begins there. -/
inductive Scanned (line : List Char) : List Char → List Token → Prop
  | start : Scanned line [] []
  | token {front gap lexeme rest : List Char} {tokens : List Token} {kind : Kind}
    (before : Scanned line front tokens) (split : line = front ++ gap ++ lexeme ++ rest)
    (blank : ∀ c ∈ gap, isBlank c = true) (longest : Longest (lexeme ++ rest) kind lexeme) :
    Scanned line (front ++ gap ++ lexeme) (tokens ++ [⟨kind, String.ofList lexeme,
      offset (front ++ gap), offset (front ++ gap ++ lexeme)⟩])

/-- What a line comes to: tokens with nothing but blanks behind them, or the first character behind
tokens and blanks that is no blank and begins no token. -/
def Outcome (line : List Char) : Except ReadError (List Token) → Prop
  | .ok tokens => ∃ front gap, line = front ++ gap ∧ Scanned line front tokens ∧
      ∀ c ∈ gap, isBlank c = true
  | .error e => ∃ front gap c rest tokens, line = front ++ gap ++ c :: rest ∧
      Scanned line front tokens ∧ (∀ d ∈ gap, isBlank d = true) ∧ isBlank c = false ∧
      Unmatched (c :: rest) ∧ e = .unrecognized c (offset (front ++ gap))

theorem offset_append (front text : List Char) :
    offset (front ++ text) = offset front + offset text := by
  rw [offset, String.ofList_append, String.utf8ByteSize_append]
  rfl

theorem byteLength_eq (text : List Char) : byteLength text = offset text := by
  induction text with
  | nil => rfl
  | cons c rest ih =>
    rw [byteLength, ih, offset, offset, String.ofList_cons, String.utf8ByteSize_append,
      String.utf8ByteSize_singleton]

/-- The bytes between two offsets are those of the text between them. -/
theorem extract_between (front text rest : List Char) :
    (String.ofList (front ++ text ++ rest)).toUTF8.extract (offset front) (offset (front ++ text)) =
      (String.ofList text).toUTF8 := by
  have size (text : List Char) : offset text = (String.ofList text).toByteArray.size :=
    String.size_toByteArray.symm
  simp only [String.toUTF8_eq_toByteArray, List.append_assoc, String.ofList_append,
    String.toByteArray_append, offset_append]
  have behind := ByteArray.extract_append_size_add' (i := 0) (j := offset text)
    (b := (String.ofList text).toByteArray ++ (String.ofList rest).toByteArray) (size front)
  rw [Nat.add_zero] at behind
  rw [behind, ByteArray.extract_append_eq_left (size text)]

theorem scanFrom_blanks {gap : List Char} (blank : ∀ c ∈ gap, isBlank c = true) (place : Nat)
    (rest : List Char) : scanFrom place (gap ++ rest) = scanFrom (place + byteLength gap) rest := by
  induction gap generalizing place with
  | nil => rfl
  | cons c gap ih =>
    obtain ⟨first, later⟩ := List.forall_mem_cons.mp blank
    rw [List.cons_append, scanFrom, if_pos first, ih later, byteLength, Nat.add_assoc]

theorem scanFrom_stuck {c : Char} {rest : List Char} (word : isBlank c = false)
    (unmatched : Unmatched (c :: rest)) (place : Nat) :
    scanFrom place (c :: rest) = .error (.unrecognized c place) := by
  have none := front?_eq_none_iff.mpr unmatched
  rw [scanFrom, if_neg (Bool.eq_false_iff.mp word)]
  split <;> simp_all

namespace Scanned

variable {line front rest : List Char} {tokens : List Token}

theorem exists_rest (h : Scanned line front tokens) : ∃ rest, line = front ++ rest := by
  cases h with
  | start => exact ⟨line, rfl⟩
  | token before split blank longest => exact ⟨_, split⟩

/-- Scanning a line goes on behind what is scanned of it. -/
theorem scanFrom_eq (h : Scanned line front tokens) (split : line = front ++ rest) :
    scanFrom 0 line = (scanFrom (offset front) rest).map (tokens ++ ·) := by
  induction h generalizing rest with
  | start =>
    obtain rfl : line = rest := split
    exact (congrFun Except.map_id _).symm
  | @token front gap lexeme later tokens kind before around blank longest ih =>
    obtain rfl : later = rest := List.append_cancel_left (around.symm.trans split)
    rw [List.append_assoc, List.append_assoc] at around
    rw [ih around, scanFrom_blanks blank, scanFrom_front? (front?_eq_some_iff.mpr longest),
      byteLength_eq, byteLength_eq, ← offset_append, ← offset_append]
    cases scanFrom (offset (front ++ gap ++ lexeme)) later with
    | error e => rfl
    | ok found => simp [Except.map]

/-- The place of a token in a line. -/
theorem exists_place (h : Scanned line front tokens) {t : Token} (ht : t ∈ tokens) :
    ∃ before lexeme behind, line = before ++ lexeme ++ behind ∧ t.text = String.ofList lexeme ∧
      t.start = offset before ∧ t.stop = offset (before ++ lexeme) := by
  induction h with
  | start => cases ht
  | token before split blank longest ih =>
    rcases List.mem_append.mp ht with earlier | last
    · exact ih earlier
    · obtain rfl := List.mem_singleton.mp last
      exact ⟨_, _, _, split, rfl, rfl, rfl⟩

end Scanned

/-- What scanning comes to from a place in a line, behind blanks and what is scanned before them. -/
theorem outcome_scanFrom {line : List Char} (front gap : List Char) (tokens : List Token)
    (place : Nat) (text : List Char) (scanned : Scanned line front tokens)
    (split : line = front ++ gap ++ text)
    (blank : ∀ c ∈ gap, isBlank c = true) (reached : offset (front ++ gap) = place) :
    Outcome line ((scanFrom place text).map (tokens ++ ·)) := by
  induction place, text using scanFrom.induct generalizing front gap tokens with
  | case1 place =>
    rw [scanFrom]
    exact ⟨front, gap, by simpa using split, by simpa using scanned, blank⟩
  | case2 place c r here ih =>
    rw [scanFrom, if_pos here]
    refine ih front (gap ++ [c]) tokens scanned (by simpa using split) ?_ ?_
    · simpa [or_imp, forall_and] using ⟨blank, here⟩
    · rw [← List.append_assoc, offset_append, reached, ← byteLength_eq]
      rfl
  | case3 place c r word none =>
    have word : isBlank c = false := Bool.eq_false_iff.mpr word
    have unmatched := front?_eq_none_iff.mp none
    rw [scanFrom_stuck word unmatched, ← reached]
    exact ⟨front, gap, c, r, tokens, split, scanned, blank, word, unmatched, rfl⟩
  | case4 place c r word kind lexeme found present stop ih =>
    have longest := front?_eq_some_iff.mp found
    obtain ⟨rest, whole⟩ := longest.front
    have stopped : offset (front ++ gap ++ lexeme) = stop := by
      rw [offset_append, reached, ← byteLength_eq]
    rw [← whole] at longest split found ih ⊢
    rw [List.drop_left] at ih
    have next := scanned.token (by simpa using split) blank longest
    have later := ih _ [] _ next (by simpa using split) (by simp)
      (by rw [List.append_nil, stopped])
    rw [reached, stopped] at later
    rw [scanFrom_front? found]
    cases rest : scanFrom stop rest with
    | error e => simpa [rest, Except.map] using later
    | ok found => simpa [rest, Except.map] using later

/-- Scanning cuts a line into its longest tokens, each with the bytes that it has in the line, or
stops at the first place where there is none. -/
theorem scan_longest (line : String) :
    (∀ result, scan line = result ↔ Outcome line.toList result) ∧
      ∀ tokens, scan line = .ok tokens → ∀ t ∈ tokens,
        line.toUTF8.extract t.start t.stop = t.text.toUTF8 := by
  have outcome : Outcome line.toList (scan line) := by
    have whole := outcome_scanFrom [] [] [] 0 line.toList .start rfl (by simp) rfl
    have same : (scan line).map ([] ++ ·) = scan line := congrFun Except.map_id _
    exact same ▸ whole
  refine ⟨fun result => ⟨fun h => h ▸ outcome, fun h => ?_⟩, fun tokens h t ht => ?_⟩
  · cases result with
    | ok tokens =>
      obtain ⟨front, gap, split, scanned, blank⟩ := h
      have rest := scanFrom_blanks blank (offset front) []
      rw [List.append_nil] at rest
      rw [scan, scanned.scanFrom_eq split, rest, scanFrom]
      simp [Except.map]
    | error e =>
      obtain ⟨front, gap, c, rest, tokens, split, scanned, blank, word, unmatched, rfl⟩ := h
      rw [List.append_assoc] at split
      rw [scan, scanned.scanFrom_eq split, scanFrom_blanks blank, scanFrom_stuck word unmatched,
        byteLength_eq, ← offset_append]
      rfl
  · rw [h] at outcome
    obtain ⟨front, gap, -, scanned, -⟩ := outcome
    obtain ⟨before, lexeme, behind, split, text, start, stop⟩ := scanned.exists_place ht
    have bytes := extract_between before lexeme behind
    rwa [← split, String.ofList_toList, ← start, ← stop, ← text] at bytes

/-- In `a---b` two signs make one token before the third is one of its own; in `2 & 3` a sign that is
no token alone is refused with its place. -/
theorem scan_longest_signs :
    let tokens : List Token := [⟨.name, "a", 0, 1⟩, ⟨.operator, "--", 1, 3⟩, ⟨.operator, "-", 3, 4⟩,
      ⟨.name, "b", 4, 5⟩]
    scan "a---b" = .ok tokens ∧ Outcome "a---b".toList (.ok tokens) ∧
      (∀ t ∈ tokens, "a---b".toUTF8.extract t.start t.stop = t.text.toUTF8) ∧
      scan "2 & 3" = .error (.unrecognized '&' 2) ∧
      Outcome "2 & 3".toList (.error (.unrecognized '&' 2)) := by
  intro tokens
  obtain ⟨outcome, places⟩ := scan_longest "a---b"
  have cut : scan "a---b" = .ok tokens := by decide +kernel
  have stuck : scan "2 & 3" = .error (.unrecognized '&' 2) := by decide +kernel
  exact ⟨cut, (outcome _).mp cut, places tokens cut, stuck, ((scan_longest "2 & 3").1 _).mp stuck⟩

end Calculator.Token
