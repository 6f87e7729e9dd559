import Calculator.Session
import Calculator.Proofs.Line.Consistency
import Calculator.Proofs.Line.Variables
import Calculator.Proofs.Token.Scanning

namespace Calculator

namespace Token

theorem isWhiteSpace_of_isBlank {c : Char} (h : isBlank c = true) : isWhiteSpace c = true := by
  simp only [isBlank, Bool.or_eq_true, decide_eq_true_eq] at h
  rcases h with (((rfl | rfl) | rfl) | rfl) | rfl <;> rfl

/-- Only blanks have no tokens. -/
theorem isBlank_of_scanFrom (place : Nat) (text : List Char) (h : scanFrom place text = .ok []) :
    ∀ c ∈ text, isBlank c = true := by
  induction place, text using scanFrom.induct with
  | case1 place => simp
  | case2 place c r blank ih =>
    rw [scanFrom, if_pos blank] at h
    exact List.forall_mem_cons.mpr ⟨blank, ih h⟩
  | case3 place c r word none =>
    have unmatched := front?_eq_none_iff.mp none
    rw [scanFrom_stuck (Bool.eq_false_iff.mpr word) unmatched] at h
    cases h
  | case4 place c r word kind lexeme found present stop ih =>
    obtain ⟨rest, whole⟩ := (front?_eq_some_iff.mp found).front
    rw [← whole] at found h
    rw [scanFrom_front? found] at h
    cases later : scanFrom (place + byteLength lexeme) rest <;> simp [later, Except.map] at h

/-- A line that is not blank has a token or cannot be scanned, though fewer characters are skipped
between tokens than count as white space. -/
theorem isBlankLine_of_scan {line : String} (h : scan line = .ok []) : isBlankLine line = true :=
  List.all_eq_true.mpr fun c hc =>
    isWhiteSpace_of_isBlank (isBlank_of_scanFrom 0 line.toList h c hc)

end Token

namespace Session

/-- The session behind these lines. -/
def after (s : Session) (lines : List String) : Session :=
  lines.foldl (fun s line => (s.submit line).1) s

/-- What lines come to one after another, each with the session behind it. -/
def answers (s : Session) : List String → List (Session × Except LineError Evaluation)
  | [] => []
  | line :: rest => s.submit line :: answers (s.submit line).1 rest

/-- The latest of these lines that is not blank. -/
def latest? (lines : List String) : Option String :=
  (lines.filter fun line => !isBlankLine line).getLast?

/-- The line that is evaluated for a line behind others. -/
def spoken? (before : List String) (line : String) : Option String :=
  if isBlankLine line then latest? before else some line

/-- Lines behind others, with the latest line before it that is not blank in place of each blank
one. -/
def spelledOut (before : List String) : List String → List String
  | [] => []
  | line :: rest => (spoken? before line).getD line :: spelledOut (before ++ [line]) rest

theorem latest?_concat (before : List String) (line : String) :
    latest? (before ++ [line]) = spoken? before line := by
  rw [latest?, spoken?, List.filter_append]
  cases h : isBlankLine line <;> simp [latest?, h]

theorem latest?_eq_none_iff {lines : List String} :
    latest? lines = none ↔ ∀ line ∈ lines, isBlankLine line = true := by
  simp [latest?]

theorem not_isBlankLine_of_spoken? {before : List String} {line text : String}
    (h : spoken? before line = some text) : isBlankLine text = false := by
  unfold spoken? at h
  split at h
  · have held := List.mem_of_getLast? h
    simpa using (List.mem_filter.mp held).2
  · next filled =>
    obtain rfl := Option.some.inj h
    simpa using filled

/-- A line put in place of a blank one is evaluated itself. -/
theorem spoken?_getD (before : List String) (line : String) :
    spoken? before ((spoken? before line).getD line) = spoken? before line := by
  cases h : spoken? before line with
  | none => exact h
  | some text => simp [spoken?, not_isBlankLine_of_spoken? h]

section Evaluating

variable (s : Session) (line : String)

theorem lastLine_evaluate : (s.evaluate line).1.lastLine = s.lastLine := by
  unfold evaluate
  split <;> rfl

theorem lastLine_submit :
    (s.submit line).1.lastLine = if isBlankLine line then s.lastLine else some line := by
  unfold submit
  split
  · split
    · exact lastLine_evaluate s _
    · rfl
  · exact lastLine_evaluate _ line

theorem evaluate_ok {result : Evaluation} (h : (s.evaluate line).2 = .ok result) :
    (Line.evaluate s.functions s.environment line).2 = .ok result ∧
      (s.evaluate line).1.environment =
        record (Line.evaluate s.functions s.environment line).1 result := by
  unfold evaluate at h ⊢
  split at h
  · next ran =>
    obtain rfl := Except.ok.inj h
    simp [ran]
  · cases h

theorem evaluate_error {e : LineError} (h : (s.evaluate line).2 = .error e) :
    (s.evaluate line).1.environment = (Line.evaluate s.functions s.environment line).1 := by
  unfold evaluate at h ⊢
  split at h
  · cases h
  · next ran => simp [ran]

theorem submit_of_filled {line : String} (filled : isBlankLine line = false) :
    s.submit line = { s with lastLine := some line }.evaluate line := by
  rw [submit, filled]
  rfl

/-- Only a line without tokens comes to nothing. -/
theorem evaluate_ne_empty (filled : isBlankLine line = false) :
    (s.evaluate line).2 ≠ .ok .empty := by
  intro h
  have scanned := (Line.evaluate_empty_iff (s.evaluate_ok line h).1).mp rfl
  simp [Token.isBlankLine_of_scan scanned] at filled

/-- A result is the last one behind its line. -/
theorem answer_evaluate {result : Evaluation} (h : (s.evaluate line).2 = .ok result)
    (filled : result ≠ .empty) :
    ∃ n, result.number? = some n ∧ (s.evaluate line).1.answer = some n := by
  obtain ⟨n, found⟩ : ∃ n, result.number? = some n := by
    match result with
    | .empty => exact absurd rfl filled
    | .value n => exact ⟨n, rfl⟩
    | .variable x n => exact ⟨n, rfl⟩
  refine ⟨n, found, ?_⟩
  rw [answer, (s.evaluate_ok line h).2, record, found, Directory.get?_insert, if_pos rfl]

theorem contains_record {env : Environment} {x : String} (held : env.contains x = true)
    (result : Evaluation) : (record env result).contains x = true := by
  unfold record
  split
  · next n _ => exact Directory.contains_insertAll held [(answerName, n)]
  · exact held

theorem contains_evaluate {x : String} (held : s.environment.contains x = true) :
    (s.evaluate line).1.environment.contains x = true := by
  cases h : (s.evaluate line).2 with
  | ok result =>
    rw [(s.evaluate_ok line h).2]
    exact contains_record (Line.contains_evaluate held) result
  | error e =>
    rw [s.evaluate_error line h]
    exact Line.contains_evaluate held

end Evaluating

section Submitting

variable {s : Session} {before : List String}

theorem after_append (s : Session) (xs ys : List String) :
    s.after (xs ++ ys) = (s.after xs).after ys :=
  List.foldl_append

/-- A fresh session holds the latest line that is not blank. -/
theorem lastLine_after (fresh : s.lastLine = none) (before : List String) :
    (s.after before).lastLine = latest? before := by
  induction before using List.reverseRecOn with
  | nil => exact fresh
  | append_singleton before line ih =>
    rw [after_append, latest?_concat, spoken?, ← ih]
    exact lastLine_submit _ line

/-- What a line comes to is what the line comes to that is evaluated for it. -/
theorem submit_after (held : s.lastLine = latest? before) (line : String) :
    s.submit line =
      match spoken? before line with
      | some text => { s with lastLine := some text }.evaluate text
      | none => (s, .ok .empty) := by
  unfold submit spoken?
  split
  · rw [← held]
    -- The line that is evaluated is the one that is held, so that holding it changes nothing.
    cases s with
    | mk environment functions lastLine => cases lastLine <;> rfl
  · rfl

theorem contains_submit {x : String} (held : s.environment.contains x = true) (line : String) :
    (s.submit line).1.environment.contains x = true := by
  unfold submit
  split
  · split
    · exact contains_evaluate s _ held
    · exact held
  · exact contains_evaluate _ line held

theorem contains_after {x : String} (held : s.environment.contains x = true)
    (lines : List String) : (s.after lines).environment.contains x = true := by
  induction lines generalizing s with
  | nil => exact held
  | cons line rest ih => exact ih (contains_submit held line)

/-- Blank lines may be spelled out. -/
theorem answers_spelledOut (held : s.lastLine = latest? before) (lines : List String) :
    s.answers (spelledOut before lines) = s.answers lines := by
  induction lines generalizing s before with
  | nil => rfl
  | cons line rest ih =>
    have same : s.submit ((spoken? before line).getD line) = s.submit line := by
      rw [submit_after held, submit_after held, spoken?_getD]
    have next : (s.submit line).1.lastLine = latest? (before ++ [line]) := by
      rw [lastLine_submit, latest?_concat, spoken?, held]
    rw [spelledOut, answers, answers, same, ih next]

end Submitting

/-- Over any lines, a fresh session answers a blank line as the latest line before it that is not
blank, or with nothing where there is none; every other line comes to a result or fails. A result is
the last one behind its line. A line that fails leaves the last result, unless what is evaluated for
it mentions the last result and has an operator that writes. What is bound stays bound. -/
theorem run_discipline (env : Environment) (functions : FunctionTable) :
    let s := withParts env functions
    (∀ lines, s.answers (spelledOut [] lines) = s.answers lines) ∧
    (∀ before line,
      let now := s.after before
      let blank := ∀ l ∈ before ++ [line], isBlankLine l = true
      (blank → now.submit line = (now, .ok .empty)) ∧
      ((now.submit line).2 = .ok .empty ↔ blank) ∧
      (∀ result, (now.submit line).2 = .ok result → result ≠ .empty →
        ∃ n, result.number? = some n ∧ (now.submit line).1.answer = some n) ∧
      ∀ e, (now.submit line).2 = .error e → (now.submit line).1.answer = now.answer ∨
        ∃ text tokens items, spoken? before line = some text ∧ Token.scan text = .ok tokens ∧
          Token.items .standard tokens = .ok items ∧ .name answerName ∈ items ∧
          ∃ item ∈ items, item.writes = true) ∧
    ∀ before behind x, (s.after before).environment.contains x = true →
      (s.after (before ++ behind)).environment.contains x = true := by
  intro s
  refine ⟨answers_spelledOut rfl, fun before line => ?_, fun before behind x held => ?_⟩
  · intro now blank
    have held : now.lastLine = latest? before := lastLine_after rfl before
    have silent : spoken? before line = none ↔ blank := by
      rw [← latest?_concat, latest?_eq_none_iff]
    have submitted := submit_after held line
    cases spoken : spoken? before line with
    | none =>
      rw [spoken] at submitted
      refine ⟨fun _ => submitted, ?_, ?_, ?_⟩
      · simp [submitted, silent.mp spoken]
      · intro result h filled
        rw [submitted] at h
        exact absurd (Except.ok.inj h).symm filled
      · intro e h
        rw [submitted] at h
        cases h
    | some text =>
      rw [spoken] at submitted
      have heard : ¬ blank := fun h => by simp [silent.mpr h] at spoken
      have filled := not_isBlankLine_of_spoken? spoken
      rw [submitted]
      refine ⟨fun h => absurd h heard, ?_, ?_, ?_⟩
      · exact iff_of_false (evaluate_ne_empty _ text filled) heard
      · intro result h
        exact answer_evaluate _ text h
      · intro e h
        rw [answer, evaluate_error _ text h]
        refine (Line.get?_evaluate answerName).imp_right ?_
        rintro ⟨tokens, items, scanned, resolved, mentioned, writes⟩
        exact ⟨text, tokens, items, rfl, scanned, resolved, mentioned, writes⟩
  · rw [after_append]
    exact contains_after held behind

/-- A blank line at the start comes to nothing, and behind `2` to `2` again; `(ans = 5) / 0` fails with
the last result written over. -/
theorem run_discipline_answer :
    let s := withParts .standard .standard
    s.submit " " = (s, .ok .empty) ∧
      ((s.after ["2"]).submit " ").2 = .ok (.value (.integer 2)) ∧
      ((s.after ["2"]).submit " ").1.answer = some (.integer 2) ∧
      ((s.after ["2"]).submit "(ans = 5) / 0").2 = .error (.run (.divisionByZero "/")) ∧
      ((s.after ["2"]).submit "(ans = 5) / 0").1.answer = some (.integer 5) ∧
      (∃ tokens items, Token.scan "(ans = 5) / 0" = .ok tokens ∧
        Token.items .standard tokens = .ok items ∧ .name answerName ∈ items ∧
        ∃ item ∈ items, item.writes = true) ∧
      (s.after ["x = 1", "1 / 0"]).environment.contains "x" = true := by
  intro s
  obtain ⟨-, lines, bound⟩ := run_discipline .standard .standard
  have repeated : ((s.after ["2"]).submit " ").2 = .ok (.value (.integer 2)) := by decide +kernel
  have failed : ((s.after ["2"]).submit "(ans = 5) / 0").2 =
      .error (.run (.divisionByZero "/")) := by decide +kernel
  have written : ((s.after ["2"]).submit "(ans = 5) / 0").1.answer = some (.integer 5) := by
    decide +kernel
  refine ⟨(lines [] " ").1 (by decide), repeated, ?_, failed, written, ?_,
    bound ["x = 1"] ["1 / 0"] "x" (by decide +kernel)⟩
  · obtain ⟨n, found, answered⟩ := (lines ["2"] " ").2.2.1 _ repeated (by simp)
    cases found
    exact answered
  · rcases (lines ["2"] "(ans = 5) / 0").2.2.2 _ failed with
      kept | ⟨text, tokens, items, spoken, scanned, resolved, mentioned, writes⟩
    · have before : (s.after ["2"]).answer = some (.integer 2) := by decide +kernel
      rw [before, written] at kept
      cases kept
    · cases spoken
      exact ⟨tokens, items, scanned, resolved, mentioned, writes⟩

end Session

end Calculator
