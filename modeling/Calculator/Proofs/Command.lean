import Calculator.Proofs.Command.Lines
import Calculator.Proofs.Session

namespace Calculator

namespace Session

/-- Sessions that differ in the line that they hold at most. -/
structure Agrees (s s' : Session) : Prop where
  environment : s.environment = s'.environment
  functions : s.functions = s'.functions

/-- What lines write one after another. -/
def replies (s : Session) (lines : List String) : List Reply :=
  (s.answers lines).map fun answer => .of answer.2

theorem replies_cons (s : Session) (line : String) (rest : List String) :
    s.replies (line :: rest) = (s.reply line).2 :: (s.reply line).1.replies rest := rfl

section Replies

variable {s s' : Session} {line line' : String}

theorem Agrees.evaluate (h : s.Agrees s') (same : Token.scan line = Token.scan line') :
    (s.evaluate line).2 = (s'.evaluate line').2 ∧
      (s.evaluate line).1.Agrees (s'.evaluate line').1 := by
  obtain ⟨env, functions, last⟩ := s
  obtain ⟨env', functions', last'⟩ := s'
  obtain ⟨rfl, rfl⟩ : env = env' ∧ functions = functions' := ⟨h.environment, h.functions⟩
  simp only [Session.evaluate, Line.evaluate_congr same]
  split
  · exact ⟨rfl, rfl, rfl⟩
  · exact ⟨rfl, rfl, rfl⟩

theorem Agrees.reply (h : s.Agrees s') (same : Token.scan line = Token.scan line')
    (filled : isBlankLine line = false) (filled' : isBlankLine line' = false) :
    (s.reply line).2 = (s'.reply line').2 ∧ (s.reply line).1.Agrees (s'.reply line').1 := by
  have held : Agrees { s with lastLine := some line } { s' with lastLine := some line' } :=
    ⟨h.environment, h.functions⟩
  obtain ⟨outcome, agrees⟩ := held.evaluate same
  rw [← submit_of_filled s filled, ← submit_of_filled s' filled'] at outcome agrees
  exact ⟨congrArg Reply.of outcome, agrees⟩

/-- What a line is written with behind it is skipped, and so may differ. -/
theorem Agrees.replies (h : s.Agrees s') (lines : List (List Char))
    (filled : ∀ line ∈ lines, isBlankLine (.ofList (Script.lineContents line)) = false) :
    s.replies (lines.map fun line => .ofList (Script.lineContents line)) =
      s'.replies (lines.map fun line => .ofList (Prompt.lineContents line)) := by
  induction lines generalizing s s' with
  | nil => rfl
  | cons line rest ih =>
    obtain ⟨first, later⟩ := List.forall_mem_cons.mp filled
    obtain ⟨gap, whole, blank⟩ := exists_blanks line
    have same : Token.scan (.ofList (Script.lineContents line)) =
        Token.scan (.ofList (Prompt.lineContents line)) := by
      simp only [whole, Token.scan, String.toList_ofList, Token.scanFrom_trailing blank]
    have filled' : isBlankLine (.ofList (Prompt.lineContents line)) = false := by
      have space : gap.all isWhiteSpace = true :=
        List.all_eq_true.mpr fun c hc => Token.isWhiteSpace_of_isBlank (blank c hc)
      simpa [whole, isBlankLine, space] using first
    obtain ⟨reply, agrees⟩ := h.reply same first filled'
    rw [List.map_cons, List.map_cons, replies_cons, replies_cons, reply, ih agrees later]

end Replies

end Session

/-- One line on one of the outputs: a result that is not empty, or an error. -/
def Reply.Single (r : Reply) : Prop :=
  (∃ result : Evaluation, result ≠ .empty ∧ r = ⟨result.text ++ "\n", "", true⟩) ∨
    ∃ e : LineError, r = ⟨"", e.text ++ "\n", false⟩

/-- A line that is not blank has a reply of one line. -/
theorem Session.single_reply (s : Session) {line : String} (filled : isBlankLine line = false) :
    (s.reply line).2.Single := by
  have written : (s.reply line).2 = .of (s.submit line).2 := rfl
  rw [written, submit_of_filled s filled]
  cases h : (Session.evaluate { s with lastLine := some line } line).2 with
  | error e => exact .inr ⟨e, rfl⟩
  | ok result =>
    have present : result ≠ .empty := by
      rintro rfl
      exact evaluate_ne_empty _ line filled h
    refine .inl ⟨result, present, ?_⟩
    match result with
    | .empty => exact absurd rfl present
    | .value n => rfl
    | .variable x n => rfl

theorem Session.single_replies {s : Session} {lines : List String}
    (filled : ∀ line ∈ lines, isBlankLine line = false) : ∀ r ∈ s.replies lines, r.Single := by
  induction lines generalizing s with
  | nil => simp [replies, answers]
  | cons line rest ih =>
    obtain ⟨first, later⟩ := List.forall_mem_cons.mp filled
    rw [replies_cons]
    exact List.forall_mem_cons.mpr ⟨s.single_reply first, ih later⟩

namespace Reply

variable {r : Reply} {rs : List Reply}

theorem Single.err_eq (h : r.Single) (succeeded : r.succeeded = true) : r.err = "" := by
  rcases h with ⟨result, -, rfl⟩ | ⟨e, rfl⟩
  · rfl
  · cases succeeded

theorem Single.out_eq (h : r.Single) (failed : r.succeeded = false) : r.out = "" := by
  rcases h with ⟨result, -, rfl⟩ | ⟨e, rfl⟩
  · cases failed
  · rfl

/-- Nothing is written to standard error before a failure. -/
theorem join_err (single : ∀ r ∈ rs, r.Single) (succeeded : ∀ r ∈ rs, r.succeeded = true) :
    String.join (rs.map err) = "" := by
  induction rs with
  | nil => rfl
  | cons r rest ih =>
    obtain ⟨first, later⟩ := List.forall_mem_cons.mp single
    obtain ⟨ok, others⟩ := List.forall_mem_cons.mp succeeded
    rw [List.map_cons, String.join_cons, first.err_eq ok, ih later others]
    rfl

end Reply

namespace Script

variable {s : Session} {lines : List String} (filled : ∀ line ∈ lines, isBlankLine line = false)

include filled

/-- A script without a failure writes all replies. -/
theorem run_succeeded (succeeded : ∀ r ∈ s.replies lines, r.succeeded = true) :
    run s lines = ⟨String.join ((s.replies lines).map Reply.out),
      String.join ((s.replies lines).map Reply.err), 0⟩ := by
  induction lines generalizing s with
  | nil => rfl
  | cons line rest ih =>
    obtain ⟨first, later⟩ := List.forall_mem_cons.mp filled
    rw [Session.replies_cons] at succeeded ⊢
    obtain ⟨ok, others⟩ := List.forall_mem_cons.mp succeeded
    rw [run, first]
    simp only [Bool.false_eq_true, if_false, ok, if_true, ih later others, Reply.before]
    simp

/-- A script ends with the first reply that is a failure, whatever lines come later. -/
theorem run_failed {front back : List Reply} {r : Reply}
    (split : s.replies lines = front ++ r :: back)
    (succeeded : ∀ q ∈ front, q.succeeded = true) (failed : r.succeeded = false)
    (later : List String) :
    run s (lines.take (front.length + 1) ++ later) =
      ⟨String.join (front.map Reply.out) ++ r.out, String.join (front.map Reply.err) ++ r.err,
        1⟩ := by
  induction front generalizing s lines with
  | nil =>
    cases lines with
    | nil => cases split
    | cons line rest =>
      obtain ⟨first, -⟩ := List.forall_mem_cons.mp filled
      rw [Session.replies_cons] at split
      obtain ⟨rfl, -⟩ := List.cons.inj split
      rw [List.length_nil, Nat.zero_add, List.take_succ_cons, List.take_zero, List.singleton_append,
        run, first]
      simp [failed, Reply.last]
  | cons q front ih =>
    cases lines with
    | nil => cases split
    | cons line rest =>
      obtain ⟨first, others⟩ := List.forall_mem_cons.mp filled
      rw [Session.replies_cons, List.cons_append] at split
      obtain ⟨rfl, behind⟩ := List.cons.inj split
      obtain ⟨ok, more⟩ := List.forall_mem_cons.mp succeeded
      rw [List.length_cons, List.take_succ_cons, List.cons_append, run, first]
      simp [ok, ih others behind more, Reply.before, String.append_assoc]

end Script

namespace Prompt

theorem reply?_encode (s : Session) (line : List Char) :
    reply? s (line.flatMap String.utf8EncodeChar) =
      some (s.reply (.ofList (lineContents line))) := by
  rw [reply?, fromUTF8?_encode, Option.map_some, String.toList_ofList]

/-- The prompt writes all replies, each behind its mark. -/
theorem run_encode (s : Session) (lines : List (List Char)) :
    let replies := s.replies (lines.map fun line => .ofList (lineContents line))
    run s (lines.map (·.flatMap String.utf8EncodeChar)) =
      ⟨String.join (replies.map fun r => mark ++ r.out) ++ mark ++ "\n",
        String.join (replies.map Reply.err), 0⟩ := by
  induction lines generalizing s with
  | nil => rfl
  | cons line rest ih =>
    intro replies
    rw [List.map_cons, run, reply?_encode]
    simp [ih, replies, Session.replies_cons, Reply.before, marked, String.append_assoc]

end Prompt

namespace Command

/-- On a text without blank lines a script and the prompt write the same replies, each a line on one
of the outputs: the script those up to the first failure, where it ends with an error whatever comes
later, the prompt all of them with its mark before each. -/
theorem script_like_prompt {text path : String}
    (filled : ∀ line ∈ Script.lines text, isBlankLine line = false)
    {parse : List String → Except Transcript Options}
    (scripted : parse ["-f", path] = .ok { file := true, quiet := false, contents := some path })
    (quieted : parse ["-q"] = .ok { file := false, quiet := true, contents := none })
    {file : String → Option ByteArray} (held : file path = some text.toUTF8) (input : ByteArray) :
    ∃ (replies : List Reply) (script prompt : Transcript),
      runArguments parse input file ["-f", path] = script ∧
      runArguments parse text.toUTF8 file ["-q"] = prompt ∧
      replies = Session.new.replies (Script.lines text) ∧ (∀ r ∈ replies, r.Single) ∧
      prompt = ⟨String.join (replies.map fun r => Prompt.mark ++ r.out) ++ Prompt.mark ++ "\n",
        String.join (replies.map Reply.err), 0⟩ ∧
      (∀ front r back, replies = front ++ r :: back → (∀ q ∈ front, q.succeeded = true) →
        r.succeeded = false →
          script = ⟨String.join (front.map Reply.out), r.err, 1⟩ ∧
          ∀ later, Script.run .new ((Script.lines text).take (front.length + 1) ++ later) =
            script) ∧
      ((∀ r ∈ replies, r.succeeded = true) →
        script = ⟨String.join (replies.map Reply.out), "", 0⟩ ∧ prompt.err = "") := by
  have filled' : ∀ line ∈ cutBehind '\n' text.toList,
      isBlankLine (.ofList (Script.lineContents line)) = false := fun line hl =>
    filled _ (List.mem_map_of_mem hl)
  have alike : Session.new.Agrees .new := ⟨rfl, rfl⟩
  have same := alike.replies _ filled'
  have single := Session.single_replies filled (s := .new)
  have ran : runArguments parse input file ["-f", path] = Script.run .new (Script.lines text) := by
    rw [runArguments, scripted]
    dsimp only [ofOptions]
    rw [run, Script.runFile, held, Option.bind_some, fromUTF8?_toUTF8]
  have asked : runArguments parse text.toUTF8 file ["-q"] =
      Prompt.run .new (cutBehind 10 text.toUTF8.data.toList) := by
    rw [runArguments, quieted]
    rfl
  have prompted := Prompt.run_encode .new (cutBehind '\n' text.toList)
  rw [← same, ← lines_toUTF8] at prompted
  refine ⟨_, _, _, ran, asked, rfl, single, prompted, ?_, ?_⟩
  · intro front r back split succeeded failed
    have alone : ∀ q ∈ front ++ r :: back, q.Single := fun q hq => single q (split ▸ hq)
    obtain ⟨before, here⟩ := List.forall_mem_append.mp alone
    have silent := Reply.join_err before succeeded
    have unwritten := (here r List.mem_cons_self).out_eq failed
    have stopped := Script.run_failed filled split succeeded failed
    simp only [silent, unwritten, String.append_empty, String.empty_append] at stopped
    have whole := stopped ((Script.lines text).drop (front.length + 1))
    rw [List.take_append_drop] at whole
    exact ⟨whole, fun later => (stopped later).trans whole.symm⟩
  · intro succeeded
    have silent := Reply.join_err single succeeded
    refine ⟨?_, ?_⟩
    · rw [Script.run_succeeded filled succeeded, silent]
    · exact (congrArg Transcript.err prompted).trans silent

/-- The second of three lines fails: the script ends there, the prompt goes on. -/
theorem script_like_prompt_division :
    let text := "1 + 1\r\nans / 0\r\r\n5"
    let file : String → Option ByteArray := fun _ => some text.toUTF8
    let parse : List String → Except Transcript Options := fun args =>
      if args = ["-f", "sums"] then .ok ⟨true, false, some "sums"⟩
      else if args = ["-q"] then .ok ⟨false, true, none⟩
      else .error ⟨"", "", 2⟩
    (∀ line ∈ Script.lines text, isBlankLine line = false) ∧
      runArguments parse .empty file ["-f", "sums"] =
        ⟨"2\n", "ArithmeticFault: division by zero in '/'\n", 1⟩ ∧
      runArguments parse text.toUTF8 file ["-q"] =
        ⟨">> 2\n>> >> 5\n>> \n", "ArithmeticFault: division by zero in '/'\n", 0⟩ := by
  intro text file parse
  have filled : ∀ line ∈ Script.lines text, isBlankLine line = false := by decide +kernel
  have found : Session.new.replies (Script.lines text) = [⟨"2\n", "", true⟩,
      ⟨"", "ArithmeticFault: division by zero in '/'\n", false⟩, ⟨"5\n", "", true⟩] := by
    decide +kernel
  have held : file "sums" = some text.toUTF8 := rfl
  have scripted : parse ["-f", "sums"] = .ok ⟨true, false, some "sums"⟩ := if_pos rfl
  have quieted : parse ["-q"] = .ok ⟨false, true, none⟩ := rfl
  obtain ⟨replies, script, prompt, ran, asked, rfl, -, whole, stopped, -⟩ :=
    script_like_prompt filled scripted quieted held .empty
  obtain ⟨ended, -⟩ := stopped [_] _ [_] found (by simp) rfl
  rw [found] at whole
  refine ⟨filled, ?_, ?_⟩
  · rw [ran, ended]
    rfl
  · rw [asked, whole]
    rfl

end Command

end Calculator
