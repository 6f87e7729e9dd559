import Calculator.Session

namespace Calculator

/-- What the arguments of a run say: whether the contents are the path of a script, whether the prompt
leaves the greeting out, and the contents. -/
structure Options where
  file : Bool
  quiet : Bool
  contents : Option String
deriving DecidableEq, Repr

inductive Command where
  | expression (line : String)
  | script (path : String)
  | missingPath
  | prompt (quiet : Bool)
deriving DecidableEq, Repr

namespace Command

def ofOptions (o : Options) : Command :=
  match o.contents, o.file with
  | some path, true => .script path
  | some line, false => .expression line
  | none, true => .missingPath
  | none, false => .prompt o.quiet

end Command

/-- What a run writes to standard output and to standard error, and its exit code. -/
structure Transcript where
  out : String
  err : String
  code : Nat
deriving DecidableEq, Repr

/-- What a line writes, and whether it succeeded. -/
structure Reply where
  out : String
  err : String
  succeeded : Bool
deriving DecidableEq, Repr

namespace Reply

def of : Except LineError Evaluation → Reply
  | .ok .empty => ⟨"", "", true⟩
  | .ok result => ⟨result.text ++ "\n", "", true⟩
  | .error e => ⟨"", e.text ++ "\n", false⟩

/-- What was written before the rest of a run. -/
def before (r : Reply) (t : Transcript) : Transcript := ⟨r.out ++ t.out, r.err ++ t.err, t.code⟩

def last (r : Reply) : Transcript := ⟨r.out, r.err, if r.succeeded then 0 else 1⟩

end Reply

def Session.reply (s : Session) (line : String) : Session × Reply :=
  let (s, result) := s.submit line
  (s, .of result)

/-- Cuts behind every mark. -/
def cutBehind {α : Type} [DecidableEq α] (mark : α) (xs : List α) : List (List α) :=
  xs.foldr (fun x lines =>
    if x = mark then [x] :: lines
    else
      match lines with
      | [] => [[x]]
      | l :: ls => (x :: l) :: ls) []

namespace Script

/-- A line without its line feed and one carriage return before that. -/
def lineContents (line : List Char) : List Char :=
  match line.reverse with
  | '\n' :: '\r' :: r => r.reverse
  | '\n' :: r => r.reverse
  | _ => line

def lines (text : String) : List String :=
  (cutBehind '\n' text.toList).map fun line => String.ofList (lineContents line)

/-- Evaluates lines up to the first failure; blank ones are skipped. -/
def run (s : Session) : List String → Transcript
  | [] => ⟨"", "", 0⟩
  | line :: rest =>
    if isBlankLine line then run s rest
    else
      let (s, r) := s.reply line
      if r.succeeded then r.before (run s rest) else r.last

def unreadable (path : String) : Transcript :=
  ⟨"", s!"Failed to read the input file '{path}'. Perhaps this file does not exist?\n", 1⟩

def runFile (s : Session) (path : String) (contents : Option ByteArray) : Transcript :=
  match contents.bind String.fromUTF8? with
  | some text => run s (lines text)
  | none => unreadable path

end Script

namespace Prompt

def greeting : String := "Welcome to calculator.\n"

def mark : String := ">> "

/-- A line without line feeds and carriage returns at its end. -/
def lineContents (line : List Char) : List Char :=
  (line.reverse.dropWhile fun c => c = '\r' || c = '\n').reverse

/-- Answers a line of input, if it is text. -/
def reply? (s : Session) (line : List UInt8) : Option (Session × Reply) :=
  (String.fromUTF8? ⟨line.toArray⟩).map fun text =>
    s.reply (String.ofList (lineContents text.toList))

def notText : Reply := ⟨"", "Failed to read input: stream did not contain valid UTF-8\n", false⟩

def finished : Reply := ⟨"\n", "", true⟩

def marked (t : Transcript) : Transcript := { t with out := mark ++ t.out }

/-- Answers line after line. -/
def run (s : Session) : List (List UInt8) → Transcript
  | [] => marked finished.last
  | line :: rest =>
    match reply? s line with
    | none => marked notText.last
    | some (s, r) => marked (r.before (run s rest))

end Prompt

namespace Command

def run (input : ByteArray) (file : String → Option ByteArray) : Command → Transcript
  | .expression line => (Session.new.reply line).2.last
  | .script path => Script.runFile .new path (file path)
  | .missingPath => ⟨"", "--file needs the path of a script to evaluate.\n", 1⟩
  | .prompt quiet =>
    let t := Prompt.run .new (cutBehind 10 input.data.toList)
    if quiet then t else { t with out := Prompt.greeting ++ t.out }

/-- A whole run. What the arguments say is told by `parse`, which answers them itself where they are
wrong or ask for help. Left out is the log that a run writes to standard error where the environment
asks for one. -/
def runArguments (parse : List String → Except Transcript Options) (input : ByteArray)
    (file : String → Option ByteArray) (args : List String) : Transcript :=
  match parse args with
  | .ok o => run input file (ofOptions o)
  | .error t => t

end Command

end Calculator
