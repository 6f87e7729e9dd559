import Calculator.Command

namespace Calculator.Program

def write (t : Transcript) : IO UInt32 := do
  (← IO.getStdout).putStr t.out
  (← IO.getStderr).putStr t.err
  return t.code.toUInt32

/-- Reads up to a line feed or the end of input. -/
partial def readLine (input : IO.FS.Stream) (line : Array UInt8) : IO (List UInt8) := do
  let bytes ← input.read 1
  match bytes.toList with
  | [] => return line.toList
  | b :: _ => if b = 10 then return (line.push b).toList else readLine input (line.push b)

/-- Answers as soon as a line is there. -/
partial def converse (s : Session) : IO UInt32 := do
  let out ← IO.getStdout
  out.putStr Prompt.mark
  out.flush
  match ← readLine (← IO.getStdin) #[] with
  | [] => write Prompt.finished.last
  | line =>
    match Prompt.reply? s line with
    | none => write Prompt.notText.last
    | some (s, r) =>
      let _ ← write r.last
      converse s

def contents (path : String) : IO (Option ByteArray) := do
  try return some (← IO.FS.readBinFile path) catch _ => return none

def run : Command → IO UInt32
  | .prompt quiet => do
    unless quiet do (← IO.getStdout).putStr Prompt.greeting
    converse .new
  | .script path => do
    let file ← contents path
    write (Command.run .empty (fun _ => file) (.script path))
  | command => write (Command.run .empty (fun _ => none) command)

/-- The program, with `parse` for the arguments. -/
def start (parse : List String → Except Transcript Options) (args : List String) : IO UInt32 :=
  match parse args with
  | .ok o => run (.ofOptions o)
  | .error t => write t

end Calculator.Program
