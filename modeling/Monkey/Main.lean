import Monkey.CommandLine

/-!
# The command `monkey`

The outermost layer: it reads arguments, standard input and files, and writes what the library says.

## Main definitions

* `main` — the command.
-/

namespace Monkey

/-- The number of an error of the system; some operations of the system report it negated. -/
def errorNumber (code : UInt32) : UInt32 := if code < 0x80000000 then code else 0 - code

/-- What an error of the system says about reading a file. -/
def failureOfCode (code : UInt32) (text : String) : ReadFailure :=
  match errorNumber code with
  | 20 => .notADirectory
  | 21 => .isADirectory
  | 36 => .nameTooLong
  | number => .other (text ++ " (os error " ++ toString number ++ ")")

/-- Why the system could not read a file. -/
def readFailure (error : IO.Error) : ReadFailure :=
  match error with
  | .noFileOrDirectory .. => .notFound
  | .permissionDenied .. => .permissionDenied
  | .inappropriateType _ code text => failureOfCode code text
  | .invalidArgument _ code text => failureOfCode code text
  | error => .other (toString error)

/-- The text of a file. -/
def readSource (path : String) : IO (Except ReadFailure String) := do
  try
    let bytes ← IO.FS.readBinFile path
    match decodeText? bytes.toList with
    | some text => return .ok text
    | none => return .error .invalidText
  catch error => return .error (readFailure error)

/-- The bytes of the next line of an input, its line feed included. -/
partial def readLine (input : IO.FS.Stream) (line : ByteArray) : IO ByteArray := do
  let next ← input.read 1
  if next.isEmpty then return line
  else if next.toList = [10] then return line ++ next
  else readLine input (line ++ next)

/-- Writes a report and gives its exit code. -/
def writeReport (r : Report) : IO UInt32 := do
  IO.print r.stdout
  IO.eprint r.stderr
  return UInt32.ofNat r.code

/-- What is written where a program does not end within the budget. -/
def tooDeep : Report := ⟨1, "", "error: evaluation nests too deeply\n"⟩

/-- Prompts for lines and replies to them until the input ends. -/
partial def interact (input : IO.FS.Stream) (s : Session) : IO UInt32 := do
  IO.print prompt
  (← IO.getStdout).flush
  match inputLines (← readLine input .empty).toList with
  | [] => return 0
  | none :: _ => writeReport ⟨1, "", invalidInput⟩
  | some line :: _ =>
    match s.replyAfterPrinting ampleBudget line with
    | some (text, s) =>
      IO.print text
      interact input s
    | none => writeReport tooDeep

end Monkey

/-- The command `monkey`. -/
def main (args : List String) : IO UInt32 := do
  match Monkey.Command.ofArgs args with
  | .startRepl =>
    IO.print (Monkey.greeting (← IO.getEnv "USER"))
    Monkey.interact (← IO.getStdin) Monkey.commandSession
  | .runFile path =>
    let content ← Monkey.readSource path
    match Monkey.commandSession.runFile Monkey.ampleBudget path content with
    | some (result, s) => Monkey.writeReport (Monkey.fileReport s.printed result)
    | none => Monkey.writeReport Monkey.tooDeep
  | command =>
    match command.report Monkey.ampleBudget ⟨[], [], none⟩ with
    | some report => Monkey.writeReport report
    | none => Monkey.writeReport Monkey.tooDeep
