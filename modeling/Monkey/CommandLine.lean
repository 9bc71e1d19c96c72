import Monkey.Files

/-!
# The command line

What the command `monkey` does: it starts the interactive loop, evaluates a file, or shows a text
about itself.

## Main definitions

* `Command`, `Command.ofArgs` — what can be asked for, and what given arguments ask for.
* `Report` — what a command writes, and its exit code.
* `Command.report` — what a command does, given its surroundings.
-/

namespace Monkey

/-- What can be asked for. -/
inductive Command
  | startRepl
  | runFile (path : String)
  /-- A file is to be run, but none was named. -/
  | runWithoutPath
  | showUsage
  | showVersion
  | unknown (word : String)
  deriving DecidableEq, Repr, Inhabited

/-- The last name in a path, slashes and dots for the place itself left out. -/
def lastName? (path : String) : Option String :=
  match (properNames path).getLast? with
  | some ".." => none
  | name => name

/-- The part of a name after its last dot, unless that dot is its first character. -/
def extension? (name : String) : Option String :=
  let parts := name.splitOn "."
  match parts.getLast?, String.intercalate "." parts.dropLast with
  | _, "" => none
  | ext, _ => ext

/-- Whether a path is that of a Monkey source, in small or capital letters. -/
def isSourcePath (path : String) : Bool :=
  match (lastName? path).bind extension? with
  | some ext => ext.toLower = "monkey"
  | none => false

/-- What the arguments ask for. -/
def Command.ofArgs : List String → Command
  | [] => .startRepl
  | word :: rest =>
    if word = "run" then
      match rest with
      | path :: _ => .runFile path
      | [] => .runWithoutPath
    else if word = "repl" then .startRepl
    else if word = "help" ∨ word = "--help" ∨ word = "-h" then .showUsage
    else if word = "version" ∨ word = "--version" ∨ word = "-V" then .showVersion
    else if isSourcePath word then .runFile word
    else .unknown word

/-- What a command writes, and its exit code. -/
structure Report where
  code : Nat
  stdout : String
  stderr : String
  deriving DecidableEq, Repr, Inhabited

/-- How the command is used. -/
def usage : String :=
  "Monkey interpreter\n" ++
  "\n" ++
  "Usage: monkey [command]\n" ++
  "\n" ++
  "Commands:\n" ++
  "  (none)               Start the interactive REPL\n" ++
  "  repl                 Start the interactive REPL\n" ++
  "  run <file.monkey>    Evaluate a Monkey program\n" ++
  "  help                 Show this help message\n" ++
  "  version              Show version information\n" ++
  "\n" ++
  "Environment:\n" ++
  "  RUST_LOG             Enable logging (e.g. RUST_LOG=monkey_eval=debug)\n"

/-- The version of the command. -/
def versionLine : String := "Monkey 0.1.0\n"

/-- How a command to run no file is answered. -/
def runUsage : String := "Usage: monkey run <file.monkey>\n"

/-- How an unknown command is answered. -/
def unknownCommand (word : String) : String := "Unknown command: " ++ word ++ "\n\n"

/-- What the interactive loop starts with. -/
def greeting (user : Option String) : String :=
  "Hello " ++ user.getD "there" ++ "! This is the Monkey programming language!\n" ++
    "Feel free to type in commands\n"

/-- What is written where the input is not text. -/
def invalidInput : String := "error: " ++ "stream did not contain valid UTF-8" ++ "\n"

/-- Without the blanks at the end. -/
def trimEnd (text : String) : String :=
  String.ofList (text.toList.reverse.dropWhile Char.isWhitespace).reverse

/-- What is written for the source in a file, after what the source printed. -/
def fileReport (printed : String) : Except FileError Value → Report
  | .ok .null => ⟨0, printed, ""⟩
  | .ok value => ⟨0, printed ++ value.inspect ++ "\n", ""⟩
  | .error error => ⟨1, printed, trimEnd error.message ++ "\n"⟩

/-- What surrounds a command. -/
structure Surroundings where
  directory : Directory
  stdin : List UInt8
  user : Option String

/-- A session for a command. -/
def commandSession : Session := .start defaultMaxCallDepth .empty

/-- What a command does. -/
def Command.report (budget : Nat) (around : Surroundings) : Command → Option Report
  | .startRepl => do
    let (t, _) ← transcript (fun line s => s.replyAfterPrinting budget line)
      (inputLines around.stdin) commandSession
    let code := if t.invalidText then 1 else 0
    let stderr := if t.invalidText then invalidInput else ""
    return ⟨code, greeting around.user ++ t.text, stderr⟩
  | .runFile path => do
    let (result, s) ← commandSession.runFile budget path (around.directory.read path)
    return fileReport s.printed result
  | .runWithoutPath => return ⟨1, "", runUsage⟩
  | .showUsage => return ⟨0, usage, ""⟩
  | .showVersion => return ⟨0, versionLine, ""⟩
  | .unknown word => return ⟨1, usage, unknownCommand word⟩

end Monkey
