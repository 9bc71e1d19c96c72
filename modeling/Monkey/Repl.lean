import Monkey.Session

/-!
# The interactive loop

The loop prompts, reads a line, and replies: with the value of the line, with nothing where there is
nothing to evaluate, or with what is wrong.  It goes on after every kind of reply and ends at the
end of the input, or at a line that is not text.

## Main definitions

* `inputLines` — the lines of an input.
* `Session.reply` — the reply to a line.
* `Transcript`, `transcriptOn`, `transcript` — what the loop writes for a whole input.
* `replOn` — the loop, on a machine of choice.
* `Session.replyAfterPrinting` — the reply after what the line itself printed.
-/

namespace Monkey

/-- What asks for a line. -/
def prompt : String := ">> "

/-- What stands above parse errors. -/
def banner : String :=
  "            __,__\n" ++
  "   .--.  .-\"     \"-.  .--.\n" ++
  "  / .. \\/  .-. .-.  \\/ .. \\\n" ++
  " | |  '|  /   Y   \\  |'  | |\n" ++
  " | \\   \\  \\ 0 | 0 /  /   / |\n" ++
  "  \\ '- ,\\.-\"\"\"\"\"\"\"-./, -' /\n" ++
  "   ''-' /_   ^ ^   _\\ '-''\n" ++
  "       |  \\._   _./  |\n" ++
  "       \\   \\ '~' /   /\n" ++
  "        '._ '-=-' _.'\n" ++
  "           '-----'\n" ++
  "Woops! We ran into some monkey business here!\n"

/-- A line that a line feed ended, without a carriage return at its end.  The line is given
backwards, and so is the result. -/
def dropCarriageReturn : List UInt8 → List UInt8
  | 13 :: rest => rest
  | line => line

/-- The lines of an input, `line` being the beginning of the first one, backwards.  A line feed ends
a line, and so does the end of the input, unless nothing stands before it. -/
def splitLinesFrom (line : List UInt8) : List UInt8 → List (List UInt8)
  | [] => if line.isEmpty then [] else [line.reverse]
  | 10 :: rest => (dropCarriageReturn line).reverse :: splitLinesFrom [] rest
  | b :: rest => splitLinesFrom (b :: line) rest

/-- The lines of an input, without the line feeds. -/
def splitLines (input : List UInt8) : List (List UInt8) := splitLinesFrom [] input

/-- The text that bytes encode in UTF-8, if they do. -/
def decodeText? (bytes : List UInt8) : Option String := String.fromUTF8? ⟨bytes.toArray⟩

/-- The lines of an input, each as text if it is text. -/
def inputLines (input : List UInt8) : List (Option String) := (splitLines input).map decodeText?

/-- What is written in reply to what a session made of a line. -/
def renderReply : Except SessionError (Option Value) → String
  | .ok (some value) => value.inspect ++ "\n"
  | .ok none => ""
  | .error (.parse errors) => banner ++ renderParseErrors errors
  | .error (.expansion error) => error.message ++ "\n"

namespace Session

/-- The reply to a line. -/
def reply (budget : Nat) (line : String) (s : Session) : Option (String × Session) :=
  (s.run budget line).map fun (result, s) => (renderReply result, s)

/-- The reply to a line after what the line printed, which is forgotten then. -/
def replyAfterPrinting (budget : Nat) (line : String) (s : Session) : Option (String × Session) :=
  (s.clearPrinted.reply budget line).map fun (text, s) => (s.printed ++ text, s.clearPrinted)

end Session

/-- What the loop writes, and how it ends. -/
structure Transcript where
  text : String
  /-- Whether the loop ended at a line that is not text. -/
  invalidText : Bool
  deriving Inhabited

section

universe u

variable {m : Type → Type u} [Monad m]

/-- What the loop writes for the lines of an input, `respond` giving the reply to each, on a machine
of choice. -/
@[specialize] def transcriptOn (respond : String → m String) :
    List (Option String) → m Transcript
  | [] => return ⟨prompt, false⟩
  | none :: _ => return ⟨prompt, true⟩
  | some line :: rest => do
    let text ← respond line
    let more ← transcriptOn respond rest
    return { more with text := prompt ++ text ++ more.text }

variable (m) [Machine m]

/-- The loop on a whole input, with given scopes for names and macros. -/
@[specialize] def replOn (budget globals macros : Nat) (input : List UInt8) : m Transcript :=
  transcriptOn (fun line => do return renderReply (← evalSourceOn m budget globals macros line))
    (inputLines input)

end

/-- What the loop writes for the lines of an input, and the session that it ends with. -/
def transcript (respond : String → Session → Option (String × Session))
    (lines : List (Option String)) (s : Session) : Option (Transcript × Session) :=
  transcriptOn (m := StateT Session Option) respond lines s

end Monkey
