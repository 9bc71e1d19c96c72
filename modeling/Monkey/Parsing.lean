import Monkey.Parsing.Grammar
import Monkey.Token.Lexer

/-!
# Reading programs

A source text, or a list of tokens, gives a program and the errors that were met.  After an error
the program lacks the statements that failed.

## Main definitions

* `Parsed` — a program together with the errors met.
* `parseTokens`, `parse` — reading tokens and reading source text.
-/

namespace Monkey

/-- A program together with the errors met in reading it, in the order of the source. -/
structure Parsed where
  program : Program
  errors : List ParseError
  deriving Inhabited

/-- The program alone, if there was no error. -/
def Parsed.toExcept (p : Parsed) : Except (List ParseError) Program :=
  if p.errors.isEmpty then .ok p.program else .error p.errors

/-- Reads a list of tokens.  An end token is added where the list does not end with one. -/
def parseTokens (tokens : List Token) : Parsed :=
  match Parser.program (tokens.length + 2) (Cursor.ofTokens tokens) with
  | .done program errors _ => ⟨program, errors⟩
  | .failed errors _ => ⟨[], errors⟩
  | .exhausted => ⟨[], []⟩

/-- Reads a source text. -/
def parse (source : String) : Parsed := parseTokens (lex source)

end Monkey
