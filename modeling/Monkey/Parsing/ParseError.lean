import Monkey.Token

/-!
# Parse errors

What the parser reports.  Every error points at the token that it blames.

## Main definitions

* `ParseError` — the causes.
* `ParseError.span`, `ParseError.message` — where the error is and how it is worded.
-/

namespace Monkey

/-- A reason why a statement could not be read. -/
inductive ParseError
  /-- One class of token was needed where another one stands. -/
  | unexpectedToken (expected found : TokenClass) (span : Span)
  /-- No expression starts with the token. -/
  | noPrefixRule (found : TokenClass) (span : Span)
  /-- The numeral does not fit in sixty-four signed bits. -/
  | integerTooLarge (digits : String) (span : Span)
  deriving DecidableEq, Repr, Inhabited

namespace ParseError

/-- The span of the token that the error blames. -/
def span : ParseError → Span
  | .unexpectedToken _ _ span => span
  | .noPrefixRule _ span => span
  | .integerTooLarge _ span => span

/-- The wording of an error. -/
def message : ParseError → String
  | .unexpectedToken expected found _ =>
    "expected next token to be " ++ expected.name ++ ", got " ++ found.name ++ " instead"
  | .noPrefixRule found _ => "no prefix parse function for " ++ found.name ++ " found"
  | .integerTooLarge digits _ => "could not parse " ++ digits ++ " as integer"

/-- The same error, its span moved towards the end of the source. -/
def shift (distance : Nat) : ParseError → ParseError
  | .unexpectedToken expected found span =>
    .unexpectedToken expected found (span.shift distance)
  | .noPrefixRule found span => .noPrefixRule found (span.shift distance)
  | .integerTooLarge digits span => .integerTooLarge digits (span.shift distance)

@[simp] theorem message_shift (distance : Nat) (e : ParseError) :
    (e.shift distance).message = e.message := by
  cases e <;> rfl

@[simp] theorem span_shift (distance : Nat) (e : ParseError) :
    (e.shift distance).span = e.span.shift distance := by
  cases e <;> rfl

end ParseError

end Monkey
