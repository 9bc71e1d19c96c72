import Monkey.Expansion

/-!
# Sessions

A session reads one source after another.  It keeps the names that were bound, the macros that were
defined, the tasks that were started and the text that was printed.

A source is parsed, its macros are defined and expanded, and what is left is evaluated.  If it does
not parse, nothing happens; if a macro cannot be expanded, nothing is evaluated, but the macros that
the source defines stay defined.

## Main definitions

* `Session`, `Session.start` — a session, and a new one.
* `SessionError` — why a source was not evaluated.
* `evalSourceOn` — reading a source, on a machine of choice.
* `Session.run` — reading a source.
-/

namespace Monkey

/-- What lasts from one source to the next. -/
structure Session where
  state : State
  /-- The scope in which sources are evaluated. -/
  globals : Nat
  /-- The scope in which macros are bound. -/
  macros : Nat
  deriving Inhabited

/-- Why a source was not evaluated. -/
inductive SessionError
  | parse (errors : List ParseError)
  | expansion (error : ExpansionError)

/-- The messages of parse errors, one on a line. -/
def renderParseErrors (errors : List ParseError) : String :=
  "parse errors:\n" ++ String.join (errors.map fun e => "\t" ++ e.message ++ "\n")

/-- The wording of a session error. -/
def SessionError.message : SessionError → String
  | .parse errors => renderParseErrors errors
  | .expansion error => error.message

/-- A budget for nested expressions that no terminating program is expected to need. -/
def ampleBudget : Nat := 16 * 1024 * 1024

section

universe u

variable (m : Type → Type u) [Monad m] [Machine m]

/-- Reads a source with given scopes for names and macros, on a machine of choice.  The value is
missing where there is nothing to evaluate. -/
@[specialize] def evalSourceOn (budget globals macros : Nat) (source : String) :
    m (Except SessionError (Option Value)) :=
  match (parse source).toExcept with
  | .error errors => return .error (.parse errors)
  | .ok program => do
    let program ← defineMacros macros program
    match ← expandMacros (evaluateOn m budget) macros program with
    | .error err => return .error (.expansion err)
    | .ok [] => return .ok none
    | .ok program =>
      let v ← runProgramOn m budget program globals
      return .ok (some v)

end

/-- Reads a source with given scopes for names and macros. -/
def evalSource (budget globals macros : Nat) (source : String) :
    Eval (Except SessionError (Option Value)) :=
  evalSourceOn Eval budget globals macros source

namespace Session

/-- A session that has read nothing yet. -/
def start (maxCallDepth : Nat) (output : Output) : Session where
  state := { State.start maxCallDepth output with scopes := (Scopes.empty.add none).add none }
  globals := 0
  macros := 1

/-- Reads a source. -/
def run (budget : Nat) (source : String) (s : Session) :
    Option (Except SessionError (Option Value) × Session) :=
  match evalSource budget s.globals s.macros source s.state with
  | some (reply, state) => some (reply, { s with state := state })
  | none => none

/-- The text printed since it was last cleared. -/
def printed (s : Session) : String := s.state.output.text

/-- Forgets the printed text. -/
def clearPrinted (s : Session) : Session :=
  { s with state := { s.state with output := s.state.output.clear } }

end Session

end Monkey
