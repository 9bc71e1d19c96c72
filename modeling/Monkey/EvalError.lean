import Monkey.Parsing.ParseError
import Monkey.Value

/-!
# Errors of evaluation

Every way in which evaluation goes wrong, and how it is worded.  In the language an error is a
value that holds the wording.

## Main definitions

* `EvalError` — the causes.
* `EvalError.message`, `EvalError.toValue` — the wording, and the value that holds it.
-/

namespace Monkey

/-- A reason why evaluation goes wrong. -/
inductive EvalError
  | unknownPrefixOperator (op : PrefixOp) (operand : ValueType)
  | unknownInfixOperator (left : ValueType) (op : InfixOp) (right : ValueType)
  | typeMismatch (left : ValueType) (op : InfixOp) (right : ValueType)
  | divisionByZero
  | identifierNotFound (name : String)
  | notAFunction (callee : ValueType)
  /-- A function was called with fewer arguments than it has parameters. -/
  | missingArguments (want got : Nat)
  /-- A native function was called with another number of arguments than it takes. -/
  | wrongArgumentCount (got want : Nat)
  /-- As many calls are nested as the limit allows. -/
  | stackOverflow (limit : Nat)
  | indexNotSupported (base : ValueType)
  | unusableAsHashKey (key : ValueType)
  | evalNeedsString (argument : ValueType)
  /-- The text given to `eval` is no program. -/
  | evalParseErrors (errors : List ParseError)
  | launchNeedsFunction (argument : ValueType)
  /-- The host refused the thread of a task, for the reason that is given. -/
  | launchFailed (reason : String)
  | awaitNeedsTask (argument : ValueType)
  | taskNotFound (id : Nat)
  | lengthNotSupported (argument : ValueType)
  | arrayNeeded (function : Builtin) (argument : ValueType)

namespace EvalError

/-- The wording of an error. -/
def message : EvalError → String
  | .unknownPrefixOperator op operand => "unknown operator: " ++ op.text ++ operand.name
  | .unknownInfixOperator left op right =>
    "unknown operator: " ++ left.name ++ " " ++ op.text ++ " " ++ right.name
  | .typeMismatch left op right =>
    "type mismatch: " ++ left.name ++ " " ++ op.text ++ " " ++ right.name
  | .divisionByZero => "division by zero"
  | .identifierNotFound name => "identifier not found: " ++ name
  | .notAFunction callee => "not a function: " ++ callee.name
  | .missingArguments want got =>
    "wrong number of arguments: want=" ++ toString want ++ ", got=" ++ toString got
  | .wrongArgumentCount got want =>
    "wrong number of arguments. got=" ++ toString got ++ ", want=" ++ toString want
  | .stackOverflow limit =>
    "stack overflow: maximum call depth " ++ toString limit ++ " exceeded"
  | .indexNotSupported base => "index operator not supported: " ++ base.name
  | .unusableAsHashKey key => "unusable as hash key: " ++ key.name
  | .evalNeedsString argument => "argument of eval must be STRING. got=" ++ argument.name
  | .evalParseErrors errors =>
    "parse error at eval: " ++ String.intercalate "; " (errors.map ParseError.message)
  | .launchNeedsFunction argument =>
    "argument for launch must be FUNCTION. got=" ++ argument.name
  | .launchFailed reason => "failed to launch thread: " ++ reason
  | .awaitNeedsTask argument =>
    "argument for await must be THREAD_HANDLE. got=" ++ argument.name
  | .taskNotFound id => "thread not found: " ++ toString id
  | .lengthNotSupported argument =>
    "argument to `len` not supported, got " ++ argument.name
  | .arrayNeeded function argument =>
    "argument to `" ++ function.name ++ "` must be ARRAY, got " ++ argument.name

/-- The value that holds the wording of an error. -/
def toValue (e : EvalError) (fresh : Nat) : Value := .error fresh e.message

@[simp] theorem isAbrupt_toValue (e : EvalError) (fresh : Nat) :
    (e.toValue fresh).isAbrupt = true := rfl

end EvalError

end Monkey
