import Monkey.EvalError
import Monkey.Value.Inspect

/-!
# Native functions

What the native functions make of their arguments, and what `puts` prints.  None of them changes an
argument: `rest` and `push` make new arrays.

## Main definitions

* `Builtin.apply` — the value of a native function on its arguments.
* `Builtin.printed` — the lines that it prints.
-/

namespace Monkey

/-- A length as an integer; one beyond the largest integer becomes that integer. -/
def lengthValue (n : Nat) : Value := .integer (Int64.ofNat (min n (Int64.size / 2 - 1)))

namespace Builtin

/-- The number of arguments that a native function takes; `puts` takes any number. -/
def arity? : Builtin → Option Nat
  | .len | .first | .last | .rest => some 1
  | .push => some 2
  | .puts => none

/-- The length of a string in bytes, or of an array in elements. -/
def applyLen (argument : Value) (fresh : Nat) : Value :=
  match argument with
  | .string _ text => lengthValue text.utf8ByteSize
  | .array _ elements => lengthValue elements.length
  | argument => (EvalError.lengthNotSupported argument.type).toValue fresh

/-- The value of a native function on the elements of its first argument and the arguments after
it. -/
def applyArray (b : Builtin) (elements more : List Value) (fresh : Nat) : Value :=
  match b with
  | .first => elements.head?.getD .null
  | .last => elements.getLast?.getD .null
  | .rest =>
    match elements with
    | [] => .null
    | _ :: tail => .array fresh tail
  | .push => .array fresh (elements ++ more)
  | _ => .null

/-- The value of a native function on its arguments. -/
def apply (b : Builtin) (args : List Value) (fresh : Nat) : Value :=
  match b.arity? with
  | none => .null
  | some want =>
    if args.length ≠ want then (EvalError.wrongArgumentCount args.length want).toValue fresh
    else
      match b, args with
      | .len, argument :: _ => applyLen argument fresh
      | b, .array _ elements :: more => b.applyArray elements more fresh
      | b, argument :: _ => (EvalError.arrayNeeded b argument.type).toValue fresh
      | _, [] => .null

/-- The lines that a native function prints: `puts` prints a line for each argument. -/
def printed (b : Builtin) (args : List Value) : List String :=
  match b with
  | .puts => args.map Value.inspect
  | _ => []

end Builtin

end Monkey
