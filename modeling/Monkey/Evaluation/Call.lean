import Monkey.Builtins
import Monkey.Evaluation.Body
import Monkey.Parsing

/-!
# Calls and tasks

A function runs its body in a new scope inside the scope that it was written in.  The intrinsics
take one argument each and run in the scope of their caller: `eval` runs the text of a program in a
new scope inside it, and `launch` starts a task whose body runs in a new scope inside it too, so
that the task sees the names of the caller and not those of the function.

A task that was launched may be refused a thread by the host.  Otherwise it runs on its own: the
handle is there at once, and the result is waited for where it is asked for.

## Main definitions

* `callClosure` — the call of a function.
* `evalText`, `launch`, `awaitTask` — the intrinsics.
* `applyValue` — the call of any value.
-/

namespace Monkey

open Machine

universe u

section

variable {m : Type → Type u} [Monad m] [Machine m] (eval : Expr → Nat → m Value)

/-- Calls a function.  Arguments without a parameter are dropped; parameters without an argument
are an error, and so is a call beyond the limit. -/
@[specialize] def callClosure (c : Closure) (args : List Value) : m Value :=
  call c args
    (do
      let inner ← act (.newScope (some c.scope))
      setNames inner (c.params.zip args)
      return inner)
    (evalBody eval c.body)

/-- Runs the text of a program in a new scope. -/
@[specialize] def evalText (argument : Value) (scope : Nat) : m Value :=
  match argument with
  | .string _ source =>
    match (parse source).toExcept with
    | .ok program => do
      let inner ← act (.newScope (some scope))
      evalProgram eval program inner
    | .error errors => raise (.evalParseErrors errors)
  | argument => raise (.evalNeedsString argument.type)

/-- Starts a task.  The parameters of the function are not bound. -/
@[specialize] def launch (argument : Value) (scope : Nat) : m Value :=
  match argument with
  | .function _ c => do
    let inner ← act (.newScope (some scope))
    start (evalBody eval c.body inner)
  | argument => raise (.launchNeedsFunction argument.type)

/-- The result of a task. -/
def awaitTask (argument : Value) : m Value :=
  match argument with
  | .task id => do
    match ← act (.join id) with
    | some value => return value
    | none => raise (.taskNotFound id)
  | argument => raise (.awaitNeedsTask argument.type)

/-- Calls an intrinsic from a scope. -/
@[specialize] def callIntrinsic (i : Intrinsic) (args : List Value) (scope : Nat) : m Value :=
  match args with
  | [argument] =>
    match i with
    | .eval => evalText eval argument scope
    | .launch => launch eval argument scope
    | .await => awaitTask argument
  | args => raise (.wrongArgumentCount args.length 1)

/-- Calls a native function. -/
def callBuiltin (b : Builtin) (args : List Value) : m Value := do
  print (b.printed args)
  allocate (b.apply args)

/-- Calls a value from a scope. -/
@[specialize] def applyValue (callee : Value) (args : List Value) (scope : Nat) : m Value :=
  noted (.applied callee args) <| match callee with
  | .function _ c => callClosure eval c args
  | .builtin b => callBuiltin b args
  | .intrinsic i => callIntrinsic eval i args scope
  | callee => raise (.notAFunction callee.type)

end

end Monkey
