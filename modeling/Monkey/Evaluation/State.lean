import Monkey.EvalError
import Monkey.Output
import Monkey.Scopes
import Monkey.Tasks

/-!
# The state of evaluation

What evaluation reads and changes: the scopes, the tasks, the printed output, the addresses that
are still free, and the number of calls that are active.  An evaluation either ends with a value
and a new state or does not end; it does not end where its budget for nested expressions is used
up, and where it awaits a task that nothing can end.

Calls are counted by the thread that makes them: each task counts its own.

## Main definitions

* `State` — the state of evaluation.
* `Eval` — evaluations.
* `Eval.fresh`, `Eval.newScope`, `Eval.setName`, `Eval.findName` — the elementary steps.
* `Closure.refusal?`, `Eval.permit`, `Eval.enterCall`, `Eval.leaveCall` — the count of active calls.
* `Eval.onOwnCount` — evaluation with a count of its own.
-/

namespace Monkey

/-- What evaluation reads and changes. -/
structure State where
  scopes : Scopes
  tasks : Tasks
  output : Output
  /-- The address of the next allocation. -/
  nextAddress : Nat
  /-- The number of calls of functions that are active. -/
  callDepth : Nat
  /-- The greatest number of calls that may be active at a time. -/
  maxCallDepth : Nat
  /-- Why the host refuses to start the thread of a task, if it does. -/
  spawnFailure : Nat → Option String
  deriving Inhabited

/-- The limit on active calls unless another one is chosen. -/
def defaultMaxCallDepth : Nat := 10000

namespace State

/-- The state before anything was evaluated, on a host that starts every thread. -/
def start (maxCallDepth : Nat) (output : Output) : State where
  scopes := .empty
  tasks := .empty
  output := output
  nextAddress := 0
  callDepth := 0
  maxCallDepth := maxCallDepth
  spawnFailure _ := none

end State

/-- Why a call of a function is refused, if it is: there are fewer arguments than parameters, or as
many calls are active as the limit allows. -/
def Closure.refusal? (c : Closure) (args : List Value) (depth limit : Nat) : Option EvalError :=
  if args.length < c.params.length then
    some (.missingArguments c.params.length args.length)
  else if limit ≤ depth then some (.stackOverflow limit)
  else none

/-- An evaluation; `none` is one that does not end. -/
abbrev Eval := StateT State Option

namespace Eval

/-- The evaluation that does not end. -/
def stuck {α : Type} : Eval α := fun _ => none

/-- The address of a new allocation. -/
def fresh : Eval Nat := fun s =>
  some (s.nextAddress, { s with nextAddress := s.nextAddress + 1 })

/-- Creates a scope, and gives its number. -/
def newScope (outer : Option Nat) : Eval Nat := fun s =>
  some (s.scopes.size, { s with scopes := s.scopes.add outer })

/-- Binds a name in a scope. -/
def setName (scope : Nat) (name : String) (value : Value) : Eval Unit := fun s =>
  some ((), { s with scopes := s.scopes.set scope name value })

/-- The value that a name has in a scope. -/
def findName (scope : Nat) (name : String) : Eval (Option Value) := fun s =>
  some (s.scopes.find? scope name, s)

/-- What one scope says of a name. -/
def lookAt (scope : Nat) (name : String) : Eval (Value ⊕ Option Nat) := fun s =>
  some (s.scopes.look scope name, s)

/-- Prints lines. -/
def printLines (lines : List String) : Eval Unit := fun s =>
  some ((), { s with output := s.output.printLines lines })

/-- Asks whether a function may be called, and gives the reason if not. -/
def permit (c : Closure) (args : List Value) : Eval (Option EvalError) := fun s =>
  some (c.refusal? args s.callDepth s.maxCallDepth, s)

/-- One call more is active. -/
def enterCall : Eval Unit := fun s => some ((), { s with callDepth := s.callDepth + 1 })

/-- One call less is active. -/
def leaveCall : Eval Unit := fun s => some ((), { s with callDepth := s.callDepth - 1 })

/-- Evaluates with a count of active calls of its own, which begins with none; the other count is
left alone. -/
def onOwnCount {α : Type} (x : Eval α) : Eval α := fun s =>
  match x { s with callDepth := 0 } with
  | none => none
  | some (a, t) => some (a, { t with callDepth := s.callDepth })

/-- Registers a task, and gives its number. -/
def registerTask : Eval Nat := fun s =>
  let (id, tasks) := s.tasks.register
  some (id, { s with tasks := tasks })

/-- Sends the result of a task. -/
def sendResult (id : Nat) (result : Value) : Eval Unit := fun s =>
  some ((), { s with tasks := (s.tasks.send id result).2 })

/-- Closes the sender of a task. -/
def closeTask (id : Nat) : Eval Unit := fun s =>
  some ((), { s with tasks := (s.tasks.close id).2 })

/-- Sends the result of a task and closes its sender. -/
def finishTask (id : Nat) (result : Value) : Eval Unit := fun s =>
  some ((), { s with tasks := ((s.tasks.send id result).2.close id).2 })

/-- Why the host refuses to start the thread of a task, if it does. -/
def askHost (id : Nat) : Eval (Option String) := fun s => some (s.spawnFailure id, s)

/-- Waits for the result of a task and gives it, or nothing where the task is not known.  Nobody
waits for a task that is still running here, so that evaluation does not end. -/
def joinTask (id : Nat) : Eval (Option Value) := fun s =>
  match s.tasks.join id with
  | (.result value, tasks) => some (some value, { s with tasks := tasks })
  | (.unknown, tasks) => some (none, { s with tasks := tasks })
  | (.wouldBlock, _) => none

end Eval

end Monkey
