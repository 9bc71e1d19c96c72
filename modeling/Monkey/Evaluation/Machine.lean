import Monkey.Evaluation.State

/-!
# Machines

What the evaluator is built of.  It does elementary actions, of which each is one step for everybody
who shares the state, it says where the body of a function begins and ends, and it starts tasks.
What becomes of all this is up to the machine.  On one machine an evaluation changes the state, and
a task runs to its end where it is started; another one only writes down what is to be done, so that
threads can take turns in doing it.

What is worth noting besides the actions, as the value of an expression, is noted on the way, and
changes nothing.

## Main definitions

* `Note`, `Action` — what is noted, and what is done in one step.
* `Machine` — what the evaluator is built of.
* `Machine.raise`, `Machine.andThen`, `Machine.operate` — making errors, going on, and operations.
* `Machine.call`, `Machine.start` — calls and tasks, their bodies being left to an argument.
-/

namespace Monkey

universe u

/-- What is worth noting in a run. -/
inductive Note
  /-- What an expression or a `return` statement gives. -/
  | gave (v : Value)
  /-- What an operator or an index expression is applied to. -/
  | operands (vs : List Value)
  /-- What is called with which arguments. -/
  | applied (callee : Value) (args : List Value)
  /-- What a call of a function, a program or a task gives. -/
  | resulted (v : Value)
  /-- An error is made. -/
  | raised (e : EvalError)

/-- What is done in one step, and the type of what comes of it. -/
inductive Action : Type → Type
  | note (n : Note) : Action Unit
  /-- Never comes to an end. -/
  | stuck : Action Value
  | fresh : Action Nat
  | newScope (outer : Option Nat) : Action Nat
  | setName (scope : Nat) (name : String) (value : Value) : Action Unit
  /-- Looks a name up in one scope, without those around it. -/
  | look (scope : Nat) (name : String) : Action (Value ⊕ Option Nat)
  | print (line : String) : Action Unit
  /-- Asks why a call is refused, if it is. -/
  | permit (c : Closure) (args : List Value) : Action (Option EvalError)
  | enterCall : Action Unit
  | leaveCall : Action Unit
  | register : Action Nat
  | send (id : Nat) (result : Value) : Action Unit
  | close (id : Nat) : Action Unit
  /-- Waits for the result of a task, which is missing where the task is not known. -/
  | join (id : Nat) : Action (Option Value)

/-- What an action does to the state.  It is not done as long as there is nothing that it does. -/
def Action.run : {α : Type} → Action α → Eval α
  | _, .note _ => pure ()
  | _, .stuck => Eval.stuck
  | _, .fresh => Eval.fresh
  | _, .newScope outer => Eval.newScope outer
  | _, .setName scope name value => Eval.setName scope name value
  | _, .look scope name => Eval.lookAt scope name
  | _, .print line => Eval.printLines [line]
  | _, .permit c args => Eval.permit c args
  | _, .enterCall => Eval.enterCall
  | _, .leaveCall => Eval.leaveCall
  | _, .register => Eval.registerTask
  | _, .send id result => Eval.sendResult id result
  | _, .close id => Eval.closeTask id
  | _, .join id => Eval.joinTask id

/-- What the evaluator is built of. -/
class Machine (m : Type → Type u) where
  act {α : Type} (a : Action α) : m α
  /-- Notes something before going on. -/
  noted {α : Type} (n : Note) (x : m α) : m α
  /-- Notes what is given. -/
  giving (x : m Value) : m Value
  /-- Runs inside the body of a function. -/
  inBody {α : Type} (c : Closure) (x : m α) : m α
  /-- Looks a name up in a scope and those around it. -/
  find (scope : Nat) (name : String) : m (Option Value)
  print (lines : List String) : m Unit
  /-- Has a task run under a given number, or gives the reason why the host does not start it. -/
  spawn (id : Nat) (task : m Value) : m (Option String)

/-- Runs a task to its end on the spot, if the host starts it. -/
def Eval.spawn (id : Nat) (task : Eval Value) : Eval (Option String) := do
  match ← askHost id with
  | some reason =>
    closeTask id
    return some reason
  | none =>
    let v ← onOwnCount task
    finishTask id v
    return none

/-- The machine that changes the state.  Tasks run to their end where they are started. -/
instance : Machine Eval where
  act := Action.run
  noted _ x := x
  giving x := x
  inBody _ x := x
  find := Eval.findName
  print := Eval.printLines
  spawn := Eval.spawn

namespace Machine

section

variable {m : Type → Type u} [Monad m] [Machine m] {α : Type}

/-- Makes a value at a new address. -/
@[inline] def allocate (make : Nat → Value) : m Value := do
  let addr ← act .fresh
  return make addr

/-- Yields an error. -/
def raise (e : EvalError) : m Value := noted (.raised e) (allocate e.toValue)

/-- Makes the value of an operation. -/
@[inline] def operate (operands : List Value) (make : Nat → Value) : m Value :=
  noted (.operands operands) (allocate make)

/-- Goes on with the value of an evaluation, unless it is abrupt. -/
@[inline] def andThen (x : m Value) (k : Value → m Value) : m Value := do
  let v ← x
  if v.isAbrupt then return v else k v

/-- Makes the wrapper of a value that is returned. -/
@[inline] def returning (v : Value) : m Value := giving (allocate fun addr => .returned addr v)

/-- Gives what a call, a program or a task makes of the value of its body. -/
@[inline] def leave (v : Value) : m Value := noted (.resulted v.unwrapReturn) (pure v.unwrapReturn)

/-- Binds names in a scope, in order. -/
@[specialize] def setNames (scope : Nat) : List (String × Value) → m Unit
  | [] => return ()
  | (name, value) :: rest => do
    act (.setName scope name value)
    setNames scope rest

/-- Runs the body of a function, which is active meanwhile. -/
@[inline] def inCall (c : Closure) (x : m α) : m α := do
  act .enterCall
  inBody c do
    let a ← x
    act .leaveCall
    return a

/-- A call: it is refused, or its body runs in the scope that is made for it. -/
@[inline] def call (c : Closure) (args : List Value) (scope : m Nat) (body : Nat → m Value) :
    m Value := do
  match ← act (.permit c args) with
  | some e => raise e
  | none =>
    let inner ← scope
    let v ← inCall c (body inner)
    leave v

/-- Starts a task with a given body. -/
@[inline] def start (body : m Value) : m Value := do
  let id ← act .register
  let refusal ← spawn id do
    let v ← body
    leave v
  match refusal with
  | none => return .task id
  | some reason => raise (.launchFailed reason)

end

end Machine

end Monkey
