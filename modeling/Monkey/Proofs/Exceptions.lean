import Monkey.Evaluation

/-!
# Evaluation with exceptions

The language once more, as it is meant.  Here an error and a `return` are no values: they are
raised, and what is raised ends everything around it until something catches it.  Nobody asks what
a part has given.  A value is proper by its type, and only proper values are bound to names, put
into arrays and hashes, and handed to operators and calls.

A `return` is caught by the call of a function, by a program, by a task and by an argument of
`unquote`, and by nothing else.  An error is caught by a task only, which keeps it for whoever
awaits the task.

## Main definitions

* `Proper`, `Raised` — proper values, and what is raised.
* `Raising` — evaluations that may raise something.
* `Raising.catchReturn` — where a `return` ends.
* `Raising.evaluate`, `Raising.runProgram` — the meaning of expressions and programs.
-/

namespace Monkey

/-- A value that is neither an error nor the wrapper of a `return`. -/
structure Proper where
  value : Value
  proper : value.isAbrupt = false

/-- What is raised. -/
inductive Raised
  | error (addr : Nat) (message : String)
  /-- A `return` of a value; the address is that of its wrapper. -/
  | ret (addr : Nat) (v : Proper)

/-- The value that stands for what is raised. -/
def Raised.toValue : Raised → Value
  | .error addr message => .error addr message
  | .ret addr v => .returned addr v.value

/-- An evaluation that may raise something; the state is kept then. -/
abbrev Raising := ExceptT Raised Eval

namespace Raising

open Eval (fresh newScope setName findName printLines permit enterCall leaveCall onOwnCount
  registerTask askHost closeTask finishTask joinTask stuck)

/-- Raises an error. -/
def raise {α : Type} (e : EvalError) : Raising α := do
  let addr ← fresh
  throw (.error addr e.message)

/-- Takes up what a name, an operation or a task gives.  An error is raised; there is nothing to go
on with where a wrapper of a `return` is given. -/
def settle (v : Value) : Raising Proper :=
  match h : v with
  | .error addr message => throw (.error addr message)
  | .returned _ _ => liftM (stuck : Eval Proper)
  | .integer _ | .boolean _ | .null | .string _ _ | .array _ _ | .hash _ _ | .function _ _
  | .quote _ _ | .macroFn _ _ | .builtin _ | .intrinsic _ | .task _ => return ⟨v, by rw [h]; rfl⟩

/-- The value of an operation, which is made at a fresh address. -/
def operate (operation : Nat → Value) : Raising Proper := do
  let addr ← fresh
  settle (operation addr)

/-- Ends a `return` that is raised with the value that it returns. -/
def catchReturn (x : Raising Proper) : Raising Proper :=
  tryCatch x fun
    | .ret _ v => return v
    | .error addr message => throw (.error addr message)

/-- Runs the body of a function, which is active meanwhile, whatever is raised. -/
def inCall (x : Raising Proper) : Raising Proper := ExceptT.mk do
  enterCall
  let result ← x.run
  leaveCall
  return result

/-- Gives what an evaluation comes to, without raising it. -/
def attempt (x : Raising Proper) : Raising (Except Raised Proper) := ExceptT.lift x.run

/-- The value that stands for what an evaluation has come to. -/
def outcome : Except Raised Proper → Value
  | .ok v => v.value
  | .error e => e.toValue

section

variable (eval : Expr → Nat → Raising Proper)

/-- A statement. -/
def evalStmt (scope : Nat) : Stmt → Raising Proper
  | .letBe name value => do
    let v ← eval value scope
    setName scope name v.value
    return v
  | .ret value => do
    let v ← eval value scope
    let addr ← fresh
    throw (.ret addr v)
  | .expr value => eval value scope

/-- Statements in order; the value of the last one is the value of all. -/
def evalBody (body : Block) (scope : Nat) : Raising Proper :=
  body.foldlM (fun _ st => evalStmt eval scope st) ⟨.null, rfl⟩

/-- A program. -/
def evalProgram (program : Program) (scope : Nat) : Raising Proper :=
  catchReturn (evalBody eval program scope)

/-- The values of expressions, from left to right. -/
def evalArgs (scope : Nat) (args : List Expr) : Raising (List Proper) :=
  args.mapM fun e => eval e scope

/-- Adds a pair of a hash literal to its entries: first its key, which has to be fit for it, and
then its value.  Of equal keys the last one counts. -/
def addPair (scope : Nat) (entries : Entries Proper) (pair : Expr × Expr) :
    Raising (Entries Proper) := do
  let k ← eval pair.1 scope
  match k.value.hashKey? with
  | none => raise (.unusableAsHashKey k.value.type)
  | some hashKey =>
    let v ← eval pair.2 scope
    return Entries.insert hashKey v entries

/-- The entries of a hash literal, from left to right. -/
def evalPairs (scope : Nat) (pairs : List (Expr × Expr)) : Raising (Entries Proper) :=
  pairs.foldlM (addPair eval scope) []

/-- Binds names in a scope, one after another. -/
def bindNames (scope : Nat) (bindings : List (String × Proper)) : Raising Unit :=
  forM bindings fun b => setName scope b.1 b.2.value

/-- The call of a function. -/
def callClosure (c : Closure) (args : List Proper) : Raising Proper := do
  match ← permit c (args.map Proper.value) with
  | some e => raise e
  | none =>
    let scope ← newScope (some c.scope)
    bindNames scope (c.params.zip args)
    inCall (catchReturn (evalBody eval c.body scope))

/-- The text of a program, run in a new scope. -/
def evalText (argument : Proper) (scope : Nat) : Raising Proper :=
  match argument.value with
  | .string _ source =>
    match (parse source).toExcept with
    | .ok program => do
      let inner ← newScope (some scope)
      evalProgram eval program inner
    | .error errors => raise (.evalParseErrors errors)
  | other => raise (.evalNeedsString other.type)

/-- The body of a task, which counts its own calls. -/
def runTask (body : Block) (scope : Nat) : Raising Proper :=
  ExceptT.mk (onOwnCount (catchReturn (evalBody eval body scope)).run)

/-- The start of a task.  What its body raises is the result of the task and ends nothing else; what
the host has against it is raised. -/
def launch (argument : Proper) (scope : Nat) : Raising Proper :=
  match argument.value with
  | .function _ c => do
    let inner ← newScope (some scope)
    let id ← registerTask
    match ← askHost id with
    | some reason => do
      closeTask id
      raise (.launchFailed reason)
    | none => do
      let result ← attempt (runTask eval c.body inner)
      finishTask id (outcome result)
      return ⟨.task id, rfl⟩
  | other => raise (.launchNeedsFunction other.type)

/-- The result of a task; the error of a task that has failed is raised again. -/
def awaitTask (argument : Proper) : Raising Proper :=
  match argument.value with
  | .task id => do
    match ← joinTask id with
    | some value => settle value
    | none => raise (.taskNotFound id)
  | other => raise (.awaitNeedsTask other.type)

/-- The call of an intrinsic. -/
def callIntrinsic (i : Intrinsic) (args : List Proper) (scope : Nat) : Raising Proper :=
  match args with
  | [argument] =>
    match i with
    | .eval => evalText eval argument scope
    | .launch => launch eval argument scope
    | .await => awaitTask argument
  | args => raise (.wrongArgumentCount args.length 1)

/-- The call of a native function. -/
def callBuiltin (b : Builtin) (args : List Proper) : Raising Proper := do
  printLines (b.printed (args.map Proper.value))
  operate (b.apply (args.map Proper.value))

/-- The call of any value. -/
def applyValue (callee : Proper) (args : List Proper) (scope : Nat) : Raising Proper :=
  match callee.value with
  | .function _ c => callClosure eval c args
  | .builtin b => callBuiltin b args
  | .intrinsic i => callIntrinsic eval i args scope
  | other => raise (.notAFunction other.type)

/-- A call of `unquote` inside `quote` gives way to the literal of its argument. -/
def unquoteVisit (scope : Nat) (e : Expr) : Raising Expr :=
  match e.unquoted? with
  | none => return e
  | some argument => do
    let v ← catchReturn (eval argument scope)
    return v.value.toExpr?.getD e

/-- A call of `quote`. -/
def quoteArgs (args : List Expr) (scope : Nat) : Raising Proper :=
  match args with
  | [] => raise (.wrongArgumentCount 0 1)
  | e :: _ => do
    let node ← e.rewriteM (unquoteVisit eval scope)
    let addr ← fresh
    return ⟨.quote addr node, rfl⟩

/-- The value of a name. -/
def evalName (name : String) (scope : Nat) : Raising Proper :=
  match Intrinsic.ofName? name with
  | some i => return ⟨.intrinsic i, rfl⟩
  | none => do
    match ← findName scope name with
    | some value => settle value
    | none =>
      match Builtin.ofName? name with
      | some b => return ⟨.builtin b, rfl⟩
      | none => raise (.identifierNotFound name)

/-- A branch that may be missing. -/
def evalBranch (branch : Option Block) (scope : Nat) : Raising Proper :=
  match branch with
  | some body => evalBody eval body scope
  | none => return ⟨.null, rfl⟩

/-- One level of evaluation. -/
def evalStep (e : Expr) (scope : Nat) : Raising Proper :=
  match e with
  | .ident name => evalName name scope
  | .int value => return ⟨.integer value, rfl⟩
  | .bool value => return ⟨.boolean value, rfl⟩
  | .str text => do
    let addr ← fresh
    return ⟨.string addr text, rfl⟩
  | .unary op right => do
    let r ← eval right scope
    operate (op.apply r.value)
  | .binary op left right => do
    let l ← eval left scope
    let r ← eval right scope
    operate (op.apply l.value r.value)
  | .cond condition consequence alternative => do
    let c ← eval condition scope
    evalBranch eval (if c.value.isTruthy then some consequence else alternative) scope
  | .fn params body => do
    let addr ← fresh
    return ⟨.function addr ⟨params, body, scope⟩, rfl⟩
  | .macroFn params body => do
    let addr ← fresh
    return ⟨.macroFn addr ⟨params, body, scope⟩, rfl⟩
  | .call callee args =>
    if callee.name? = some "quote" then quoteArgs eval args scope
    else do
      let f ← eval callee scope
      let vs ← evalArgs eval scope args
      applyValue eval f vs scope
  | .array elements => do
    let vs ← evalArgs eval scope elements
    let addr ← fresh
    return ⟨.array addr (vs.map Proper.value), rfl⟩
  | .index base position => do
    let b ← eval base scope
    let p ← eval position scope
    operate (b.value.at p.value)
  | .hash pairs => do
    let entries ← evalPairs eval scope pairs
    let addr ← fresh
    return ⟨.hash addr (entries.map fun entry => (entry.1, entry.2.value)), rfl⟩

end

/-- An expression in a scope, with at most `budget` evaluations inside one another. -/
def evaluate : (budget : Nat) → Expr → Nat → Raising Proper
  | 0, _, _ => liftM (stuck : Eval Proper)
  | n + 1, e, scope => evalStep (evaluate n) e scope

/-- A program within a budget. -/
def runProgram (budget : Nat) (program : Program) (scope : Nat) : Raising Proper :=
  evalProgram (evaluate budget) program scope

end Raising

end Monkey
