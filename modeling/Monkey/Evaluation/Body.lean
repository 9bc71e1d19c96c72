import Monkey.Evaluation.Machine

/-!
# Statements and lists of expressions

Sequences run from left to right and stop at the first error or `return`.  The evaluator of
expressions is an argument, here and in the modules that follow; `evaluate` closes the circle.  So
is the machine that everything runs on.

## Main definitions

* `evalStmt`, `evalBody` — a statement, and the statements of a body.
* `evalProgram` — the statements of a program, whose `return` goes no further.
* `evalArgs`, `evalPairs` — the values of expressions, and the entries of a hash.
-/

namespace Monkey

open Machine

universe u

section

variable {m : Type → Type u} [Monad m] [Machine m] (eval : Expr → Nat → m Value)

/-- Evaluates a statement in a scope.  A `let` binds nothing where its value is abrupt. -/
@[specialize] def evalStmt : Stmt → Nat → m Value
  | .letBe name value, scope =>
    andThen (eval value scope) fun v => do
      act (.setName scope name v)
      return v
  | .ret value, scope =>
    andThen (eval value scope) fun v => returning v
  | .expr value, scope => eval value scope

/-- Evaluates statements in order, up to the first abrupt value.  The value of the last statement
is the value of all; `last` is the value so far. -/
@[specialize] def evalBodyFrom (scope : Nat) : Value → List Stmt → m Value
  | last, [] => return last
  | _, s :: rest => andThen (evalStmt eval s scope) fun v => evalBodyFrom scope v rest

/-- Evaluates the statements of a body; without statements the value is `null`. -/
@[specialize] def evalBody (body : Block) (scope : Nat) : m Value :=
  evalBodyFrom eval scope .null body

/-- Evaluates a program; what it returns is its value. -/
@[specialize] def evalProgram (program : Program) (scope : Nat) : m Value := do
  let v ← evalBody eval program scope
  leave v

/-- The values of expressions, or the first abrupt one. -/
@[specialize] def evalArgs (scope : Nat) : List Expr → m (Except Value (List Value))
  | [] => return .ok []
  | e :: rest => do
    let v ← eval e scope
    if v.isAbrupt then return .error v
    else
      match ← evalArgs scope rest with
      | .ok vs => return .ok (v :: vs)
      | .error w => return .error w

/-- The entries that a hash literal adds to given ones, or the first abrupt value.  A key has to
be fit for it before its value is evaluated; of equal keys the last one counts. -/
@[specialize] def evalPairs (scope : Nat) :
    Entries Value → List (Expr × Expr) → m (Except Value (Entries Value))
  | entries, [] => return .ok entries
  | entries, (key, value) :: rest => do
    let k ← eval key scope
    if k.isAbrupt then return .error k
    else
      match k.hashKey? with
      | none =>
        let err ← raise (.unusableAsHashKey k.type)
        return .error err
      | some hashKey =>
        let v ← eval value scope
        if v.isAbrupt then return .error v
        else evalPairs scope (Entries.insert hashKey v entries) rest

end

end Monkey
