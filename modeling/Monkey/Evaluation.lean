import Monkey.Evaluation.Call
import Monkey.Evaluation.Quote
import Monkey.Operators

/-!
# Evaluation

The value of an expression in a scope.  Parts are evaluated from left to right, and the first error
or `return` among them is the value of the whole.

A budget bounds how deeply evaluations of expressions may nest.  One that needs more does not end
here; one that ends is the same under every larger budget.

## Main definitions

* `evalName` — the value of a name.
* `evalStep` — one level of evaluation, the parts being left to an argument.
* `evaluateOn`, `runProgramOn` — evaluation within a budget, on a machine of choice.
* `evaluate`, `runProgram` — evaluation that changes the state.
-/

namespace Monkey

open Machine

universe u

section

variable {m : Type → Type u} [Monad m] [Machine m]

/-- The value of a name: the intrinsics come first, so that they are always in reach, then what the
scopes bind, and then the native functions. -/
@[specialize] def evalName (name : String) (scope : Nat) : m Value :=
  match Intrinsic.ofName? name with
  | some i => return .intrinsic i
  | none => do
    match ← find scope name with
    | some value => return value
    | none =>
      match Builtin.ofName? name with
      | some b => return .builtin b
      | none => raise (.identifierNotFound name)

/-- A branch that may be missing; without it the value is `null`. -/
@[specialize] def evalBranch (eval : Expr → Nat → m Value) (branch : Option Block) (scope : Nat) :
    m Value :=
  match branch with
  | some body => evalBody eval body scope
  | none => return .null

/-- One level of evaluation; `eval` evaluates the parts. -/
@[specialize] def evalStep (eval : Expr → Nat → m Value) (e : Expr) (scope : Nat) : m Value :=
  match e with
  | .ident name => evalName name scope
  | .int value => return .integer value
  | .bool value => return .boolean value
  | .str text => allocate fun addr => .string addr text
  | .unary op right =>
    andThen (eval right scope) fun r => operate [r] (op.apply r)
  | .binary op left right =>
    andThen (eval left scope) fun l =>
      andThen (eval right scope) fun r => operate [l, r] (op.apply l r)
  | .cond condition consequence alternative =>
    andThen (eval condition scope) fun c =>
      evalBranch eval (if c.isTruthy then some consequence else alternative) scope
  | .fn params body => allocate fun addr => .function addr ⟨params, body, scope⟩
  | .macroFn params body => allocate fun addr => .macroFn addr ⟨params, body, scope⟩
  | .call callee args =>
    if callee.name? = some "quote" then quoteArgs eval args scope
    else
      andThen (eval callee scope) fun f => do
        match ← evalArgs eval scope args with
        | .ok vs => applyValue eval f vs scope
        | .error v => return v
  | .array elements => do
    match ← evalArgs eval scope elements with
    | .ok vs => allocate fun addr => .array addr vs
    | .error v => return v
  | .index base position =>
    andThen (eval base scope) fun b =>
      andThen (eval position scope) fun p => operate [b, p] (b.at p)
  | .hash pairs => do
    match ← evalPairs eval scope [] pairs with
    | .ok entries => allocate fun addr => .hash addr entries
    | .error v => return v

end

section

variable (m : Type → Type u) [Monad m] [Machine m]

/-- Evaluates an expression in a scope, on a machine of choice and with at most `budget` evaluations
inside one another. -/
@[specialize] def evaluateOn : (budget : Nat) → Expr → Nat → m Value
  | 0, _, _ => act .stuck
  | n + 1, e, scope => giving (evalStep (evaluateOn n) e scope)

/-- Evaluates a program within a budget, on a machine of choice. -/
@[specialize] def runProgramOn (budget : Nat) (program : Program) (scope : Nat) : m Value :=
  evalProgram (evaluateOn m budget) program scope

end

/-- Evaluates an expression in a scope, with at most `budget` evaluations inside one another. -/
def evaluate : (budget : Nat) → Expr → Nat → Eval Value := evaluateOn Eval

@[simp] theorem evaluate_zero (e : Expr) (scope : Nat) : evaluate 0 e scope = Eval.stuck := rfl

theorem evaluate_succ (n : Nat) (e : Expr) (scope : Nat) :
    evaluate (n + 1) e scope = evalStep (evaluate n) e scope := rfl

/-- Evaluates a program within a budget. -/
def runProgram (budget : Nat) (program : Program) (scope : Nat) : Eval Value :=
  evalProgram (evaluate budget) program scope

end Monkey
