import Monkey.Evaluation.Machine
import Monkey.Expr.Rewrite

/-!
# Quoting

`quote` makes syntax a value.  Inside of it, a call of `unquote` with one argument stands for the
literal of the value of that argument, where the value has one.  The calls are evaluated in the
order in which rewriting meets them; after the first error nothing is evaluated any more, and that
error is the value of the quote.

## Main definitions

* `Expr.unquoted?` — the argument of a call of `unquote`.
* `unquoteVisit` — what rewriting does with each expression.
* `quoteArgs` — the value of a call of `quote`.
-/

namespace Monkey

/-- The argument, if the expression is a call of the name `unquote` with one argument. -/
def Expr.unquoted? : Expr → Option Expr
  | .call callee [argument] => if callee.name? = some "unquote" then some argument else none
  | _ => none

section

open Machine

universe u

variable {m : Type → Type u} [Monad m] [Machine m] (eval : Expr → Nat → m Value)

/-- Replaces a call of `unquote` by the literal of its value.  The state holds the first error;
after it every expression stays as it is. -/
@[specialize] def unquoteVisit (scope : Nat) (e : Expr) : StateT (Option Value) m Expr := do
  match ← get with
  | some _ => return e
  | none =>
    match e.unquoted? with
    | none => return e
    | some argument =>
      let v ← eval argument scope
      let value := v.unwrapReturn
      if value.isError then
        set (some value)
        return e
      else return value.toExpr?.getD e

/-- The value of a call of `quote`, which looks at its first argument only. -/
@[specialize] def quoteArgs (args : List Expr) (scope : Nat) : m Value :=
  match args with
  | [] => raise (.wrongArgumentCount 0 1)
  | e :: _ => do
    let (node, failure) ← (e.rewriteM (unquoteVisit eval scope)).run none
    match failure with
    | some err => return err
    | none => allocate fun addr => .quote addr node

end

end Monkey
