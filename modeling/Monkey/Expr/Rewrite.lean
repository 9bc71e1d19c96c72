import Monkey.Expr

/-!
# Rewriting trees from the leaves up

A rewriter is a function from expressions to expressions, with effects.  It is offered every
expression of a tree once, after the parts of that expression, from left to right; what it answers
takes the place of the expression and is not looked into again.  Statements are walked through but
not offered.

## Main definitions

* `Expr.rewriteM`, `Stmt.rewriteM` — rewriting an expression and a statement.
* `Block.rewriteM` — rewriting a list of statements.
-/

namespace Monkey

universe u

section

variable {m : Type → Type u} [Monad m] (f : Expr → m Expr)

mutual

/-- Rewrites the parts of an expression in order, and then offers the rebuilt expression. -/
def Expr.rewriteM : Expr → m Expr
  | .ident name => f (.ident name)
  | .int value => f (.int value)
  | .bool value => f (.bool value)
  | .str text => f (.str text)
  | .unary op right => do
    let right ← right.rewriteM
    f (.unary op right)
  | .binary op left right => do
    let left ← left.rewriteM
    let right ← right.rewriteM
    f (.binary op left right)
  | .cond condition consequence alternative => do
    let condition ← condition.rewriteM
    let consequence ← rewriteStmtsM consequence
    let alternative ← rewriteElseM alternative
    f (.cond condition consequence alternative)
  | .fn params body => do
    let body ← rewriteStmtsM body
    f (.fn params body)
  | .macroFn params body => do
    let body ← rewriteStmtsM body
    f (.macroFn params body)
  | .call callee args => do
    let callee ← callee.rewriteM
    let args ← rewriteExprsM args
    f (.call callee args)
  | .array elements => do
    let elements ← rewriteExprsM elements
    f (.array elements)
  | .index base position => do
    let base ← base.rewriteM
    let position ← position.rewriteM
    f (.index base position)
  | .hash pairs => do
    let pairs ← rewritePairsM pairs
    f (.hash pairs)

/-- Rewrites the expression in a statement. -/
def Stmt.rewriteM : Stmt → m Stmt
  | .letBe name value => do
    let value ← value.rewriteM
    return .letBe name value
  | .ret value => do
    let value ← value.rewriteM
    return .ret value
  | .expr value => do
    let value ← value.rewriteM
    return .expr value

/-- Rewrites statements in order. -/
def rewriteStmtsM : List Stmt → m (List Stmt)
  | [] => return []
  | s :: rest => do
    let s ← s.rewriteM
    let rest ← rewriteStmtsM rest
    return s :: rest

/-- Rewrites an `else` branch, if there is one. -/
def rewriteElseM : Option (List Stmt) → m (Option (List Stmt))
  | none => return none
  | some body => do
    let body ← rewriteStmtsM body
    return some body

/-- Rewrites expressions in order. -/
def rewriteExprsM : List Expr → m (List Expr)
  | [] => return []
  | e :: rest => do
    let e ← e.rewriteM
    let rest ← rewriteExprsM rest
    return e :: rest

/-- Rewrites each key and then its value, in order. -/
def rewritePairsM : List (Expr × Expr) → m (List (Expr × Expr))
  | [] => return []
  | (key, value) :: rest => do
    let key ← key.rewriteM
    let value ← value.rewriteM
    let rest ← rewritePairsM rest
    return (key, value) :: rest

end

/-- Rewrites every expression of a list of statements. -/
def Block.rewriteM (body : Block) : m Block := rewriteStmtsM f body

end

end Monkey
