import Monkey.Expr.Rewrite

/-!
# What rewriting preserves

Rewriting only ever runs the rewriter, passes results on and answers.  So a relation between two
sorts of effects that passing on and answering respect, and that two rewriters respect on every
expression, is respected by rewriting with the one and with the other.  A property of one sort of
effects is the case in which both are the same.

## Main results

* `Expr.rewriteM_related` — **rewriting respects every relation that its rewriter respects.**
-/

namespace Monkey

universe u v

/-- A relation between two sorts of effects that answering and passing on respect. -/
structure EffectRelation (m : Type → Type u) (n : Type → Type v) [Monad m] [Monad n] where
  /-- When an effect of one sort stands for an effect of the other. -/
  Related : ∀ {α : Type}, m α → n α → Prop
  pure : ∀ {α : Type} (a : α), Related (pure a) (pure a)
  bind : ∀ {α β : Type} {x : m α} {y : n α} {k : α → m β} {l : α → n β},
    Related x y → (∀ a, Related (k a) (l a)) → Related (x >>= k) (y >>= l)

section

variable {m : Type → Type u} {n : Type → Type v} [Monad m] [Monad n] (R : EffectRelation m n)
  {f : Expr → m Expr} {g : Expr → n Expr}

mutual

/-- **Rewriting respects every relation that its rewriter respects.** -/
theorem Expr.rewriteM_related (h : ∀ e, R.Related (f e) (g e)) :
    (e : Expr) → R.Related (e.rewriteM f) (e.rewriteM g)
  -- first the parts, in their order, and then the expression that is made of them
  | .ident _ | .int _ | .bool _ | .str _ => by
    simp only [Expr.rewriteM]
    exact h _
  | .unary _ right => by
    simp only [Expr.rewriteM]
    exact R.bind (Expr.rewriteM_related h right) fun _ => h _
  | .binary _ left right => by
    simp only [Expr.rewriteM]
    refine R.bind (Expr.rewriteM_related h left) fun _ => ?_
    exact R.bind (Expr.rewriteM_related h right) fun _ => h _
  | .cond condition consequence alternative => by
    simp only [Expr.rewriteM]
    refine R.bind (Expr.rewriteM_related h condition) fun _ => ?_
    refine R.bind (rewriteStmtsM_related h consequence) fun _ => ?_
    exact R.bind (rewriteElseM_related h alternative) fun _ => h _
  | .fn _ body | .macroFn _ body => by
    simp only [Expr.rewriteM]
    exact R.bind (rewriteStmtsM_related h body) fun _ => h _
  | .call callee args => by
    simp only [Expr.rewriteM]
    refine R.bind (Expr.rewriteM_related h callee) fun _ => ?_
    exact R.bind (rewriteExprsM_related h args) fun _ => h _
  | .array elements => by
    simp only [Expr.rewriteM]
    exact R.bind (rewriteExprsM_related h elements) fun _ => h _
  | .index base position => by
    simp only [Expr.rewriteM]
    refine R.bind (Expr.rewriteM_related h base) fun _ => ?_
    exact R.bind (Expr.rewriteM_related h position) fun _ => h _
  | .hash pairs => by
    simp only [Expr.rewriteM]
    exact R.bind (rewritePairsM_related h pairs) fun _ => h _

theorem Stmt.rewriteM_related (h : ∀ e, R.Related (f e) (g e)) :
    (s : Stmt) → R.Related (s.rewriteM f) (s.rewriteM g)
  | .letBe _ value | .ret value | .expr value => by
    simp only [Stmt.rewriteM]
    exact R.bind (Expr.rewriteM_related h value) fun _ => R.pure _

theorem rewriteStmtsM_related (h : ∀ e, R.Related (f e) (g e)) :
    (ss : List Stmt) → R.Related (rewriteStmtsM f ss) (rewriteStmtsM g ss)
  | [] => by
    simp only [rewriteStmtsM]
    exact R.pure _
  | s :: rest => by
    simp only [rewriteStmtsM]
    refine R.bind (Stmt.rewriteM_related h s) fun _ => ?_
    exact R.bind (rewriteStmtsM_related h rest) fun _ => R.pure _

theorem rewriteElseM_related (h : ∀ e, R.Related (f e) (g e)) :
    (branch : Option (List Stmt)) → R.Related (rewriteElseM f branch) (rewriteElseM g branch)
  | none => by
    simp only [rewriteElseM]
    exact R.pure _
  | some body => by
    simp only [rewriteElseM]
    exact R.bind (rewriteStmtsM_related h body) fun _ => R.pure _

theorem rewriteExprsM_related (h : ∀ e, R.Related (f e) (g e)) :
    (es : List Expr) → R.Related (rewriteExprsM f es) (rewriteExprsM g es)
  | [] => by
    simp only [rewriteExprsM]
    exact R.pure _
  | e :: rest => by
    simp only [rewriteExprsM]
    refine R.bind (Expr.rewriteM_related h e) fun _ => ?_
    exact R.bind (rewriteExprsM_related h rest) fun _ => R.pure _

theorem rewritePairsM_related (h : ∀ e, R.Related (f e) (g e)) :
    (ps : List (Expr × Expr)) → R.Related (rewritePairsM f ps) (rewritePairsM g ps)
  | [] => by
    simp only [rewritePairsM]
    exact R.pure _
  | (key, value) :: rest => by
    simp only [rewritePairsM]
    refine R.bind (Expr.rewriteM_related h key) fun _ => ?_
    refine R.bind (Expr.rewriteM_related h value) fun _ => ?_
    exact R.bind (rewritePairsM_related h rest) fun _ => R.pure _

end

end

end Monkey
