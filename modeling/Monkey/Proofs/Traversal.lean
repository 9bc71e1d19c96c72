import Monkey.Expr.Parts
import Monkey.Expr.Rewrite

/-!
# Rewriting, part by part

Rewriting has a rule for every form of expression and statement.  They all come to one: go through
the parts of an expression from left to right, put the expression together again with what the parts
have become, and visit it.  So what holds of a whole run of the rewriter need only be shown of that
one step.

## Main definitions

* `Expr.walkM`, `Block.walkM` — the walk that has this one rule.

## Main results

* `Expr.rewriteM_eq_walkM`, `Block.rewriteM_eq_walkM` — **rewriting is that walk.**
-/

namespace Monkey

section

variable {m : Type → Type} [Monad m] (visit : Expr → m Expr)

/-- Walks through the parts of an expression, from left to right, and then visits the expression
with what they have become. -/
def Expr.walkM (e : Expr) : m Expr := do
  let parts ← e.parts.attach.mapM fun p => p.1.walkM
  visit (e.withParts parts)
termination_by sizeOf e
decreasing_by exact Expr.sizeOf_lt_of_mem_parts p.2

/-- Walks through the expressions of statements, in order. -/
def Block.walkM (body : Block) : m Block := do
  let values ← (body.map Stmt.value).mapM (Expr.walkM visit)
  return Block.withValues body values

/-- A statement is rewritten by rewriting its expression. -/
theorem Stmt.rewriteM_eq (s : Stmt) :
    s.rewriteM visit = s.value.rewriteM visit >>= fun value => pure (s.withValue value) := by
  cases s <;> simp only [Stmt.rewriteM, Stmt.value, Stmt.withValue]

end

/-! ### Rewriting is a walk -/

section

variable {m : Type → Type} [Monad m] [LawfulMonad m] (visit : Expr → m Expr)

/-- Only lists of the right length come out of going through a list. -/
theorem mapM_bind_congr {α β γ : Type} (f : α → m β) {k l : List β → m γ} (as : List α)
    (h : ∀ bs, bs.length = as.length → k bs = l bs) : as.mapM f >>= k = as.mapM f >>= l := by
  induction as generalizing k l with
  | nil => simpa only [List.mapM_nil, pure_bind] using h [] rfl
  | cons a as ih =>
    simp only [List.mapM_cons, bind_assoc, pure_bind]
    refine bind_congr fun b => ih fun bs hbs => h (b :: bs) ?_
    rw [List.length_cons, List.length_cons, hbs]

/-- The one rule of the walk. -/
theorem Expr.walkM_eq (e : Expr) :
    e.walkM visit = e.parts.mapM (Expr.walkM visit) >>= fun ps => visit (e.withParts ps) := by
  rw [Expr.walkM, List.mapM_subtype (g := Expr.walkM visit) fun _ _ => rfl, List.unattach_attach]

theorem mapM_eq_pure {α : Type} {f : α → m α} {as : List α} (h : ∀ a ∈ as, f a = pure a) :
    as.mapM f = pure as := by
  induction as with
  | nil => rw [List.mapM_nil]
  | cons a as ih =>
    obtain ⟨ha, has⟩ := List.forall_mem_cons.1 h
    rw [List.mapM_cons, ha, pure_bind, ih has, pure_bind]

mutual

/-- **Rewriting is a walk** through the parts, from left to right and from the leaves up. -/
theorem Expr.rewriteM_eq_walkM : (e : Expr) → e.rewriteM visit = e.walkM visit
  | .ident _ | .int _ | .bool _ | .str _ => by
    rw [Expr.walkM_eq]
    simp only [Expr.rewriteM, Expr.parts, List.mapM_nil, pure_bind, Expr.withParts]
  | .unary _ right => by
    rw [Expr.walkM_eq]
    simp only [Expr.rewriteM, Expr.parts, List.mapM_cons, List.mapM_nil, pure_bind, bind_assoc,
      Expr.withParts, Expr.rewriteM_eq_walkM right]
  | .binary _ left right => by
    rw [Expr.walkM_eq]
    simp only [Expr.rewriteM, Expr.parts, List.mapM_cons, List.mapM_nil, pure_bind, bind_assoc,
      Expr.withParts, Expr.rewriteM_eq_walkM left, Expr.rewriteM_eq_walkM right]
  | .cond condition consequence alternative => by
    rw [Expr.walkM_eq]
    simp only [Expr.rewriteM, Expr.parts, List.mapM_cons, pure_bind, bind_assoc, Expr.withParts,
      Expr.rewriteM_eq_walkM condition, rewriteStmtsM_eq consequence, rewriteElseM_eq alternative,
      List.map_append, List.mapM_append]
    -- the parts of the two branches come in one list, which is cut where the consequence ends
    refine bind_congr fun c => mapM_bind_congr _ _ fun vs hvs => bind_congr fun ws => ?_
    rw [List.length_map] at hvs
    rw [Block.withValues_append hvs, List.drop_left' hvs]
  | .fn _ body | .macroFn _ body => by
    rw [Expr.walkM_eq]
    simp only [Expr.rewriteM, Expr.parts, Expr.withParts, rewriteStmtsM_eq body, bind_assoc,
      pure_bind]
  | .call callee args => by
    rw [Expr.walkM_eq]
    simp only [Expr.rewriteM, Expr.parts, List.mapM_cons, pure_bind, bind_assoc, Expr.withParts,
      Expr.rewriteM_eq_walkM callee, rewriteExprsM_eq args]
  | .array elements => by
    rw [Expr.walkM_eq]
    simp only [Expr.rewriteM, Expr.parts, Expr.withParts, rewriteExprsM_eq elements]
  | .index base position => by
    rw [Expr.walkM_eq]
    simp only [Expr.rewriteM, Expr.parts, List.mapM_cons, List.mapM_nil, pure_bind, bind_assoc,
      Expr.withParts, Expr.rewriteM_eq_walkM base, Expr.rewriteM_eq_walkM position]
  | .hash pairs => by
    rw [Expr.walkM_eq]
    simp only [Expr.rewriteM, Expr.parts, Expr.withParts, rewritePairsM_eq pairs, bind_assoc,
      pure_bind]

theorem rewriteStmtsM_eq : (ss : List Stmt) →
    rewriteStmtsM visit ss = (ss.map Stmt.value).mapM (Expr.walkM visit) >>= fun values =>
      pure (Block.withValues ss values)
  | [] => by
    simp only [rewriteStmtsM, List.map_nil, List.mapM_nil, pure_bind]
    rfl
  | .letBe _ value :: rest | .ret value :: rest | .expr value :: rest => by
    simp only [rewriteStmtsM, Stmt.rewriteM_eq, Stmt.value, Expr.rewriteM_eq_walkM value,
      rewriteStmtsM_eq rest, List.map_cons, List.mapM_cons, bind_assoc, pure_bind]
    rfl

theorem rewriteElseM_eq : (branch : Option (List Stmt)) →
    rewriteElseM visit branch =
      ((branch.getD []).map Stmt.value).mapM (Expr.walkM visit) >>= fun values =>
        pure (branch.map fun body => Block.withValues body values)
  | none => by
    simp only [rewriteElseM, Option.getD_none, List.map_nil, List.mapM_nil, pure_bind]
    rfl
  | some body => by
    simp only [rewriteElseM, rewriteStmtsM_eq body, Option.getD_some, bind_assoc, pure_bind]
    rfl

theorem rewriteExprsM_eq : (es : List Expr) →
    rewriteExprsM visit es = es.mapM (Expr.walkM visit)
  | [] => by simp only [rewriteExprsM, List.mapM_nil]
  | e :: rest => by
    simp only [rewriteExprsM, Expr.rewriteM_eq_walkM e, rewriteExprsM_eq rest, List.mapM_cons]

theorem rewritePairsM_eq : (ps : List (Expr × Expr)) →
    rewritePairsM visit ps =
      (ps.flatMap fun pair => [pair.1, pair.2]).mapM (Expr.walkM visit) >>= fun es =>
        pure (pairUp es)
  | [] => by
    simp only [rewritePairsM, List.flatMap_nil, List.mapM_nil, pure_bind]
    rfl
  | (key, value) :: rest => by
    simp only [rewritePairsM, Expr.rewriteM_eq_walkM key, Expr.rewriteM_eq_walkM value,
      rewritePairsM_eq rest, List.flatMap_cons, List.cons_append, List.nil_append, List.mapM_cons,
      bind_assoc, pure_bind, pairUp]

end

/-- **Rewriting statements is a walk** through their expressions. -/
theorem Block.rewriteM_eq_walkM (body : Block) : body.rewriteM visit = body.walkM visit :=
  rewriteStmtsM_eq visit body

end

end Monkey
