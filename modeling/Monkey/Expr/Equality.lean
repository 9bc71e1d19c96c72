import Monkey.Expr

/-!
# Equality of trees

Trees are compared node by node.  The comparison decides equality (`Expr.same_iff`), which gives
the instances.

## Main definitions

* `Expr.same`, `Stmt.same` — whether two trees are built alike.
-/

namespace Monkey

mutual

/-- Whether two expressions are built alike. -/
def Expr.same : Expr → Expr → Bool
  | .ident a, .ident b => a == b
  | .int a, .int b => a == b
  | .bool a, .bool b => a == b
  | .str a, .str b => a == b
  | .unary o a, .unary p b => o == p && a.same b
  | .binary o a b, .binary p c d => o == p && a.same c && b.same d
  | .cond a t e, .cond b u f => a.same b && sameStmts t u && sameElse e f
  | .fn ps a, .fn qs b => ps == qs && sameStmts a b
  | .macroFn ps a, .macroFn qs b => ps == qs && sameStmts a b
  | .call f as, .call g bs => f.same g && sameExprs as bs
  | .array as, .array bs => sameExprs as bs
  | .index a i, .index b j => a.same b && i.same j
  | .hash ps, .hash qs => samePairs ps qs
  | _, _ => false

/-- Whether two statements are built alike. -/
def Stmt.same : Stmt → Stmt → Bool
  | .letBe x a, .letBe y b => x == y && a.same b
  | .ret a, .ret b => a.same b
  | .expr a, .expr b => a.same b
  | _, _ => false

/-- Whether two lists of statements are built alike. -/
def sameStmts : List Stmt → List Stmt → Bool
  | [], [] => true
  | a :: as, b :: bs => a.same b && sameStmts as bs
  | _, _ => false

/-- Whether two `else` branches are built alike. -/
def sameElse : Option (List Stmt) → Option (List Stmt) → Bool
  | none, none => true
  | some a, some b => sameStmts a b
  | _, _ => false

/-- Whether two lists of expressions are built alike. -/
def sameExprs : List Expr → List Expr → Bool
  | [], [] => true
  | a :: as, b :: bs => a.same b && sameExprs as bs
  | _, _ => false

/-- Whether two lists of key and value expressions are built alike. -/
def samePairs : List (Expr × Expr) → List (Expr × Expr) → Bool
  | [], [] => true
  | (k, v) :: ps, (l, w) :: qs => k.same l && v.same w && samePairs ps qs
  | _, _ => false

end

mutual

/-- The comparison of expressions decides equality. -/
theorem Expr.same_iff : (a b : Expr) → (a.same b = true ↔ a = b)
  -- the first expression decides which comparison is made; the second one has to be of its form
  | .ident _, b | .int _, b | .bool _, b | .str _, b => by cases b <;> simp [Expr.same]
  | .unary _ a, b => by
    have ih := Expr.same_iff a
    cases b <;> simp [Expr.same, ih]
  | .binary _ a c, b => by
    have ih := Expr.same_iff a
    have ih' := Expr.same_iff c
    cases b <;> simp [Expr.same, ih, ih', and_assoc]
  | .cond a t e, b => by
    have ih := Expr.same_iff a
    have ihT := sameStmts_iff t
    have ihE := sameElse_iff e
    cases b <;> simp [Expr.same, ih, ihT, ihE, and_assoc]
  | .fn _ body, b | .macroFn _ body, b => by
    have ih := sameStmts_iff body
    cases b <;> simp [Expr.same, ih]
  | .call f as, b => by
    have ih := Expr.same_iff f
    have ih' := sameExprs_iff as
    cases b <;> simp [Expr.same, ih, ih']
  | .array as, b => by
    have ih := sameExprs_iff as
    cases b <;> simp [Expr.same, ih]
  | .index a i, b => by
    have ih := Expr.same_iff a
    have ih' := Expr.same_iff i
    cases b <;> simp [Expr.same, ih, ih']
  | .hash ps, b => by
    have ih := samePairs_iff ps
    cases b <;> simp [Expr.same, ih]

/-- The comparison of statements decides equality. -/
theorem Stmt.same_iff : (a b : Stmt) → (a.same b = true ↔ a = b)
  | .letBe _ a, b | .ret a, b | .expr a, b => by
    have ih := Expr.same_iff a
    cases b <;> simp [Stmt.same, ih]

theorem sameStmts_iff : (as bs : List Stmt) → (sameStmts as bs = true ↔ as = bs)
  | [], bs => by cases bs <;> simp [sameStmts]
  | a :: as, bs => by
    have ih := Stmt.same_iff a
    have ih' := sameStmts_iff as
    cases bs <;> simp [sameStmts, ih, ih']

theorem sameElse_iff : (a b : Option (List Stmt)) → (sameElse a b = true ↔ a = b)
  | none, b => by cases b <;> simp [sameElse]
  | some a, b => by
    have ih := sameStmts_iff a
    cases b <;> simp [sameElse, ih]

theorem sameExprs_iff : (as bs : List Expr) → (sameExprs as bs = true ↔ as = bs)
  | [], bs => by cases bs <;> simp [sameExprs]
  | a :: as, bs => by
    have ih := Expr.same_iff a
    have ih' := sameExprs_iff as
    cases bs <;> simp [sameExprs, ih, ih']

theorem samePairs_iff : (ps qs : List (Expr × Expr)) → (samePairs ps qs = true ↔ ps = qs)
  | [], qs => by cases qs <;> simp [samePairs]
  | (k, v) :: ps, qs => by
    have ihK := Expr.same_iff k
    have ihV := Expr.same_iff v
    have ih := samePairs_iff ps
    match qs with
    | [] => simp [samePairs]
    | (l, w) :: qs => simp [samePairs, ihK, ihV, ih]

end

instance : DecidableEq Expr := fun a b => decidable_of_iff _ (Expr.same_iff a b)

instance : DecidableEq Stmt := fun a b => decidable_of_iff _ (Stmt.same_iff a b)

end Monkey
