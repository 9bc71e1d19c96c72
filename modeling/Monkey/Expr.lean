/-!
# Program trees

The tree of a Monkey program: expressions, statements, and lists of statements, which are both
whole programs and the bodies between braces.  Integers have sixty-four bits and sign; a hash
literal keeps its pairs in source order.

## Main definitions

* `PrefixOp`, `InfixOp` — the operators and how they are written.
* `Expr`, `Stmt` — expressions and statements.
* `Block`, `Program` — lists of statements.
-/

namespace Monkey

/-- The operators written before one operand. -/
inductive PrefixOp
  | not
  | neg
  deriving DecidableEq, Repr, Inhabited

/-- How a prefix operator is written. -/
def PrefixOp.text : PrefixOp → String
  | .not => "!"
  | .neg => "-"

/-- The operators written between two operands.  None of them leaves an operand unevaluated. -/
inductive InfixOp
  | add
  | sub
  | mul
  | div
  | lt
  | gt
  | eq
  | notEq
  deriving DecidableEq, Repr, Inhabited

namespace InfixOp

/-- How an infix operator is written. -/
def text : InfixOp → String
  | .add => "+"
  | .sub => "-"
  | .mul => "*"
  | .div => "/"
  | .lt => "<"
  | .gt => ">"
  | .eq => "=="
  | .notEq => "!="

/-- Whether the operator compares its operands, so that two integers give a boolean. -/
def isComparison : InfixOp → Bool
  | .lt | .gt | .eq | .notEq => true
  | .add | .sub | .mul | .div => false

end InfixOp

mutual

/-- An expression. -/
inductive Expr where
  | ident (name : String)
  | int (value : Int64)
  | bool (value : Bool)
  /-- A string literal; the language has no escape sequences. -/
  | str (text : String)
  | unary (op : PrefixOp) (right : Expr)
  | binary (op : InfixOp) (left right : Expr)
  /-- A conditional, with or without an `else` branch. -/
  | cond (condition : Expr) (consequence : List Stmt) (alternative : Option (List Stmt))
  /-- A function literal. -/
  | fn (params : List String) (body : List Stmt)
  /-- A macro literal. -/
  | macroFn (params : List String) (body : List Stmt)
  | call (callee : Expr) (args : List Expr)
  | array (elements : List Expr)
  | index (base position : Expr)
  /-- A hash literal, its pairs in source order. -/
  | hash (pairs : List (Expr × Expr))

/-- A statement. -/
inductive Stmt where
  /-- A `let` statement. -/
  | letBe (name : String) (value : Expr)
  /-- A `return` statement. -/
  | ret (value : Expr)
  /-- An expression used as a statement. -/
  | expr (value : Expr)

end

instance : Inhabited Expr := ⟨.array []⟩

instance : Inhabited Stmt := ⟨.expr default⟩

/-- The statements between two braces. -/
abbrev Block := List Stmt

/-- The statements of a whole source text. -/
abbrev Program := List Stmt

namespace Expr

/-- The name, if the expression is just a name. -/
def name? : Expr → Option String
  | .ident name => some name
  | _ => none

@[simp] theorem name?_ident (name : String) : (ident name).name? = some name := rfl

theorem name?_eq_some_iff {e : Expr} {name : String} : e.name? = some name ↔ e = ident name := by
  cases e <;> simp [name?]

end Expr

end Monkey
