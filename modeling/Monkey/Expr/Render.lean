import Monkey.Expr

/-!
# Canonical source

Every tree can be written as source text.  Operators and index expressions are always put between
parentheses; statements follow one another without anything between them.

## Main definitions

* `Expr.render`, `Stmt.render` — the source of an expression and of a statement.
* `Block.render` — the source of a list of statements.
-/

namespace Monkey

/-- Texts with a comma and a blank between them. -/
def commaSeparated (items : List String) : String := String.intercalate ", " items

/-- Text between braces, with a blank inside each of them. -/
def braced (body : String) : String := "\x7b " ++ body ++ " \x7d"

/-- The parameters and the body that follow the word `fn` or `macro`. -/
def renderLiteral (params : List String) (body : String) : String :=
  "(" ++ commaSeparated params ++ ") " ++ braced body

mutual

/-- The canonical source of an expression. -/
def Expr.render : Expr → String
  | .ident name => name
  | .int value => toString value.toInt
  | .bool true => "true"
  | .bool false => "false"
  | .str text => "\"" ++ text ++ "\""
  | .unary op right => "(" ++ op.text ++ right.render ++ ")"
  | .binary op left right =>
    "(" ++ left.render ++ " " ++ op.text ++ " " ++ right.render ++ ")"
  | .cond condition consequence alternative =>
    "if " ++ condition.render ++ " " ++ braced (String.join (renderStmts consequence)) ++
      renderElse alternative
  | .fn params body => "fn" ++ renderLiteral params (String.join (renderStmts body))
  | .macroFn params body => "macro" ++ renderLiteral params (String.join (renderStmts body))
  | .call callee args => callee.render ++ "(" ++ commaSeparated (renderExprs args) ++ ")"
  | .array elements => "[" ++ commaSeparated (renderExprs elements) ++ "]"
  | .index base position => "(" ++ base.render ++ "[" ++ position.render ++ "])"
  | .hash pairs => "\x7b" ++ commaSeparated (renderPairs pairs) ++ "\x7d"

/-- The canonical source of a statement. -/
def Stmt.render : Stmt → String
  | .letBe name value => "let " ++ name ++ " = " ++ value.render ++ ";"
  | .ret value => "return " ++ value.render ++ ";"
  | .expr value => value.render

/-- The source of each statement. -/
def renderStmts : List Stmt → List String
  | [] => []
  | s :: ss => s.render :: renderStmts ss

/-- The source of an `else` branch, with the blank before it. -/
def renderElse : Option (List Stmt) → String
  | none => ""
  | some body => " else " ++ braced (String.join (renderStmts body))

/-- The source of each expression. -/
def renderExprs : List Expr → List String
  | [] => []
  | e :: es => e.render :: renderExprs es

/-- The source of each pair of a hash literal. -/
def renderPairs : List (Expr × Expr) → List String
  | [] => []
  | (key, value) :: rest => (key.render ++ ": " ++ value.render) :: renderPairs rest

end

theorem renderStmts_eq_map (ss : List Stmt) : renderStmts ss = ss.map Stmt.render := by
  induction ss with
  | nil => rfl
  | cons s ss ih => simp [renderStmts, ih]

theorem renderExprs_eq_map (es : List Expr) : renderExprs es = es.map Expr.render := by
  induction es with
  | nil => rfl
  | cons e es ih => simp [renderExprs, ih]

theorem renderPairs_eq_map (ps : List (Expr × Expr)) :
    renderPairs ps = ps.map fun p => p.1.render ++ ": " ++ p.2.render := by
  induction ps with
  | nil => rfl
  | cons p ps ih => obtain ⟨k, v⟩ := p; simp [renderPairs, ih]

/-- The canonical source of a block or a program: its statements, one after another. -/
def Block.render (body : Block) : String := String.join (renderStmts body)

@[simp] theorem Block.render_nil : Block.render [] = "" := rfl

@[simp] theorem Block.render_cons (s : Stmt) (ss : Block) :
    Block.render (s :: ss) = s.render ++ Block.render ss := by
  simp [Block.render, renderStmts]

theorem Block.render_append (as bs : Block) :
    Block.render (as ++ bs) = Block.render as ++ Block.render bs := by
  induction as with
  | nil => simp
  | cons a as ih => simp [ih, String.append_assoc]

end Monkey
