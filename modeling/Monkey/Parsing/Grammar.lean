import Monkey.Parsing.Parser
import Monkey.Parsing.Precedence

/-!
# The grammar

The productions of the language.  A production that contains expressions takes the parser of
expressions as an argument, so that all recursion is in `expression`.  A production starts at its
first token and stops at its last one.

A budget bounds the nesting of expressions and the length of every repetition; the number of
tokens is always enough.

## Main definitions

* `expression` — an operand and the suffixes that bind more strongly than a given level.
* `statement` — one statement, with an optional semicolon.
* `statementsToEnd` — the statements up to the end token; one that fails is dropped.
-/

namespace Monkey

namespace Parser

/-- More names, each after a comma. -/
def moreNames : Nat → Parser (List String)
  | 0 => exhausted
  | n + 1 => do
    if ← nextIs .comma then
      advance
      let name ← expectName
      let rest ← moreNames n
      return name :: rest
    else return []

/-- The parameters of a literal, with the parentheses around them. -/
def paramList (budget : Nat) : Parser (List String) := do
  expect .lparen
  if ← nextIs .rparen then
    advance
    return []
  else
    let first ← expectName
    let rest ← moreNames budget
    expect .rparen
    return first :: rest

section

variable (expr : Precedence → Parser Expr)

/-- More expressions, each after a comma. -/
def moreExprs : Nat → Parser (List Expr)
  | 0 => exhausted
  | n + 1 => do
    if ← nextIs .comma then
      advance
      advance
      let e ← expr .lowest
      let rest ← moreExprs n
      return e :: rest
    else return []

/-- Expressions with commas between them, from the opening symbol to the closing one. -/
def exprList (closer : Symbol) (budget : Nat) : Parser (List Expr) := do
  if ← nextIs closer then
    advance
    return []
  else
    advance
    let first ← expr .lowest
    let rest ← moreExprs expr budget
    expect closer
    return first :: rest

/-- A `let` statement without its semicolon. -/
def letStatement : Parser Stmt := do
  let name ← expectName
  expect .assign
  advance
  let value ← expr .lowest
  return .letBe name value

/-- A `return` statement without its semicolon. -/
def returnStatement : Parser Stmt := do
  advance
  let value ← expr .lowest
  return .ret value

/-- An expression used as a statement. -/
def exprStatement : Parser Stmt := do
  let value ← expr .lowest
  return .expr value

/-- A statement with an optional semicolon after it. -/
def statement : Parser Stmt := do
  let token ← current
  let s ← match token.kind with
    | .keyword .kwLet => letStatement expr
    | .keyword .kwReturn => returnStatement expr
    | _ => exprStatement expr
  skip .semicolon
  return s

/-- The statements of a block from the current token to the closing brace.  A statement that
fails is dropped, and reading goes on one token later. -/
def blockStatements : Nat → Parser Block
  | 0 => exhausted
  | n + 1 => do
    let token ← current
    if token.kind = .symbol .rbrace then return []
    else if token.kind = .eof then
      reject (.unexpectedToken (.symbol .rbrace) .eof token.span)
    else
      let s ← attempt (statement expr)
      advance
      let rest ← blockStatements n
      return s.toList ++ rest

/-- The statements of a block, from the opening brace, which comes next, to the closing one. -/
def block (budget : Nat) : Parser Block := do
  expect .lbrace
  advance
  blockStatements expr budget

/-- The parameters and the body of a literal. -/
def literalParts (budget : Nat) : Parser (List String × Block) := do
  let params ← paramList budget
  let body ← block expr budget
  return (params, body)

/-- The branch after `else`, if `else` comes next. -/
def elseBranch (budget : Nat) : Parser (Option Block) := do
  let token ← next
  if token.kind = .keyword .kwElse then
    advance
    let body ← block expr budget
    return some body
  else return none

/-- A conditional from its `if`. -/
def conditional (budget : Nat) : Parser Expr := do
  expect .lparen
  advance
  let condition ← expr .lowest
  expect .rparen
  let consequence ← block expr budget
  let alternative ← elseBranch expr budget
  return .cond condition consequence alternative

/-- An expression between parentheses. -/
def grouped : Parser Expr := do
  advance
  let e ← expr .lowest
  expect .rparen
  return e

/-- The pairs of a hash literal up to its closing brace; a comma may stand before that brace. -/
def hashPairs : Nat → Parser (List (Expr × Expr))
  | 0 => exhausted
  | n + 1 => do
    if ← nextIs .rbrace then
      advance
      return []
    else
      advance
      let key ← expr .lowest
      expect .colon
      advance
      let value ← expr .lowest
      unless ← nextIs .rbrace do expect .comma
      let rest ← hashPairs n
      return (key, value) :: rest

/-- A sign and the operand that it binds. -/
def signed (op : PrefixOp) : Parser Expr := do
  advance
  let right ← expr .sign
  return .unary op right

/-- An operand: an expression that ends before any suffix. -/
def operand (budget : Nat) : Parser Expr := do
  let token ← current
  match token.kind with
  | .ident name => return .ident name
  | .int value => return .int value
  | .bigInt digits => reject (.integerTooLarge digits token.span)
  | .str text => return .str text
  | .keyword .kwTrue => return .bool true
  | .keyword .kwFalse => return .bool false
  | .keyword .kwIf => conditional expr budget
  | .keyword .kwFn => do
    let (params, body) ← literalParts expr budget
    return .fn params body
  | .keyword .kwMacro => do
    let (params, body) ← literalParts expr budget
    return .macroFn params body
  | .symbol .bang => signed expr .not
  | .symbol .minus => signed expr .neg
  | .symbol .lparen => grouped expr
  | .symbol .lbracket => do
    let elements ← exprList expr .rbracket budget
    return .array elements
  | .symbol .lbrace => do
    let pairs ← hashPairs expr budget
    return .hash pairs
  | kind => reject (.noPrefixRule kind.toClass token.span)

/-- One suffix of an operand, from its first token. -/
def suffix (budget : Nat) (left : Expr) : Suffix → Parser Expr
  | .operator op => do
    advance
    let right ← expr op.precedence
    return .binary op left right
  | .call => do
    let args ← exprList expr .rparen budget
    return .call left args
  | .index => do
    advance
    let position ← expr .lowest
    expect .rbracket
    return .index left position

/-- The suffixes of an operand that bind more strongly than a level. -/
def suffixes (level : Precedence) (budget : Nat) : Nat → Expr → Parser Expr
  | 0, _ => exhausted
  | n + 1, left => do
    let token ← next
    match Suffix.ofKind? token.kind with
    | none => return left
    | some s =>
      if level < s.precedence then
        advance
        let left ← suffix expr budget left s
        suffixes level budget n left
      else return left

end

/-- An expression whose operators bind more strongly than a level. -/
def expression : Nat → Precedence → Parser Expr
  | 0, _ => exhausted
  | n + 1, level => do
    let left ← operand (expression n) (n + 1)
    suffixes (expression n) level (n + 1) (n + 1) left

/-- The statements up to the end token.  A statement that fails is dropped, and reading goes on
one token later. -/
def statementsToEnd (expr : Precedence → Parser Expr) : Nat → Parser Program
  | 0 => exhausted
  | n + 1 => do
    let token ← current
    if token.kind = .eof then return []
    else
      let s ← attempt (statement expr)
      advance
      let rest ← statementsToEnd expr n
      return s.toList ++ rest

/-- The program that a list of tokens holds. -/
def program (budget : Nat) : Parser Program := statementsToEnd (expression budget) budget

end Parser

end Monkey
