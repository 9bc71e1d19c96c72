import Monkey.Span

/-!
# Tokens

The words of a Monkey source text.  Keywords, operators and punctuation are fixed texts; names,
numerals and string literals carry what they say; anything else is an illegal token, which the
parser reports.

## Main definitions

* `Keyword`, `Symbol` — the fixed texts.
* `TokenKind`, `Token` — a token, without and with its span.
* `TokenClass` — what diagnostics call a token.
-/

namespace Monkey

/-- The reserved words. -/
inductive Keyword
  | kwFn
  | kwLet
  | kwTrue
  | kwFalse
  | kwIf
  | kwElse
  | kwReturn
  | kwMacro
  deriving DecidableEq, Repr, Inhabited

namespace Keyword

/-- Every reserved word. -/
def all : List Keyword :=
  [.kwFn, .kwLet, .kwTrue, .kwFalse, .kwIf, .kwElse, .kwReturn, .kwMacro]

/-- How a reserved word is written. -/
def text : Keyword → String
  | .kwFn => "fn"
  | .kwLet => "let"
  | .kwTrue => "true"
  | .kwFalse => "false"
  | .kwIf => "if"
  | .kwElse => "else"
  | .kwReturn => "return"
  | .kwMacro => "macro"

/-- What diagnostics call a reserved word. -/
def className : Keyword → String
  | .kwFn => "FUNCTION"
  | .kwLet => "LET"
  | .kwTrue => "TRUE"
  | .kwFalse => "FALSE"
  | .kwIf => "IF"
  | .kwElse => "ELSE"
  | .kwReturn => "RETURN"
  | .kwMacro => "MACRO"

/-- The reserved word that a name spells, if it spells one. -/
def ofText? (name : String) : Option Keyword :=
  all.find? fun k => k.text == name

theorem mem_all (k : Keyword) : k ∈ all := by cases k <;> simp [all]

@[simp] theorem ofText?_text (k : Keyword) : ofText? k.text = some k := by
  cases k <;> decide

theorem text_eq_of_ofText? {name : String} {k : Keyword} (h : ofText? name = some k) :
    k.text = name := by
  simpa using List.find?_some h

end Keyword

/-- The operators and the punctuation. -/
inductive Symbol
  | assign
  | plus
  | minus
  | bang
  | asterisk
  | slash
  | lt
  | gt
  | eq
  | notEq
  | comma
  | semicolon
  | colon
  | lparen
  | rparen
  | lbrace
  | rbrace
  | lbracket
  | rbracket
  deriving DecidableEq, Repr, Inhabited

namespace Symbol

/-- How a symbol is written. -/
def text : Symbol → String
  | .assign => "="
  | .plus => "+"
  | .minus => "-"
  | .bang => "!"
  | .asterisk => "*"
  | .slash => "/"
  | .lt => "<"
  | .gt => ">"
  | .eq => "=="
  | .notEq => "!="
  | .comma => ","
  | .semicolon => ";"
  | .colon => ":"
  | .lparen => "("
  | .rparen => ")"
  | .lbrace => "\x7b"
  | .rbrace => "\x7d"
  | .lbracket => "["
  | .rbracket => "]"

/-- The symbol written with one given character. -/
def ofChar? : Char → Option Symbol
  | '=' => some .assign
  | '+' => some .plus
  | '-' => some .minus
  | '!' => some .bang
  | '*' => some .asterisk
  | '/' => some .slash
  | '<' => some .lt
  | '>' => some .gt
  | ',' => some .comma
  | ';' => some .semicolon
  | ':' => some .colon
  | '(' => some .lparen
  | ')' => some .rparen
  | '\x7b' => some .lbrace
  | '\x7d' => some .rbrace
  | '[' => some .lbracket
  | ']' => some .rbracket
  | _ => none

end Symbol

/-- What a token is, with what it says. -/
inductive TokenKind
  /-- A name that is no reserved word. -/
  | ident (name : String)
  /-- A numeral whose value fits in sixty-four signed bits. -/
  | int (value : Int64)
  /-- A numeral that is too large, as written. -/
  | bigInt (digits : String)
  /-- A string literal, without its quotes. -/
  | str (text : String)
  | keyword (word : Keyword)
  | symbol (sign : Symbol)
  /-- Text that is no token of the language. -/
  | illegal (text : String)
  /-- The end of the source. -/
  | eof
  deriving DecidableEq, Repr, Inhabited

/-- What diagnostics distinguish among tokens. -/
inductive TokenClass
  | ident
  | int
  | str
  | keyword (word : Keyword)
  | symbol (sign : Symbol)
  | illegal
  | eof
  deriving DecidableEq, Repr, Inhabited

/-- The name of a class: a symbol is called by itself, all else by a word in capitals. -/
def TokenClass.name : TokenClass → String
  | .ident => "IDENT"
  | .int => "INT"
  | .str => "STRING"
  | .keyword word => word.className
  | .symbol sign => sign.text
  | .illegal => "ILLEGAL"
  | .eof => "EOF"

/-- The class of a token; numerals of every size share one. -/
def TokenKind.toClass : TokenKind → TokenClass
  | .ident _ => .ident
  | .int _ => .int
  | .bigInt _ => .int
  | .str _ => .str
  | .keyword word => .keyword word
  | .symbol sign => .symbol sign
  | .illegal _ => .illegal
  | .eof => .eof

/-- A token at its place in the source. -/
structure Token where
  kind : TokenKind
  span : Span
  deriving DecidableEq, Repr, Inhabited

end Monkey
