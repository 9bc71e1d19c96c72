import Monkey.Parsing.Precedence

/-!
# The sentences of the language

The grammar as a relation between lists of tokens and the trees that they stand for, apart from any
way of reading them.  Binary operators have four levels and group to the left; signs bind more
strongly, and calls and index expressions more strongly still.  Each level contains the stronger
ones, and any expression may be put between parentheses.

A semicolon after a statement may be left out where the next token could not go on with the
statement.

## Main definitions

* `Phrase` — what a list of tokens may stand for.
* `Derives` — the grammar.
* `TokenKind.startsExpr`, `TokenKind.startsStmt` — the tokens that a phrase can start with.

## Main results

* `Derives.expr_head`, `Derives.stmts_head` — expressions and statements start with such tokens.
-/

namespace Monkey

/-- The symbol that a prefix operator is written with. -/
def PrefixOp.symbol : PrefixOp → Symbol
  | .not => .bang
  | .neg => .minus

@[simp] theorem PrefixOp.text_symbol (op : PrefixOp) : op.symbol.text = op.text := by
  cases op <;> rfl

/-- The level of what stands before a suffix, and of the two together. -/
def Suffix.level : Suffix → Precedence
  | .operator op => op.precedence
  | .call | .index => .index

/-- The reserved word that stands for a truth value. -/
def Keyword.ofBool : Bool → Keyword
  | true => .kwTrue
  | false => .kwFalse

/-- What a list of tokens may stand for. -/
inductive Phrase
  /-- An expression whose outermost operator binds at least as strongly as a level. -/
  | expr (level : Precedence) (e : Expr)
  /-- Expressions with commas between them. -/
  | exprs (es : List Expr)
  /-- Expressions with a comma before each of them. -/
  | moreExprs (es : List Expr)
  /-- The pairs of a hash literal. -/
  | pairs (ps : List (Expr × Expr))
  /-- A statement without its semicolon. -/
  | stmt (s : Stmt)
  /-- Statements with their semicolons. -/
  | stmts (ss : List Stmt)

/-- Names with a comma before each of them. -/
def moreNameTokens : List String → List TokenKind
  | [] => []
  | name :: rest => .symbol .comma :: .ident name :: moreNameTokens rest

/-- Names with commas between them. -/
def nameTokens : List String → List TokenKind
  | [] => []
  | name :: rest => .ident name :: moreNameTokens rest

/-- Tokens between parentheses. -/
def parenthesised (ts : List TokenKind) : List TokenKind :=
  .symbol .lparen :: ts ++ [.symbol .rparen]

/-- Tokens between brackets. -/
def bracketed (ts : List TokenKind) : List TokenKind :=
  .symbol .lbracket :: ts ++ [.symbol .rbracket]

/-- Tokens between braces. -/
def bracedTokens (ts : List TokenKind) : List TokenKind :=
  .symbol .lbrace :: ts ++ [.symbol .rbrace]

@[simp] theorem parenthesised_append (ts more : List TokenKind) :
    parenthesised ts ++ more = .symbol .lparen :: (ts ++ .symbol .rparen :: more) := by
  simp [parenthesised]

@[simp] theorem bracketed_append (ts more : List TokenKind) :
    bracketed ts ++ more = .symbol .lbracket :: (ts ++ .symbol .rbracket :: more) := by
  simp [bracketed]

@[simp] theorem bracedTokens_append (ts more : List TokenKind) :
    bracedTokens ts ++ more = .symbol .lbrace :: (ts ++ .symbol .rbrace :: more) := by
  simp [bracedTokens]

@[simp] theorem length_parenthesised (ts : List TokenKind) :
    (parenthesised ts).length = ts.length + 2 := by
  simp [parenthesised]

@[simp] theorem length_bracedTokens (ts : List TokenKind) :
    (bracedTokens ts).length = ts.length + 2 := by
  simp [bracedTokens]

/-- The grammar: the list of tokens is a phrase. -/
inductive Derives : Phrase → List TokenKind → Prop
  | ident (name : String) : Derives (.expr .index (.ident name)) [.ident name]
  | int (value : Int64) : Derives (.expr .index (.int value)) [.int value]
  | str (text : String) : Derives (.expr .index (.str text)) [.str text]
  | bool (b : Bool) : Derives (.expr .index (.bool b)) [.keyword (.ofBool b)]
  | group {e ts} : Derives (.expr .equality e) ts → Derives (.expr .index e) (parenthesised ts)
  | cond {c body ts us} : Derives (.expr .equality c) ts → Derives (.stmts body) us →
      Derives (.expr .index (.cond c body none))
        (.keyword .kwIf :: parenthesised ts ++ bracedTokens us)
  | condElse {c body other ts us vs} : Derives (.expr .equality c) ts →
      Derives (.stmts body) us → Derives (.stmts other) vs →
      Derives (.expr .index (.cond c body (some other)))
        (.keyword .kwIf :: parenthesised ts ++ bracedTokens us ++
          .keyword .kwElse :: bracedTokens vs)
  | fn {params body ts} : Derives (.stmts body) ts →
      Derives (.expr .index (.fn params body))
        (.keyword .kwFn :: parenthesised (nameTokens params) ++ bracedTokens ts)
  | macroFn {params body ts} : Derives (.stmts body) ts →
      Derives (.expr .index (.macroFn params body))
        (.keyword .kwMacro :: parenthesised (nameTokens params) ++ bracedTokens ts)
  | array {es ts} : Derives (.exprs es) ts → Derives (.expr .index (.array es)) (bracketed ts)
  | hash {ps ts} : Derives (.pairs ps) ts → Derives (.expr .index (.hash ps)) (bracedTokens ts)
  | call {callee es ts us} : Derives (.expr .index callee) ts → Derives (.exprs es) us →
      Derives (.expr .index (.call callee es)) (ts ++ parenthesised us)
  | index {base position ts us} : Derives (.expr .index base) ts →
      Derives (.expr .equality position) us →
      Derives (.expr .index (.index base position)) (ts ++ bracketed us)
  | unary {op right ts} : Derives (.expr .sign right) ts →
      Derives (.expr .sign (.unary op right)) (.symbol op.symbol :: ts)
  /-- The left operand may have the level of the operator; the right one has a stronger one. -/
  | binary {op left right level ts us} : Derives (.expr op.precedence left) ts →
      op.precedence < level → Derives (.expr level right) us →
      Derives (.expr op.precedence (.binary op left right)) (ts ++ .symbol op.symbol :: us)
  /-- A level contains the stronger ones. -/
  | weaker {e weak strong ts} : weak < strong → Derives (.expr strong e) ts →
      Derives (.expr weak e) ts
  | noExprs : Derives (.exprs []) []
  | exprs {e es ts us} : Derives (.expr .equality e) ts → Derives (.moreExprs es) us →
      Derives (.exprs (e :: es)) (ts ++ us)
  | noMoreExprs : Derives (.moreExprs []) []
  | moreExprs {e es ts us} : Derives (.expr .equality e) ts → Derives (.moreExprs es) us →
      Derives (.moreExprs (e :: es)) (.symbol .comma :: ts ++ us)
  | noPairs : Derives (.pairs []) []
  | lastPair {key value ts us} : Derives (.expr .equality key) ts →
      Derives (.expr .equality value) us →
      Derives (.pairs [(key, value)]) (ts ++ .symbol .colon :: us)
  /-- A pair with a comma after it, which may be the last one. -/
  | pair {key value ps ts us vs} : Derives (.expr .equality key) ts →
      Derives (.expr .equality value) us → Derives (.pairs ps) vs →
      Derives (.pairs ((key, value) :: ps)) (ts ++ .symbol .colon :: us ++ .symbol .comma :: vs)
  | letBe {name value ts} : Derives (.expr .equality value) ts →
      Derives (.stmt (.letBe name value))
        (.keyword .kwLet :: .ident name :: .symbol .assign :: ts)
  | ret {value ts} : Derives (.expr .equality value) ts →
      Derives (.stmt (.ret value)) (.keyword .kwReturn :: ts)
  | expr {value ts} : Derives (.expr .equality value) ts → Derives (.stmt (.expr value)) ts
  | noStmts : Derives (.stmts []) []
  | closed {s ss ts us} : Derives (.stmt s) ts → Derives (.stmts ss) us →
      Derives (.stmts (s :: ss)) (ts ++ .symbol .semicolon :: us)
  /-- Without its semicolon a statement must not be followed by what could go on with it. -/
  | unclosed {s ss ts us} : Derives (.stmt s) ts → Derives (.stmts ss) us →
      (∀ kind ∈ us.head?, Suffix.ofKind? kind = none) →
      Derives (.stmts (s :: ss)) (ts ++ us)

/-! ### First tokens -/

/-- Whether an expression can start with the token. -/
def TokenKind.startsExpr : TokenKind → Bool
  | .ident _ | .int _ | .str _ => true
  | .keyword .kwTrue | .keyword .kwFalse => true
  | .keyword .kwIf | .keyword .kwFn | .keyword .kwMacro => true
  | .symbol .bang | .symbol .minus => true
  | .symbol .lparen | .symbol .lbracket | .symbol .lbrace => true
  | _ => false

/-- Whether a statement can start with the token. -/
def TokenKind.startsStmt (kind : TokenKind) : Bool :=
  kind.startsExpr || kind = .keyword .kwLet || kind = .keyword .kwReturn

namespace Derives

/-- What the first token of a phrase is like.  Expressions and statements have a first token. -/
def FirstToken : Phrase → List TokenKind → Prop
  | .expr _ _, ts => ∃ kind rest, ts = kind :: rest ∧ kind.startsExpr = true
  | .stmt _, ts => ∃ kind rest, ts = kind :: rest ∧ kind.startsStmt = true
  | .stmts _, ts => ∀ kind ∈ ts.head?, kind.startsStmt = true
  | _, _ => True

theorem startsExpr_ofBool (b : Bool) : (TokenKind.keyword (.ofBool b)).startsExpr = true := by
  cases b <;> rfl

theorem startsExpr_symbol (op : PrefixOp) : (TokenKind.symbol op.symbol).startsExpr = true := by
  cases op <;> rfl

/-- By induction on the derivation: a phrase starts where its first part starts. -/
theorem firstToken {φ : Phrase} {ts : List TokenKind} (h : Derives φ ts) : FirstToken φ ts := by
  induction h with
  | ident | int | str | group | cond | condElse | fn | macroFn | array | hash =>
    exact ⟨_, _, rfl, rfl⟩
  | bool b => exact ⟨_, _, rfl, startsExpr_ofBool b⟩
  | unary => exact ⟨_, _, rfl, startsExpr_symbol _⟩
  -- these begin with another expression
  | call _ _ ih | index _ _ ih | binary _ _ _ ih =>
    obtain ⟨kind, rest, rfl, hstarts⟩ := ih
    exact ⟨kind, _, rfl, hstarts⟩
  | weaker _ _ ih => exact ih
  | noExprs | exprs | noMoreExprs | moreExprs | noPairs | lastPair | pair => trivial
  | letBe | ret => exact ⟨_, _, rfl, rfl⟩
  | expr _ ih =>
    obtain ⟨kind, rest, rfl, hstarts⟩ := ih
    exact ⟨kind, rest, rfl, by simp [TokenKind.startsStmt, hstarts]⟩
  | noStmts =>
    intro kind hkind
    cases hkind
  | closed _ _ ih | unclosed _ _ _ ih =>
    obtain ⟨kind, rest, rfl, hstarts⟩ := ih
    intro other hother
    cases hother
    exact hstarts

/-- An expression has a first token, and it is one that expressions start with. -/
theorem expr_head {level : Precedence} {e : Expr} {ts : List TokenKind}
    (h : Derives (.expr level e) ts) :
    ∃ kind rest, ts = kind :: rest ∧ kind.startsExpr = true :=
  h.firstToken

/-- A statement has a first token, and it is one that statements start with. -/
theorem stmt_head {s : Stmt} {ts : List TokenKind} (h : Derives (.stmt s) ts) :
    ∃ kind rest, ts = kind :: rest ∧ kind.startsStmt = true :=
  h.firstToken

/-- The first of some statements starts with a token that statements start with. -/
theorem stmts_head {ss : List Stmt} {ts : List TokenKind} (h : Derives (.stmts ss) ts) :
    ∀ kind ∈ ts.head?, kind.startsStmt = true :=
  h.firstToken

/-! ### Levels -/

/-- What binds strongly enough for one level does so for every weaker one. -/
theorem loosen {strong weak : Precedence} {e : Expr} {ts : List TokenKind}
    (h : Derives (.expr strong e) ts) (hle : weak.rank ≤ strong.rank) :
    Derives (.expr weak e) ts := by
  rcases Nat.lt_or_eq_of_le hle with hlt | heq
  · exact .weaker hlt h
  · have hsame : weak = strong := by
      cases weak <;> cases strong <;> first | rfl | cases heq
    rw [hsame]
    exact h

/-- What binds as strongly as a call is an expression of the strongest level. -/
theorem index_of_call {e : Expr} {ts : List TokenKind} (h : Derives (.expr .call e) ts) :
    Derives (.expr .index e) ts := by
  generalize hφ : Phrase.expr .call e = φ at h
  cases h with
  | weaker hlt hstrong =>
    cases hφ
    rename_i strong
    cases strong with
    | index => exact hstrong
    | _ => exact absurd hlt (by decide)
  | @binary op =>
    -- no operator has the level of a call
    cases op <;> cases hφ
  | _ => cases hφ

/-- What binds at least as strongly as a call is an expression of the strongest level. -/
theorem tighten {strength : Precedence} {e : Expr} {ts : List TokenKind}
    (h : Derives (.expr strength e) ts) (hle : Precedence.call.rank ≤ strength.rank) :
    Derives (.expr .index e) ts := by
  cases strength with
  | index => exact h
  | call => exact h.index_of_call
  | _ => exact absurd hle (by decide)

/-- An end token is no part of a phrase. -/
theorem eof_notMem {φ : Phrase} {ts : List TokenKind} (h : Derives φ ts) :
    TokenKind.eof ∉ ts := by
  have hnames : ∀ names : List String, TokenKind.eof ∉ moreNameTokens names := by
    intro names
    induction names with
    | nil => simp [moreNameTokens]
    | cons name names ih => simpa [moreNameTokens] using ih
  have hparams : ∀ params : List String, TokenKind.eof ∉ nameTokens params := by
    intro params
    cases params with
    | nil => simp [nameTokens]
    | cons name names => simpa [nameTokens] using hnames names
  induction h with
  | fn _ ih | macroFn _ ih => simp [parenthesised, bracedTokens, hparams, ih]
  | _ => simp_all [parenthesised, bracketed, bracedTokens]

end Derives

end Monkey
