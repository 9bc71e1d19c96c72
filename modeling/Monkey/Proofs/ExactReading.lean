import Mathlib.Data.List.Basic
import Monkey.Proofs.Accounting
import Monkey.Proofs.DroppedStatements

/-!
# Reading is exact

The parser reads a list of tokens without errors exactly if the list is a sentence, and gives the
program that the sentence stands for.  In particular a sentence stands for one program only, and a
statement that is dropped, be it at top level or inside of blocks, leaves an error behind.

## Main definitions

* `IsSentence` — the tokens are a sentence that stands for a program.
* `Enclosed`, `Expr.level` — an expression between parentheses, and how strongly one without them
  binds.

## Main results

* `parseTokens_of_isSentence` — **every sentence is read as its program.**
* `derives_of_parseTokens` — **what is read without errors is a sentence**, and no statement is
  dropped without an error.
-/

namespace Monkey

/-- The tokens are a sentence that stands for the program, with an end token after it. -/
def IsSentence (program : Program) (tokens : List Token) : Prop :=
  ∃ ts, tokens.map Token.kind = ts ++ [.eof] ∧ Derives (.stmts program) ts

/-- **The parser accepts every sentence and gives the program that it stands for**, which is the
only one that it stands for. -/
theorem parseTokens_of_isSentence {program : Program} {tokens : List Token}
    (h : IsSentence program tokens) :
    parseTokens tokens = ⟨program, []⟩ ∧ ∀ other, IsSentence other tokens → other = program := by
  obtain ⟨ts, hkinds, hderives⟩ := h
  have hread := parseTokens_of_kinds hkinds hderives
  refine ⟨hread, ?_⟩
  rintro other ⟨us, hother, hothers⟩
  -- what the parser gives does not depend on the derivation
  have hsame := parseTokens_of_kinds hother hothers
  rw [hread] at hsame
  exact (Parsed.mk.inj hsame).1.symm

/-- The expression `a - (b) - -c(1)`, whose parentheses around `b` are redundant. -/
def groupedDifference : Expr :=
  .binary .sub (.binary .sub (.ident "a") (.ident "b"))
    (.unary .neg (.call (.ident "c") [.int 1]))

/-- The tokens of that expression. -/
def groupedDifferenceTokens : List TokenKind :=
  ([.ident "a"] ++ .symbol .minus :: parenthesised [.ident "b"]) ++ .symbol .minus ::
    (.symbol .minus :: ([.ident "c"] ++ parenthesised ([.int 1] ++ [])))

/-- Those tokens with a semicolon and an end token after them. -/
def groupedDifferenceSource : List Token :=
  (groupedDifferenceTokens ++ [TokenKind.symbol .semicolon, .eof]).map fun kind => ⟨kind, default⟩

/-- A difference of three is read from left to right. -/
theorem parseTokens_of_isSentence_difference :
    IsSentence [.expr groupedDifference] groupedDifferenceSource ∧
      parseTokens groupedDifferenceSource = ⟨[.expr groupedDifference], []⟩ := by
  have hleft : Derives (.expr .sum (.ident "a")) [.ident "a"] :=
    .loosen (.ident "a") (by decide)
  have hgroup : Derives (.expr .index (.ident "b")) (parenthesised [.ident "b"]) :=
    .group (.loosen (.ident "b") (by decide))
  have hcall : Derives (.expr .index (.call (.ident "c") [.int 1]))
      ([.ident "c"] ++ parenthesised ([.int 1] ++ [])) :=
    .call (.ident "c") (.exprs (.loosen (.int 1) (by decide)) .noMoreExprs)
  have hright : Derives (.expr .sign (.unary .neg (.call (.ident "c") [.int 1])))
      (.symbol .minus :: ([.ident "c"] ++ parenthesised ([.int 1] ++ []))) :=
    @Derives.unary .neg _ _ (hcall.loosen (by decide))
  -- the first minus sign groups before the second one
  have hfirst := @Derives.binary .sub _ _ _ _ _ hleft (by decide) hgroup
  have hwhole : Derives (.expr .sum groupedDifference) groupedDifferenceTokens :=
    @Derives.binary .sub _ _ _ _ _ hfirst (by decide) hright
  have hsentence : IsSentence [.expr groupedDifference] groupedDifferenceSource := by
    refine ⟨groupedDifferenceTokens ++ [.symbol .semicolon], rfl, ?_⟩
    exact .closed (.expr (hwhole.loosen (by decide))) .noStmts
  exact ⟨hsentence, (parseTokens_of_isSentence hsentence).1⟩

/-! ### How operands bind -/

/-- The tokens are those of the expression between parentheses. -/
def Enclosed (e : Expr) (ts : List TokenKind) : Prop :=
  ∃ us, ts = parenthesised us ∧ Derives (.expr .equality e) us

/-- How strongly an expression without parentheses around it binds. -/
def Expr.level : Expr → Precedence
  | .binary op _ _ => op.precedence
  | .unary _ _ => .sign
  | _ => .index

namespace Derives

/-- An expression that is not between parentheses binds at least as strongly as its place asks. -/
theorem enclosed_or_level {level : Precedence} {e : Expr} {ts : List TokenKind}
    (h : Derives (.expr level e) ts) : Enclosed e ts ∨ level.rank ≤ e.level.rank := by
  generalize hφ : Phrase.expr level e = φ at h
  induction h generalizing level with
  | group h =>
    cases hφ
    exact .inl ⟨_, rfl, h⟩
  -- a weaker level asks for less
  | weaker hlt h ih =>
    cases hφ
    refine (ih rfl).imp id fun hle => ?_
    exact Nat.le_trans (Nat.le_of_lt hlt) hle
  | binary | unary =>
    cases hφ
    exact .inr (Nat.le_refl _)
  | ident | int | str | bool | cond | condElse | fn | macroFn | array | hash | call | index =>
    cases hφ
    exact .inr (Nat.le_refl _)
  | _ => cases hφ

/-- The operands of an infix expression that is not between parentheses. -/
theorem binary_operands {level : Precedence} {op : InfixOp} {left right : Expr}
    {ts : List TokenKind} (h : Derives (.expr level (.binary op left right)) ts) :
    Enclosed (.binary op left right) ts ∨ ∃ us vs, ts = us ++ .symbol op.symbol :: vs ∧
      (Enclosed left us ∨ op.precedence.rank ≤ left.level.rank) ∧
      (Enclosed right vs ∨ op.precedence < right.level) := by
  -- only three rules make a binary expression
  generalize hφ : Phrase.expr level (.binary op left right) = φ at h
  induction h generalizing level with
  | group h =>
    cases hφ
    exact .inl ⟨_, rfl, h⟩
  | weaker _ _ ih =>
    cases hφ
    exact ih rfl
  | binary hleft hlt hright =>
    cases hφ
    refine .inr ⟨_, _, rfl, hleft.enclosed_or_level, ?_⟩
    refine hright.enclosed_or_level.imp id fun hle => ?_
    exact Nat.lt_of_lt_of_le hlt hle
  | _ => cases hφ

end Derives

/-! ### What is read without errors -/

namespace Parser

/-- A program accounts for the tokens it was read from, up to the first end token. -/
theorem program_accounts {track : List Token} {n : Nat} {c : Cursor} (hc : c.On track)
    (hlength : c.ahead.length < n) :
    Accounts track (program n) c fun body used _ => BodyRead .eof body (c.current.kind :: used) :=
  statementsToEnd_accounts (expression_accounts n) n c hc hlength hlength

/-- Reading a list of tokens never uses up its budget. -/
theorem program_ne_exhausted (tokens : List Token) :
    program (tokens.length + 2) (Cursor.ofTokens tokens) ≠ .exhausted := by
  have hlength : (Cursor.ofTokens tokens).ahead.length < tokens.length + 2 := by
    have hle := Cursor.length_ahead_ofTokens tokens
    omega
  exact (program_accounts (Cursor.on_ofTokens tokens) hlength).ne_exhausted

end Parser

/-- Reading without errors ends at the first end token, and what comes before it is a sentence. -/
theorem exists_derives_of_errors_eq_nil {tokens : List Token}
    (hclean : (parseTokens tokens).errors = []) :
    ∃ ts more, (closeTokens tokens).map Token.kind = ts ++ .eof :: more ∧
      Derives (.stmts (parseTokens tokens).program) ts := by
  have hlength : (Cursor.ofTokens tokens).ahead.length < tokens.length + 2 := by
    have hle := Cursor.length_ahead_ofTokens tokens
    omega
  have haccounts := Parser.program_accounts (Cursor.on_ofTokens tokens) hlength
  unfold Parser.Accounts at haccounts
  unfold parseTokens at hclean ⊢
  cases hprogram : Parser.program (tokens.length + 2) (Cursor.ofTokens tokens) with
  | done body es d =>
    rw [hprogram] at haccounts hclean
    obtain ⟨-, used, hused, hread⟩ := haccounts
    -- no error is left, so that everything that was used counts
    obtain ⟨ts, hts, hderives⟩ := hread hclean
    refine ⟨ts, d.ahead, ?_, hderives⟩
    rw [← Cursor.kinds_ofTokens, Cursor.kinds, hused, ← List.cons_append, hts, List.append_assoc]
    rfl
  | failed es d =>
    rw [hprogram] at haccounts hclean
    exact absurd hclean haccounts.1
  | exhausted =>
    rw [hprogram] at haccounts
    exact haccounts.elim

/-- **What is read without errors is a sentence**: the tokens before the only end token, in order
and each of them once, are a derivation of the program.  In every derivation the operands of an
infix expression that stand without parentheses bind at least as strongly as it on the left and more
strongly on the right.  And wherever, in the course of reading the tokens, a statement fails and is
dropped, be it at top level or in a block at any depth, it leaves an error among the errors of the
whole. -/
theorem derives_of_parseTokens {tokens : List Token} {ts : List TokenKind}
    (hkinds : tokens.map Token.kind = ts ++ [.eof]) (hts : .eof ∉ ts) :
    ((parseTokens tokens).errors = [] → Derives (.stmts (parseTokens tokens).program) ts) ∧
    (∀ level op left right us, Derives (.expr level (.binary op left right)) us →
      Enclosed (.binary op left right) us ∨ ∃ vs ws, us = vs ++ .symbol op.symbol :: ws ∧
        (Enclosed left vs ∨ op.precedence.rank ≤ left.level.rank) ∧
        (Enclosed right ws ∨ op.precedence < right.level)) ∧
    ∀ n c c' es, Parser.Runs (Parser.statement (Parser.expression n)) c
        (Parser.program (tokens.length + 2)) (Cursor.ofTokens tokens) →
      Parser.statement (Parser.expression n) c = .failed es c' →
      es ≠ [] ∧ es.Sublist (parseTokens tokens).errors := by
  refine ⟨fun hclean => ?_, fun _ _ _ _ _ h => h.binary_operands, fun n c c' es hruns hfailed => ?_⟩
  · obtain ⟨us, more, hclosed, hderives⟩ := exists_derives_of_errors_eq_nil hclean
    rw [closeTokens_of_kinds hkinds, hkinds] at hclosed
    -- both sides are cut at the first end token
    obtain ⟨rfl, -, -⟩ := (List.append_cons_inj_of_notMem hts List.not_mem_nil).1 hclosed
    exact hderives
  · have hkept := hruns.errors_sublist (Parser.program_ne_exhausted tokens)
    rw [hfailed, ← errors_parseTokens] at hkept
    exact ⟨Parser.statement_explains (Parser.expression_explains n) c es c' hfailed, hkept⟩

/-- The tokens of a program in which no statement but one has a semicolon:
`let f = fn(a, b) { a + b * 2 } if (!f(1, [2])) { -x == 3; } else { return {1: 2,} }`. -/
def branchingSource : List Token :=
  ([.keyword .kwLet, .ident "f", .symbol .assign, .keyword .kwFn, .symbol .lparen, .ident "a",
    .symbol .comma, .ident "b", .symbol .rparen, .symbol .lbrace, .ident "a", .symbol .plus,
    .ident "b", .symbol .asterisk, .int 2, .symbol .rbrace, .keyword .kwIf, .symbol .lparen,
    .symbol .bang, .ident "f", .symbol .lparen, .int 1, .symbol .comma, .symbol .lbracket, .int 2,
    .symbol .rbracket, .symbol .rparen, .symbol .rparen, .symbol .lbrace, .symbol .minus,
    .ident "x", .symbol .eq, .int 3, .symbol .semicolon, .symbol .rbrace, .keyword .kwElse,
    .symbol .lbrace, .keyword .kwReturn, .symbol .lbrace, .int 1, .symbol .colon, .int 2,
    .symbol .comma, .symbol .rbrace, .symbol .rbrace, .eof] : List TokenKind).map fun kind =>
      ⟨kind, default⟩

/-- The tokens of `if (a) { ) }`. -/
def strayParenthesis : List Token :=
  ([.keyword .kwIf, .symbol .lparen, .ident "a", .symbol .rparen, .symbol .lbrace,
    .symbol .rparen, .symbol .rbrace, .eof] : List TokenKind).map fun kind => ⟨kind, default⟩

namespace Parser

/-- Reading a block with a stray parenthesis involves reading that as a statement, which fails. -/
theorem runs_strayParenthesis : ∃ n c c' es,
    Runs (statement (expression n)) c (program 10) (Cursor.ofTokens strayParenthesis) ∧
      statement (expression n) c = .failed es c' := by
  let start := Cursor.ofTokens strayParenthesis
  let stray := start.advance.advance.advance.advance.advance
  -- from the inside: the block, the conditional, its expression and the statement around them
  have hstray : Runs (statement (expression 9)) stray (blockStatements (expression 9) 10) stray :=
    runs_blockStatements _ (by decide) (by decide) 9
  have hblock : Runs (blockStatements (expression 9) 10) stray (block (expression 9) 10)
      start.advance.advance.advance :=
    .second (p := expect .lbrace) rfl (.second (p := advance) rfl .here)
  have hconditional : Runs (block (expression 9) 10) start.advance.advance.advance
      (conditional (expression 9) 10) start :=
    .second (p := expect .lparen) rfl (.second (p := advance) rfl
      (.second (p := expression 9 .lowest) rfl (.second (p := expect .rparen) rfl (.first .here))))
  have hexpression : Runs (conditional (expression 9) 10) start (expression 10 .lowest) start :=
    .first (.second (p := current) rfl .here)
  have hstatement : Runs (expression 10 .lowest) start (statement (expression 10)) start :=
    .second (p := current) rfl (.first (.first .here))
  have hprogram : Runs (statement (expression 10)) start (program 10) start :=
    runs_statementsToEnd _ (by decide) 9
  have hoperand := hstray.trans (hblock.trans hconditional)
  exact ⟨9, stray, _, _, hoperand.trans (hexpression.trans (hstatement.trans hprogram)), rfl⟩

end Parser

/-- A program with blocks, a call and a hash is read without errors, and its tokens are a sentence;
a stray parenthesis inside a block leaves an error. -/
theorem derives_of_parseTokens_branching :
    ((parseTokens branchingSource).errors = [] ∧
      Derives (.stmts (parseTokens branchingSource).program)
        (branchingSource.map Token.kind).dropLast) ∧
    ∃ n c c' es, Parser.Runs (Parser.statement (Parser.expression n)) c
        (Parser.program 10) (Cursor.ofTokens strayParenthesis) ∧
      Parser.statement (Parser.expression n) c = .failed es c' ∧
      es ≠ [] ∧ es.Sublist (parseTokens strayParenthesis).errors := by
  have hclean : (parseTokens branchingSource).errors = [] := by rfl
  have hkinds : branchingSource.map Token.kind =
      (branchingSource.map Token.kind).dropLast ++ [.eof] := by rfl
  have hends : TokenKind.eof ∉ (branchingSource.map Token.kind).dropLast := by decide
  have hkinds' : strayParenthesis.map Token.kind =
      (strayParenthesis.map Token.kind).dropLast ++ [.eof] := by rfl
  have hends' : TokenKind.eof ∉ (strayParenthesis.map Token.kind).dropLast := by decide
  obtain ⟨n, c, c', es, hruns, hfailed⟩ := Parser.runs_strayParenthesis
  have herrors := (derives_of_parseTokens hkinds' hends').2.2 n c c' es hruns hfailed
  exact ⟨⟨hclean, (derives_of_parseTokens hkinds hends).1 hclean⟩, n, c, c', es, hruns, hfailed,
    herrors⟩

end Monkey
