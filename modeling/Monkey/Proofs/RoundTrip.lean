import Monkey.Expr.Render
import Monkey.Proofs.Lexing
import Monkey.Proofs.Recognition

/-!
# Reading canonical source back

The canonical source of a tree has tokens that can be told from the tree alone, and the grammar
derives the tree from them; so reading it gives the tree back.  This needs a printable tree: names
have to be names, integers must not be negative, strings must not hold a quote, conditions have to
be written with parentheses of their own, and an expression, which has no semicolon after it, has to
be the last statement.

## Main definitions

* `Expr.printable`, `printableStmts` — printable trees.
* `Expr.tokens`, `stmtTokens` — the tokens of canonical source.

## Main results

* `Expr.sentence`, `derives_stmtTokens` — **the tokens are a sentence that stands for the tree.**
* `Expr.spells`, `spells_stmts` — **canonical source has these tokens.**
* `parse_render` — **reading the canonical source of a printable program gives it back.**
-/

namespace Monkey

/-- Whether an expression is written between parentheses. -/
def Expr.isGrouped : Expr → Bool
  | .unary _ _ | .binary _ _ _ | .index _ _ => true
  | _ => false

/-- Whether a statement is an expression. -/
def Stmt.isExpr : Stmt → Bool
  | .expr _ => true
  | _ => false

/-! ### Printable trees -/

mutual

/-- Whether an expression can be read back from its canonical source. -/
def Expr.printable : Expr → Bool
  | .ident name => isName name
  | .int value => 0 ≤ value.toInt
  | .bool _ => true
  | .str text => !text.toList.contains '"'
  | .unary _ right => right.printable
  | .binary _ left right => left.printable && right.printable
  | .cond condition consequence alternative =>
    condition.isGrouped && condition.printable && printableStmts consequence &&
      printableElse alternative
  | .fn params body => params.all isName && printableStmts body
  | .macroFn params body => params.all isName && printableStmts body
  | .call callee args => callee.printable && printableExprs args
  | .array elements => printableExprs elements
  | .index base position => base.printable && position.printable
  | .hash pairs => printablePairs pairs

/-- Whether a statement can be read back from its canonical source. -/
def Stmt.printable : Stmt → Bool
  | .letBe name value => isName name && value.printable
  | .ret value => value.printable
  | .expr value => value.printable

/-- Whether statements can be read back; an expression has to be the last of them. -/
def printableStmts : List Stmt → Bool
  | [] => true
  | s :: rest => s.printable && (!s.isExpr || rest.isEmpty) && printableStmts rest

/-- Whether an `else` branch can be read back, if there is one. -/
def printableElse : Option (List Stmt) → Bool
  | none => true
  | some body => printableStmts body

/-- Whether all of some expressions can be read back. -/
def printableExprs : List Expr → Bool
  | [] => true
  | e :: rest => e.printable && printableExprs rest

/-- Whether the keys and the values of all of some pairs can be read back. -/
def printablePairs : List (Expr × Expr) → Bool
  | [] => true
  | (key, value) :: rest => key.printable && value.printable && printablePairs rest

end

/-! ### The tokens of canonical source -/

mutual

/-- The tokens of the canonical source of an expression. -/
def Expr.tokens : Expr → List TokenKind
  | .ident name => [.ident name]
  | .int value => [.int value]
  | .bool b => [.keyword (.ofBool b)]
  | .str text => [.str text]
  | .unary op right => parenthesised (.symbol op.symbol :: right.tokens)
  | .binary op left right =>
    parenthesised (left.tokens ++ .symbol op.symbol :: right.tokens)
  | .cond condition consequence alternative =>
    .keyword .kwIf :: condition.tokens ++ bracedTokens (stmtTokens consequence) ++
      elseTokens alternative
  | .fn params body =>
    .keyword .kwFn :: parenthesised (nameTokens params) ++ bracedTokens (stmtTokens body)
  | .macroFn params body =>
    .keyword .kwMacro :: parenthesised (nameTokens params) ++ bracedTokens (stmtTokens body)
  | .call callee args => callee.tokens ++ parenthesised (exprTokens args)
  | .array elements => bracketed (exprTokens elements)
  | .index base position => parenthesised (base.tokens ++ bracketed position.tokens)
  | .hash pairs => bracedTokens (pairTokens pairs)

/-- The tokens of a statement, with its semicolon if it has one. -/
def Stmt.tokens : Stmt → List TokenKind
  | .letBe name value =>
    .keyword .kwLet :: .ident name :: .symbol .assign :: value.tokens ++ [.symbol .semicolon]
  | .ret value => .keyword .kwReturn :: value.tokens ++ [.symbol .semicolon]
  | .expr value => value.tokens

/-- The tokens of statements, one after another. -/
def stmtTokens : List Stmt → List TokenKind
  | [] => []
  | s :: rest => s.tokens ++ stmtTokens rest

/-- The tokens of an `else` branch, if there is one. -/
def elseTokens : Option (List Stmt) → List TokenKind
  | none => []
  | some body => .keyword .kwElse :: bracedTokens (stmtTokens body)

/-- The tokens of expressions with commas between them. -/
def exprTokens : List Expr → List TokenKind
  | [] => []
  | e :: rest => e.tokens ++ moreExprTokens rest

/-- The tokens of expressions with a comma before each of them. -/
def moreExprTokens : List Expr → List TokenKind
  | [] => []
  | e :: rest => .symbol .comma :: e.tokens ++ moreExprTokens rest

/-- The tokens of pairs with commas between them. -/
def pairTokens : List (Expr × Expr) → List TokenKind
  | [] => []
  | (key, value) :: rest =>
    key.tokens ++ .symbol .colon :: value.tokens ++ morePairTokens rest

/-- The tokens of pairs with a comma before each of them. -/
def morePairTokens : List (Expr × Expr) → List TokenKind
  | [] => []
  | (key, value) :: rest =>
    .symbol .comma :: key.tokens ++ .symbol .colon :: value.tokens ++ morePairTokens rest

end

theorem pairTokens_eq (pair : Expr × Expr) (rest : List (Expr × Expr)) :
    morePairTokens (pair :: rest) = .symbol .comma :: pairTokens (pair :: rest) := by
  obtain ⟨key, value⟩ := pair
  simp [morePairTokens, pairTokens]

/-! ### The tokens are a sentence -/

namespace Derives

theorem unary_part {op : PrefixOp} {right : Expr} {ts : List TokenKind}
    (h : Derives (.expr .index right) ts) :
    Derives (.expr .equality (.unary op right)) (.symbol op.symbol :: ts) :=
  (Derives.unary (h.loosen (by decide))).loosen (by decide)

theorem binary_part {op : InfixOp} {left right : Expr} {ts us : List TokenKind}
    (hleft : Derives (.expr .index left) ts) (hright : Derives (.expr .index right) us) :
    Derives (.expr .equality (.binary op left right)) (ts ++ .symbol op.symbol :: us) := by
  have hlt : op.precedence < Precedence.index := by
    cases op <;> decide
  have hle : Precedence.equality.rank ≤ op.precedence.rank := by
    cases op <;> decide
  have hbinary := Derives.binary (hleft.loosen (Nat.le_of_lt hlt)) hlt hright
  exact hbinary.loosen hle

theorem index_part {base position : Expr} {ts us : List TokenKind}
    (hbase : Derives (.expr .index base) ts) (hposition : Derives (.expr .index position) us) :
    Derives (.expr .equality (.index base position)) (ts ++ bracketed us) :=
  (Derives.index hbase (hposition.loosen (by decide))).loosen (by decide)

end Derives

/-- What the grammar says of the tokens of an expression: they are an expression of the strongest
level, and if they are written between parentheses, then so is what stands between those. -/
structure Expr.Sentence (e : Expr) : Prop where
  derives : Derives (.expr .index e) e.tokens
  grouped : e.isGrouped = true →
    ∃ ts, e.tokens = parenthesised ts ∧ Derives (.expr .equality e) ts

/-- An expression that is not written between parentheses. -/
theorem Expr.Sentence.of_derives {e : Expr} (h : Derives (.expr .index e) e.tokens)
    (he : e.isGrouped = false) : e.Sentence := by
  refine ⟨h, fun hgrouped => ?_⟩
  rw [he] at hgrouped
  cases hgrouped

/-- An expression that is written between parentheses. -/
theorem Expr.Sentence.of_part {e : Expr} {ts : List TokenKind}
    (htokens : e.tokens = parenthesised ts) (h : Derives (.expr .equality e) ts) : e.Sentence := by
  refine ⟨?_, fun _ => ⟨ts, htokens, h⟩⟩
  rw [htokens]
  exact .group h

mutual

/-- **The tokens of a printable expression are a sentence that stands for it.** -/
theorem Expr.sentence : (e : Expr) → e.printable = true → e.Sentence
  | .ident name, _ => .of_derives (.ident name) rfl
  | .int value, _ => .of_derives (.int value) rfl
  | .bool b, _ => .of_derives (.bool b) rfl
  | .str text, _ => .of_derives (.str text) rfl
  | .unary _ right, h => .of_part rfl (.unary_part (Expr.sentence right h).derives)
  | .binary _ left right, h => by
    rw [Expr.printable, Bool.and_eq_true] at h
    have hleft := (Expr.sentence left h.1).derives
    have hright := (Expr.sentence right h.2).derives
    exact .of_part rfl (.binary_part hleft hright)
  | .cond condition consequence none, h => by
    simp only [Expr.printable, Bool.and_eq_true] at h
    obtain ⟨⟨⟨hgrouped, hcondition⟩, hconsequence⟩, -⟩ := h
    -- the parentheses of the condition are those that the conditional needs
    obtain ⟨ts, htokens, hpart⟩ := (Expr.sentence condition hcondition).grouped hgrouped
    have hbody := derives_stmtTokens consequence hconsequence
    refine .of_derives ?_ rfl
    rw [Expr.tokens, htokens, elseTokens, List.append_nil]
    exact .cond hpart hbody
  | .cond condition consequence (some other), h => by
    simp only [Expr.printable, printableElse, Bool.and_eq_true] at h
    obtain ⟨⟨⟨hgrouped, hcondition⟩, hconsequence⟩, hother⟩ := h
    obtain ⟨ts, htokens, hpart⟩ := (Expr.sentence condition hcondition).grouped hgrouped
    have hbody := derives_stmtTokens consequence hconsequence
    have helse := derives_stmtTokens other hother
    refine .of_derives ?_ rfl
    rw [Expr.tokens, htokens, elseTokens]
    exact .condElse hpart hbody helse
  | .fn params body, h => by
    rw [Expr.printable, Bool.and_eq_true] at h
    exact .of_derives (.fn (derives_stmtTokens body h.2)) rfl
  | .macroFn params body, h => by
    rw [Expr.printable, Bool.and_eq_true] at h
    exact .of_derives (.macroFn (derives_stmtTokens body h.2)) rfl
  | .call callee args, h => by
    rw [Expr.printable, Bool.and_eq_true] at h
    have hcallee := (Expr.sentence callee h.1).derives
    exact .of_derives (.call hcallee (derives_exprTokens args h.2)) rfl
  | .array elements, h => .of_derives (.array (derives_exprTokens elements h)) rfl
  | .index base position, h => by
    rw [Expr.printable, Bool.and_eq_true] at h
    have hbase := (Expr.sentence base h.1).derives
    have hposition := (Expr.sentence position h.2).derives
    exact .of_part rfl (.index_part hbase hposition)
  | .hash pairs, h => .of_derives (.hash (derives_pairTokens pairs h)) rfl

theorem derives_stmtTokens : (ss : List Stmt) → printableStmts ss = true →
    Derives (.stmts ss) (stmtTokens ss)
  | [], _ => .noStmts
  | .letBe name value :: rest, h => by
    simp only [printableStmts, Stmt.printable, Bool.and_eq_true] at h
    obtain ⟨⟨⟨-, hvalue⟩, -⟩, hrest⟩ := h
    have hexpr : Derives (.expr .equality value) value.tokens :=
      (Expr.sentence value hvalue).derives.loosen (by decide)
    have hlet : Derives (.stmt (.letBe name value)) _ := .letBe hexpr
    have hclosed := Derives.closed hlet (derives_stmtTokens rest hrest)
    simpa [stmtTokens, Stmt.tokens] using hclosed
  | .ret value :: rest, h => by
    simp only [printableStmts, Stmt.printable, Bool.and_eq_true] at h
    obtain ⟨⟨hvalue, -⟩, hrest⟩ := h
    have hexpr : Derives (.expr .equality value) value.tokens :=
      (Expr.sentence value hvalue).derives.loosen (by decide)
    have hclosed := Derives.closed (.ret hexpr) (derives_stmtTokens rest hrest)
    simpa [stmtTokens, Stmt.tokens] using hclosed
  | .expr value :: rest, h => by
    simp only [printableStmts, Stmt.printable, Stmt.isExpr, Bool.not_true, Bool.false_or,
      Bool.and_eq_true, List.isEmpty_iff] at h
    obtain ⟨⟨hvalue, rfl⟩, -⟩ := h
    have hexpr : Derives (.expr .equality value) value.tokens :=
      (Expr.sentence value hvalue).derives.loosen (by decide)
    -- nothing follows that the expression could go on with
    refine .unclosed (.expr hexpr) .noStmts ?_
    intro kind hkind
    cases hkind

theorem derives_exprTokens : (es : List Expr) → printableExprs es = true →
    Derives (.exprs es) (exprTokens es)
  | [], _ => .noExprs
  | e :: rest, h => by
    rw [printableExprs, Bool.and_eq_true] at h
    have he := (Expr.sentence e h.1).derives
    exact .exprs (he.loosen (by decide)) (derives_moreExprTokens rest h.2)

theorem derives_moreExprTokens : (es : List Expr) → printableExprs es = true →
    Derives (.moreExprs es) (moreExprTokens es)
  | [], _ => .noMoreExprs
  | e :: rest, h => by
    rw [printableExprs, Bool.and_eq_true] at h
    have he := (Expr.sentence e h.1).derives
    exact .moreExprs (he.loosen (by decide)) (derives_moreExprTokens rest h.2)

theorem derives_pairTokens : (ps : List (Expr × Expr)) → printablePairs ps = true →
    Derives (.pairs ps) (pairTokens ps)
  | [], _ => .noPairs
  | [(key, value)], h => by
    simp only [printablePairs, Bool.and_eq_true] at h
    have hkey := (Expr.sentence key h.1.1).derives
    have hvalue := (Expr.sentence value h.1.2).derives
    have hpair := Derives.lastPair (hkey.loosen (by decide)) (hvalue.loosen (by decide))
    simpa [pairTokens, morePairTokens] using hpair
  | (key, value) :: pair :: rest, h => by
    rw [printablePairs, Bool.and_eq_true, Bool.and_eq_true] at h
    have hkey := (Expr.sentence key h.1.1).derives
    have hvalue := (Expr.sentence value h.1.2).derives
    have hrest := derives_pairTokens (pair :: rest) h.2
    rw [pairTokens, pairTokens_eq]
    exact .pair (hkey.loosen (by decide)) (hvalue.loosen (by decide)) hrest

end

/-! ### Canonical source has these tokens -/

/-- Items with a comma and a blank before each of them. -/
def moreItems (items : List String) : List Char :=
  items.flatMap fun item => ',' :: ' ' :: item.toList

theorem toList_commaSeparated_cons (item : String) (items : List String) :
    (commaSeparated (item :: items)).toList = item.toList ++ moreItems items := by
  induction items generalizing item with
  | nil => simp [commaSeparated, moreItems]
  | cons next items ih =>
    have hsplit : commaSeparated (item :: next :: items) =
        item ++ ", " ++ commaSeparated (next :: items) := String.intercalate_cons_cons
    rw [hsplit, String.toList_append, String.toList_append, ih]
    simp [moreItems]

theorem moreItems_cons (item : String) (items : List String) :
    moreItems (item :: items) = ',' :: ' ' :: (item.toList ++ moreItems items) := by
  simp [moreItems]

/-- What follows an item is no part of it. -/
theorem boundary_moreItems (items : List String) {more : List Char} (h : Boundary more) :
    Boundary (moreItems items ++ more) := by
  cases items with
  | nil => exact h
  | cons item items =>
    rw [moreItems_cons]
    exact boundary_cons (by decide) (by decide) _

theorem boundary_rparen (more : List Char) : Boundary (')' :: more) :=
  boundary_cons (by decide) (by decide) more

theorem boundary_lparen (more : List Char) : Boundary ('(' :: more) :=
  boundary_cons (by decide) (by decide) more

theorem boundary_space (more : List Char) : Boundary (' ' :: more) :=
  boundary_cons (by decide) (by decide) more

theorem kindsOf_moreNames {names : List String} (h : names.all isName = true) (more : List Char) :
    kindsOf (moreItems names ++ ')' :: more) =
      moreNameTokens names ++ .symbol .rparen :: kindsOf more := by
  induction names with
  | nil => simp [moreItems, moreNameTokens]
  | cons name names ih =>
    rw [List.all_cons, Bool.and_eq_true] at h
    have hboundary := boundary_moreItems names (boundary_rparen more)
    rw [moreItems_cons, List.cons_append, List.cons_append, List.append_assoc, kindsOf_comma,
      kindsOf_space, kindsOf_name h.1 hboundary, ih h.2]
    rfl

/-- Parameters between parentheses. -/
theorem kindsOf_names {names : List String} (h : names.all isName = true) (more : List Char) :
    kindsOf ('(' :: ((commaSeparated names).toList ++ ')' :: more)) =
      parenthesised (nameTokens names) ++ kindsOf more := by
  rw [kindsOf_lparen, parenthesised_append]
  cases names with
  | nil => simp [commaSeparated, nameTokens]
  | cons name names =>
    rw [List.all_cons, Bool.and_eq_true] at h
    have hboundary := boundary_moreItems names (boundary_rparen more)
    rw [toList_commaSeparated_cons, List.append_assoc, kindsOf_name h.1 hboundary,
      kindsOf_moreNames h.2]
    rfl

/-- Operators stand between blanks. -/
theorem kindsOf_operator (op : InfixOp) (more : List Char) :
    kindsOf (op.text.toList ++ ' ' :: more) = .symbol op.symbol :: kindsOf more := by
  rw [← op.text_symbol, kindsOf_symbol op.symbol (by simp), kindsOf_space]

theorem kindsOf_bool (b : Bool) {more : List Char} (hmore : Boundary more) :
    kindsOf ((Expr.bool b).render.toList ++ more) = .keyword (.ofBool b) :: kindsOf more := by
  cases b with
  | true => exact kindsOf_keyword .kwTrue hmore
  | false => exact kindsOf_keyword .kwFalse hmore

theorem kindsOf_int {value : Int64} (h : 0 ≤ value.toInt) {more : List Char}
    (hmore : Boundary more) :
    kindsOf ((Expr.int value).render.toList ++ more) = .int value :: kindsOf more := by
  obtain ⟨n, hn⟩ : ∃ n : Nat, value.toInt = n := ⟨value.toInt.toNat, (Int.toNat_of_nonneg h).symm⟩
  -- what is not negative is written in digits alone
  have hlt : n < Int64.size / 2 := by
    have hmax := value.toInt_lt
    simp only [Int64.size]
    omega
  have hvalue : Int64.ofNat n = value := by
    rw [← Int64.ofInt_toInt value, hn]
    rfl
  have htext : (Expr.int value).render.toList = Nat.toDigits 10 n := by
    rw [Expr.render, hn]
    exact String.toList_ofList
  rw [htext, kindsOf_numeral hlt hmore, hvalue]

/-- Tokens of a text that are the first ones of every longer text. -/
def Spells (text : List Char) (ts : List TokenKind) : Prop :=
  ∀ more, Boundary more → kindsOf (text ++ more) = ts ++ kindsOf more

/-- The text of a body between braces. -/
theorem kindsOf_braced {body : String} {ts : List TokenKind} (h : Spells body.toList ts)
    (more : List Char) :
    kindsOf ((braced body).toList ++ more) = bracedTokens ts ++ kindsOf more := by
  have htext : (braced body).toList ++ more =
      '\x7b' :: ' ' :: (body.toList ++ ' ' :: '\x7d' :: more) := by
    simp [braced]
  rw [htext, kindsOf_lbrace, kindsOf_space, h _ (boundary_space _), kindsOf_space,
    kindsOf_rbrace, bracedTokens_append]

/-- A literal from its reserved word on. -/
theorem kindsOf_literal (word : Keyword) {params : List String} {body : String}
    {ts : List TokenKind} (hparams : params.all isName = true) (h : Spells body.toList ts)
    (more : List Char) :
    kindsOf (word.text.toList ++ ((renderLiteral params body).toList ++ more)) =
      .keyword word :: (parenthesised (nameTokens params) ++ bracedTokens ts ++ kindsOf more) := by
  have htext : (renderLiteral params body).toList ++ more =
      '(' :: ((commaSeparated params).toList ++ ')' :: ' ' :: ((braced body).toList ++ more)) := by
    simp [renderLiteral]
  rw [htext, kindsOf_keyword word (boundary_lparen _), kindsOf_names hparams, kindsOf_space,
    kindsOf_braced h, List.append_assoc]

/-- The sign of an operand is a token of its own: no operand starts with an equality sign. -/
theorem kindsOf_signed (op : PrefixOp) {right : Expr} (hright : right.printable = true)
    {text : List Char} {rest : List TokenKind} (h : kindsOf text = right.tokens ++ rest) :
    kindsOf (op.text.toList ++ text) = .symbol op.symbol :: (right.tokens ++ rest) := by
  obtain ⟨kind, tail, htokens, hstarts⟩ := (right.sentence hright).derives.expr_head
  -- `!` and `=` would be one token
  have hhead : text.head? ≠ some '=' := by
    rw [htokens, List.cons_append] at h
    refine head?_ne_of_kindsOf h fun sign hsign => ?_
    rintro rfl
    rcases hsign with rfl | rfl <;> cases hstarts
  rw [← op.text_symbol, kindsOf_symbol op.symbol fun _ => hhead, h]

/-- A pair of a hash literal. -/
theorem kindsOf_pair {key value : Expr} (hkey : Spells key.render.toList key.tokens)
    (hvalue : Spells value.render.toList value.tokens) {more : List Char}
    (hmore : Boundary more) :
    kindsOf ((key.render ++ ": " ++ value.render).toList ++ more) =
      key.tokens ++ .symbol .colon :: (value.tokens ++ kindsOf more) := by
  have htext : (key.render ++ ": " ++ value.render).toList ++ more =
      key.render.toList ++ ':' :: ' ' :: (value.render.toList ++ more) := by
    simp
  have hboundary := boundary_cons (c := ':') (by decide) (by decide)
    (' ' :: (value.render.toList ++ more))
  rw [htext, hkey _ hboundary, kindsOf_colon, kindsOf_space, hvalue more hmore]

mutual

/-- **The canonical source of a printable expression has its tokens.** -/
theorem Expr.spells : (e : Expr) → e.printable = true → Spells e.render.toList e.tokens
  -- what is written by itself ends where a boundary follows
  | .ident name, h => fun more hmore => kindsOf_name h hmore
  | .int value, h => fun more hmore => kindsOf_int (of_decide_eq_true h) hmore
  | .bool b, _ => fun more hmore => kindsOf_bool b hmore
  | .str text, h => by
    intro more _
    -- a string needs no boundary, as it has a quote at its end
    have hquote : '"' ∉ text.toList := by simpa [Expr.printable] using h
    have htext : (Expr.str text).render.toList ++ more =
        '"' :: (text.toList ++ '"' :: more) := by
      simp [Expr.render]
    rw [htext, kindsOf_string hquote]
    rfl
  | .unary op right, h => by
    intro more _
    have htext : (Expr.unary op right).render.toList ++ more =
        '(' :: (op.text.toList ++ (right.render.toList ++ ')' :: more)) := by
      simp [Expr.render]
    -- the sign and the operand touch, so that the operand must not make another sign of it
    have hprintable : right.printable = true := h
    have hright := Expr.spells right h _ (boundary_rparen more)
    rw [htext, kindsOf_lparen, kindsOf_signed op hprintable hright, kindsOf_rparen, Expr.tokens,
      parenthesised_append]
    rfl
  | .binary op left right, h => by
    intro more _
    rw [Expr.printable, Bool.and_eq_true] at h
    have htext : (Expr.binary op left right).render.toList ++ more =
        '(' :: (left.render.toList ++ ' ' ::
          (op.text.toList ++ ' ' :: (right.render.toList ++ ')' :: more))) := by
      simp [Expr.render]
    -- the brackets close the operands, and blanks stand around the sign
    have hright := Expr.spells right h.2 _ (boundary_rparen more)
    rw [htext, kindsOf_lparen, Expr.spells left h.1 _ (boundary_space _), kindsOf_space,
      kindsOf_operator, hright, kindsOf_rparen, Expr.tokens, parenthesised_append]
    simp
  | .cond condition consequence alternative, h => by
    intro more hmore
    simp only [Expr.printable, Bool.and_eq_true] at h
    -- the condition has blanks around it and the bodies have braces; only a missing `else` leaves
    -- the end open
    obtain ⟨⟨⟨-, hcondition⟩, hconsequence⟩, halternative⟩ := h
    have htext : (Expr.cond condition consequence alternative).render.toList ++ more =
        Keyword.kwIf.text.toList ++ ' ' :: (condition.render.toList ++ ' ' ::
          ((braced (String.join (renderStmts consequence))).toList ++
            ((renderElse alternative).toList ++ more))) := by
      simp [Expr.render, Keyword.text]
    rw [htext, kindsOf_keyword .kwIf (boundary_space _), kindsOf_space,
      Expr.spells condition hcondition _ (boundary_space _), kindsOf_space,
      kindsOf_braced (spells_stmts consequence hconsequence),
      kindsOf_else alternative halternative more hmore, Expr.tokens]
    simp
  | .fn params body, h => by
    intro more _
    rw [Expr.printable, Bool.and_eq_true] at h
    have htext : (Expr.fn params body).render.toList ++ more = Keyword.kwFn.text.toList ++
        ((renderLiteral params (String.join (renderStmts body))).toList ++ more) := by
      simp [Expr.render, Keyword.text]
    rw [htext, kindsOf_literal .kwFn h.1 (spells_stmts body h.2), Expr.tokens]
    simp
  | .macroFn params body, h => by
    intro more _
    rw [Expr.printable, Bool.and_eq_true] at h
    have htext : (Expr.macroFn params body).render.toList ++ more =
        Keyword.kwMacro.text.toList ++
          ((renderLiteral params (String.join (renderStmts body))).toList ++ more) := by
      simp [Expr.render, Keyword.text]
    rw [htext, kindsOf_literal .kwMacro h.1 (spells_stmts body h.2), Expr.tokens]
    simp
  | .call callee args, h => by
    intro more _
    rw [Expr.printable, Bool.and_eq_true] at h
    have htext : (Expr.call callee args).render.toList ++ more =
        callee.render.toList ++
          '(' :: ((commaSeparated (renderExprs args)).toList ++ ')' :: more) := by
      simp [Expr.render]
    -- after the callee comes a parenthesis, which goes on with no token
    have hargs := spells_exprs args h.2 _ (boundary_rparen more)
    rw [htext, Expr.spells callee h.1 _ (boundary_lparen _), kindsOf_lparen, hargs,
      kindsOf_rparen, Expr.tokens, List.append_assoc, parenthesised_append]
  | .array elements, h => by
    intro more _
    have htext : (Expr.array elements).render.toList ++ more =
        '[' :: ((commaSeparated (renderExprs elements)).toList ++ ']' :: more) := by
      simp [Expr.render]
    have helements := spells_exprs elements h (']' :: more)
      (boundary_cons (by decide) (by decide) _)
    rw [htext, kindsOf_lbracket, helements, kindsOf_rbracket, Expr.tokens, bracketed_append]
  | .index base position, h => by
    intro more _
    rw [Expr.printable, Bool.and_eq_true] at h
    have htext : (Expr.index base position).render.toList ++ more =
        '(' :: (base.render.toList ++
          '[' :: (position.render.toList ++ ']' :: ')' :: more)) := by
      simp [Expr.render]
    -- the two brackets at the end are tokens of their own
    have hposition := Expr.spells position h.2 (']' :: ')' :: more)
      (boundary_cons (by decide) (by decide) _)
    have hbase := Expr.spells base h.1 ('[' :: (position.render.toList ++ ']' :: ')' :: more))
      (boundary_cons (by decide) (by decide) _)
    rw [htext, kindsOf_lparen, hbase, kindsOf_lbracket, hposition, kindsOf_rbracket,
      kindsOf_rparen, Expr.tokens, parenthesised_append]
    simp
  | .hash pairs, h => by
    intro more _
    have htext : (Expr.hash pairs).render.toList ++ more =
        '\x7b' :: ((commaSeparated (renderPairs pairs)).toList ++ '\x7d' :: more) := by
      simp [Expr.render]
    have hpairs := spells_pairs pairs h ('\x7d' :: more) (boundary_cons (by decide) (by decide) _)
    rw [htext, kindsOf_lbrace, hpairs, kindsOf_rbrace, Expr.tokens, bracedTokens_append]

/-- The source of statements; only an expression, which is the last of them, has an open end. -/
theorem spells_stmts : (ss : List Stmt) → printableStmts ss = true →
    Spells (String.join (renderStmts ss)).toList (stmtTokens ss)
  | [], _ => fun _ _ => rfl
  | .letBe name value :: rest, h => by
    intro more hmore
    simp only [printableStmts, Stmt.printable, Bool.and_eq_true] at h
    obtain ⟨⟨⟨hname, hvalue⟩, -⟩, hrest⟩ := h
    have htext : (String.join (renderStmts (.letBe name value :: rest))).toList ++ more =
        Keyword.kwLet.text.toList ++ ' ' :: (name.toList ++ ' ' ::
          (Symbol.assign.text.toList ++ ' ' :: (value.render.toList ++
            ';' :: ((String.join (renderStmts rest)).toList ++ more)))) := by
      simp [renderStmts, Stmt.render, Keyword.text, Symbol.text]
    -- a semicolon ends the value, and the next statement may touch it
    have hexpr := Expr.spells value hvalue
      (';' :: ((String.join (renderStmts rest)).toList ++ more))
      (boundary_cons (by decide) (by decide) _)
    rw [htext, kindsOf_keyword .kwLet (boundary_space _), kindsOf_space,
      kindsOf_name hname (boundary_space _), kindsOf_space, kindsOf_symbol .assign (by simp),
      kindsOf_space, hexpr, kindsOf_semicolon, spells_stmts rest hrest more hmore]
    simp [stmtTokens, Stmt.tokens]
  | .ret value :: rest, h => by
    intro more hmore
    simp only [printableStmts, Stmt.printable, Bool.and_eq_true] at h
    obtain ⟨⟨hvalue, -⟩, hrest⟩ := h
    have htext : (String.join (renderStmts (.ret value :: rest))).toList ++ more =
        Keyword.kwReturn.text.toList ++ ' ' :: (value.render.toList ++
          ';' :: ((String.join (renderStmts rest)).toList ++ more)) := by
      simp [renderStmts, Stmt.render, Keyword.text]
    have hexpr := Expr.spells value hvalue
      (';' :: ((String.join (renderStmts rest)).toList ++ more))
      (boundary_cons (by decide) (by decide) _)
    rw [htext, kindsOf_keyword .kwReturn (boundary_space _), kindsOf_space, hexpr,
      kindsOf_semicolon, spells_stmts rest hrest more hmore]
    simp [stmtTokens, Stmt.tokens]
  | .expr value :: rest, h => by
    intro more hmore
    simp only [printableStmts, Stmt.printable, Stmt.isExpr, Bool.not_true, Bool.false_or,
      Bool.and_eq_true, List.isEmpty_iff] at h
    obtain ⟨⟨hvalue, rfl⟩, -⟩ := h
    have htext : (String.join (renderStmts [.expr value])).toList ++ more =
        value.render.toList ++ more := by
      simp [renderStmts, Stmt.render]
    rw [htext, Expr.spells value hvalue more hmore]
    simp [stmtTokens, Stmt.tokens]

theorem kindsOf_else : (branch : Option (List Stmt)) → printableElse branch = true →
    ∀ more, Boundary more →
    kindsOf ((renderElse branch).toList ++ more) = elseTokens branch ++ kindsOf more
  | none, _ => fun _ _ => rfl
  | some body, h => by
    intro more _
    have htext : (renderElse (some body)).toList ++ more = ' ' :: (Keyword.kwElse.text.toList ++
        ' ' :: ((braced (String.join (renderStmts body))).toList ++ more)) := by
      simp [renderElse, Keyword.text]
    rw [htext, kindsOf_space, kindsOf_keyword .kwElse (boundary_space _), kindsOf_space,
      kindsOf_braced (spells_stmts body h)]
    rfl

theorem spells_exprs : (es : List Expr) → printableExprs es = true →
    Spells (commaSeparated (renderExprs es)).toList (exprTokens es)
  | [], _ => fun _ _ => rfl
  | e :: rest, h => by
    intro more hmore
    rw [printableExprs, Bool.and_eq_true] at h
    have hboundary := boundary_moreItems (renderExprs rest) hmore
    rw [renderExprs, toList_commaSeparated_cons, List.append_assoc,
      Expr.spells e h.1 _ hboundary, spells_moreExprs rest h.2 more hmore, exprTokens,
      List.append_assoc]

theorem spells_moreExprs : (es : List Expr) → printableExprs es = true →
    Spells (moreItems (renderExprs es)) (moreExprTokens es)
  | [], _ => fun _ _ => rfl
  | e :: rest, h => by
    intro more hmore
    rw [printableExprs, Bool.and_eq_true] at h
    have hboundary := boundary_moreItems (renderExprs rest) hmore
    rw [renderExprs, moreItems_cons, List.cons_append, List.cons_append, List.append_assoc,
      kindsOf_comma, kindsOf_space, Expr.spells e h.1 _ hboundary,
      spells_moreExprs rest h.2 more hmore, moreExprTokens]
    simp

theorem spells_pairs : (ps : List (Expr × Expr)) → printablePairs ps = true →
    Spells (commaSeparated (renderPairs ps)).toList (pairTokens ps)
  | [], _ => fun _ _ => rfl
  | (key, value) :: rest, h => by
    intro more hmore
    rw [printablePairs, Bool.and_eq_true, Bool.and_eq_true] at h
    have hboundary := boundary_moreItems (renderPairs rest) hmore
    rw [renderPairs, toList_commaSeparated_cons, List.append_assoc,
      kindsOf_pair (Expr.spells key h.1.1) (Expr.spells value h.1.2) hboundary,
      spells_morePairs rest h.2 more hmore, pairTokens]
    simp

theorem spells_morePairs : (ps : List (Expr × Expr)) → printablePairs ps = true →
    Spells (moreItems (renderPairs ps)) (morePairTokens ps)
  | [], _ => fun _ _ => rfl
  | (key, value) :: rest, h => by
    intro more hmore
    rw [printablePairs, Bool.and_eq_true, Bool.and_eq_true] at h
    have hboundary := boundary_moreItems (renderPairs rest) hmore
    rw [renderPairs, moreItems_cons, List.cons_append, List.cons_append, List.append_assoc,
      kindsOf_comma, kindsOf_space,
      kindsOf_pair (Expr.spells key h.1.1) (Expr.spells value h.1.2) hboundary,
      spells_morePairs rest h.2 more hmore, morePairTokens]
    simp

end

/-! ### The round trip -/

/-- **Reading the canonical source of a printable program gives the program back**, without any
error. -/
theorem parse_render {program : Program} (h : printableStmts program = true) :
    parse (Block.render program) = ⟨program, []⟩ := by
  have hkinds : (lex (Block.render program)).map Token.kind = stmtTokens program ++ [.eof] := by
    have hspells := spells_stmts program h [] boundary_nil
    rw [List.append_nil, kindsOf_nil] at hspells
    rw [map_kind_lex]
    exact hspells
  exact parseTokens_of_kinds hkinds (derives_stmtTokens program h)

/-- The program `let f = fn(x) { if (!x) { {1: [x, "a"]} } else { return 2; } };(f(3)[0])`, whose
call is indexed. -/
def nestedProgram : Program :=
  [.letBe "f" (.fn ["x"] [.expr (.cond (.unary .not (.ident "x"))
      [.expr (.hash [(.int 1, .array [.ident "x", .str "a"])])] (some [.ret (.int 2)]))]),
    .expr (.index (.call (.ident "f") [.int 3]) (.int 0))]

/-- A program with blocks, literals and calls inside one another is read back. -/
theorem parse_render_nested : printableStmts nestedProgram = true ∧
    parse (Block.render nestedProgram) = ⟨nestedProgram, []⟩ := by
  have hprintable : printableStmts nestedProgram = true := by decide
  exact ⟨hprintable, parse_render hprintable⟩

end Monkey
