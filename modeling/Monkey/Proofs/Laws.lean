import Monkey.Parsing

/-!
# Laws of the grammar

What the parser does, it does in a few ways only: it stays, it moves to the next token, it complains
about the current token or about the next one, and a loop over statements goes on one token after a
failure.  Something that is so of each of these, and goes over to one after another, is so of
whatever the productions do.

## Main definitions

* `ParseError.Blames` — the token that an error is about.
* `Parser.Law` — something that is so of the ways a parser goes.
* `Parser.Law.Keeps` — a parser that goes in no other way.

## Main results

* `Parser.Law.expression_keeps`, `Parser.Law.program_keeps` — **every production keeps every law.**
-/

namespace Monkey

/-- The error names the token: its span, and its class or its digits. -/
def ParseError.Blames (t : Token) : ParseError → Prop
  | .unexpectedToken _ found span => found = t.kind.toClass ∧ span = t.span
  | .noPrefixRule found span => found = t.kind.toClass ∧ span = t.span
  | .integerTooLarge digits span => t.kind = .bigInt digits ∧ span = t.span

theorem ParseError.Blames.span_eq {t : Token} {e : ParseError} (h : e.Blames t) :
    e.span = t.span := by
  cases e <;> exact h.2

namespace Parser

/-- Something that is so wherever a parser goes: of the cursor from which it starts, the errors that
it reports and the cursor at which it stops. -/
structure Law where
  /-- It is so of what leads to an answer. -/
  Done : Cursor → List ParseError → Cursor → Prop
  /-- It is so of what leads to a failure. -/
  Failed : Cursor → List ParseError → Cursor → Prop
  stay : ∀ c, Done c [] c
  move : ∀ c, Done c [] c.advance
  trans : ∀ {c d e es fs}, Done c es d → Done d fs e → Done c (es ++ fs) e
  fail : ∀ {c d e es fs}, Done c es d → Failed d fs e → Failed c (es ++ fs) e
  blameCurrent : ∀ {c e}, e.Blames c.current → Failed c [e] c
  blameNext : ∀ {c e}, e.Blames c.next → Failed c [e] c
  /-- After a failure, reading goes on one token later. -/
  recover : ∀ {c d es}, Failed c es d → Done c es d.advance

namespace Law

/-- The law is kept on the way to a reply. -/
def Holds (L : Law) {α : Type} (c : Cursor) : Reply α → Prop
  | .done _ es d => L.Done c es d
  | .failed es d => L.Failed c es d
  | .exhausted => True

/-- The parser keeps the law wherever it starts. -/
def Keeps (L : Law) {α : Type} (p : Parser α) : Prop := ∀ c, L.Holds c (p c)

variable {L : Law} {α β : Type}

/-- Going on from an answer. -/
theorem Holds.after {c d : Cursor} {es : List ParseError} {r : Reply α} (hc : L.Done c es d)
    (hr : L.Holds d r) : L.Holds c (r.after es) := by
  cases r with
  | done a fs e => exact L.trans hc hr
  | failed fs e => exact L.fail hc hr
  | exhausted => trivial

namespace Keeps

variable {p q : Parser α} {k : α → Parser β}

theorem pure (a : α) : L.Keeps (pure a) := L.stay

theorem exhausted : L.Keeps (exhausted : Parser α) := fun _ => trivial

theorem advance : L.Keeps advance := L.move

theorem nextIs (sign : Symbol) : L.Keeps (nextIs sign) := L.stay

theorem rejectNext (expected : TokenClass) : L.Keeps (rejectNext expected : Parser α) :=
  fun _ => L.blameNext ⟨rfl, rfl⟩

theorem ite {condition : Prop} [Decidable condition] (hp : L.Keeps p) (hq : L.Keeps q) :
    L.Keeps (if condition then p else q) := by
  split
  · exact hp
  · exact hq

theorem expect (sign : Symbol) : L.Keeps (expect sign) := by
  intro c
  unfold Parser.expect
  split
  · exact advance c
  · exact rejectNext _ c

theorem expectName : L.Keeps expectName := by
  intro c
  unfold Parser.expectName
  split
  · exact L.move c
  · exact rejectNext _ c

theorem skip (sign : Symbol) : L.Keeps (skip sign) := by
  intro c
  unfold Parser.skip
  split
  · exact advance c
  · exact L.stay c

theorem bind (hp : L.Keeps p) (hk : ∀ a, L.Keeps (k a)) : L.Keeps (p >>= k) := by
  intro c
  have hfirst := hp c
  cases hpc : p c with
  | done a es d =>
    rw [hpc] at hfirst
    rw [bind_done hpc]
    exact Holds.after hfirst (hk a d)
  | failed es d =>
    rw [hpc] at hfirst
    rw [bind_failed hpc]
    exact hfirst
  | exhausted =>
    rw [bind_exhausted hpc]
    trivial

/-- One round of a loop over statements: a part that may fail, and the next token. -/
theorem round (hp : L.Keeps p) {k : Option α → Parser β} (hk : ∀ o, L.Keeps (k o)) :
    L.Keeps (attempt p >>= fun o => Parser.advance >>= fun _ => k o) := by
  intro c
  have hfirst := hp c
  cases hpc : p c with
  | done a es d =>
    have hattempt : attempt p c = .done (some a) es d := by rw [attempt, hpc]
    rw [hpc] at hfirst
    rw [bind_done hattempt]
    exact Holds.after hfirst (bind advance (fun _ => hk (some a)) d)
  -- after a failure the round goes on one token later
  | failed es d =>
    have hattempt : attempt p c = .done none es d := by rw [attempt, hpc]
    have hnext : Parser.advance d = .done () [] d.advance := rfl
    rw [hpc] at hfirst
    rw [bind_done hattempt, bind_done hnext, Reply.after_nil]
    exact Holds.after (L.recover hfirst) (hk none d.advance)
  | exhausted =>
    have hattempt : attempt p c = .exhausted := by rw [attempt, hpc]
    rw [bind_exhausted hattempt]
    trivial

/-- What follows may complain about the current token. -/
theorem current {k : Token → Parser β} (h : ∀ c : Cursor, L.Holds c (k c.current c)) :
    L.Keeps (current >>= k) := by
  intro c
  have hcurrent : Parser.current c = .done c.current [] c := rfl
  rw [bind_done hcurrent, Reply.after_nil]
  exact h c

theorem next {k : Token → Parser β} (h : ∀ t, L.Keeps (k t)) : L.Keeps (next >>= k) :=
  bind L.stay h

end Keeps

/-! ### Every production keeps every law -/

theorem moreNames_keeps : ∀ budget, L.Keeps (moreNames budget)
  | 0 => .exhausted
  | n + 1 => by
    refine .bind (.nextIs _) fun _ => .ite ?_ (.pure _)
    refine .bind .advance fun _ => .bind .expectName fun _ => ?_
    exact .bind (moreNames_keeps n) fun _ => .pure _

theorem paramList_keeps (budget : Nat) : L.Keeps (paramList budget) := by
  refine .bind (.expect _) fun _ => .bind (.nextIs _) fun _ => .ite ?_ ?_
  · exact .bind .advance fun _ => .pure _
  · refine .bind .expectName fun _ => .bind (moreNames_keeps budget) fun _ => ?_
    exact .bind (.expect _) fun _ => .pure _

section

variable {expr : Precedence → Parser Expr} (h : ∀ level, L.Keeps (expr level))
include h

theorem moreExprs_keeps : ∀ budget, L.Keeps (moreExprs expr budget)
  | 0 => .exhausted
  | n + 1 => by
    refine .bind (.nextIs _) fun _ => .ite ?_ (.pure _)
    refine .bind .advance fun _ => .bind .advance fun _ => .bind (h _) fun _ => ?_
    exact .bind (moreExprs_keeps n) fun _ => .pure _

theorem exprList_keeps (closer : Symbol) (budget : Nat) :
    L.Keeps (exprList expr closer budget) := by
  refine .bind (.nextIs _) fun _ => .ite ?_ ?_
  · exact .bind .advance fun _ => .pure _
  · refine .bind .advance fun _ => .bind (h _) fun _ => ?_
    refine .bind (moreExprs_keeps h budget) fun _ => ?_
    exact .bind (.expect _) fun _ => .pure _

theorem letStatement_keeps : L.Keeps (letStatement expr) := by
  refine .bind .expectName fun _ => .bind (.expect _) fun _ => ?_
  exact .bind .advance fun _ => .bind (h _) fun _ => .pure _

theorem returnStatement_keeps : L.Keeps (returnStatement expr) :=
  .bind .advance fun _ => .bind (h _) fun _ => .pure _

theorem exprStatement_keeps : L.Keeps (exprStatement expr) := .bind (h _) fun _ => .pure _

theorem statement_keeps : L.Keeps (statement expr) := by
  have hend : ∀ s : Stmt, L.Keeps (Parser.skip .semicolon >>= fun _ => Pure.pure s) :=
    fun s => .bind (.skip _) fun _ => .pure s
  refine .bind L.stay fun token => ?_
  dsimp only
  split
  · exact .bind (letStatement_keeps h) hend
  · exact .bind (returnStatement_keeps h) hend
  · exact .bind (exprStatement_keeps h) hend

theorem blockStatements_keeps : ∀ budget, L.Keeps (blockStatements expr budget)
  | 0 => .exhausted
  | n + 1 => by
    refine .current fun c => ?_
    split
    · exact L.stay c
    split
    · next heof => exact L.blameCurrent ⟨by rw [heof]; rfl, rfl⟩
    · refine Keeps.round (statement_keeps h) (fun _ => ?_) c
      exact .bind (blockStatements_keeps n) fun _ => .pure _

theorem block_keeps (budget : Nat) : L.Keeps (block expr budget) :=
  .bind (.expect _) fun _ => .bind .advance fun _ => blockStatements_keeps h budget

theorem literalParts_keeps (budget : Nat) : L.Keeps (literalParts expr budget) :=
  .bind (paramList_keeps budget) fun _ => .bind (block_keeps h budget) fun _ => .pure _

theorem elseBranch_keeps (budget : Nat) : L.Keeps (elseBranch expr budget) :=
  .next fun _ => .ite
    (.bind .advance fun _ => .bind (block_keeps h budget) fun _ => .pure _) (.pure _)

theorem conditional_keeps (budget : Nat) : L.Keeps (conditional expr budget) := by
  refine .bind (.expect _) fun _ => .bind .advance fun _ => .bind (h _) fun _ => ?_
  refine .bind (.expect _) fun _ => .bind (block_keeps h budget) fun _ => ?_
  exact .bind (elseBranch_keeps h budget) fun _ => .pure _

theorem grouped_keeps : L.Keeps (grouped expr) :=
  .bind .advance fun _ => .bind (h _) fun _ => .bind (.expect _) fun _ => .pure _

theorem hashPairs_keeps : ∀ budget, L.Keeps (hashPairs expr budget)
  | 0 => .exhausted
  | n + 1 => by
    refine .bind (.nextIs _) fun _ => .ite (.bind .advance fun _ => .pure _) ?_
    refine .bind .advance fun _ => .bind (h _) fun _ => .bind (.expect _) fun _ => ?_
    refine .bind .advance fun _ => .bind (h _) fun _ => .bind (.nextIs _) fun _ => ?_
    dsimp only
    split
    · exact .bind (hashPairs_keeps n) fun _ => .pure _
    · exact .bind (.expect _) fun _ => .bind (hashPairs_keeps n) fun _ => .pure _

theorem signed_keeps (op : PrefixOp) : L.Keeps (signed expr op) :=
  .bind .advance fun _ => .bind (h _) fun _ => .pure _

/-- Where no operand starts, the token that stands there is blamed. -/
theorem operand_keeps (budget : Nat) : L.Keeps (operand expr budget) := by
  refine .current fun c => ?_
  cases hkind : c.current.kind with
  | ident | int | str => exact L.stay c
  | bigInt digits => exact L.blameCurrent ⟨hkind, rfl⟩
  | illegal | eof => exact L.blameCurrent ⟨by rw [hkind], rfl⟩
  | keyword word =>
    cases word with
    | kwTrue | kwFalse => exact L.stay c
    | kwIf => exact conditional_keeps h budget c
    | kwFn | kwMacro => exact Keeps.bind (literalParts_keeps h budget) (fun _ => .pure _) c
    | _ => exact L.blameCurrent ⟨by rw [hkind], rfl⟩
  | symbol sign =>
    cases sign with
    | bang | minus => exact signed_keeps h _ c
    | lparen => exact grouped_keeps h c
    | lbracket => exact Keeps.bind (exprList_keeps h _ budget) (fun _ => .pure _) c
    | lbrace => exact Keeps.bind (hashPairs_keeps h budget) (fun _ => .pure _) c
    | _ => exact L.blameCurrent ⟨by rw [hkind], rfl⟩

theorem suffix_keeps (budget : Nat) (left : Expr) (s : Suffix) :
    L.Keeps (suffix expr budget left s) := by
  cases s with
  | operator op => exact .bind .advance fun _ => .bind (h _) fun _ => .pure _
  | call => exact .bind (exprList_keeps h _ budget) fun _ => .pure _
  | index =>
    refine .bind .advance fun _ => .bind (h _) fun _ => ?_
    exact .bind (.expect _) fun _ => .pure _

theorem suffixes_keeps (level : Precedence) (budget : Nat) :
    ∀ n left, L.Keeps (suffixes expr level budget n left)
  | 0, _ => .exhausted
  | n + 1, left => by
    refine .next fun token => ?_
    split
    · exact .pure _
    · refine .ite ?_ (.pure _)
      refine .bind .advance fun _ => .bind (suffix_keeps h budget left _) fun e => ?_
      exact suffixes_keeps level budget n e

theorem statementsToEnd_keeps : ∀ budget, L.Keeps (statementsToEnd expr budget)
  | 0 => .exhausted
  | n + 1 => by
    refine .current fun c => ?_
    split
    · exact L.stay c
    · refine Keeps.round (statement_keeps h) (fun _ => ?_) c
      exact .bind (statementsToEnd_keeps n) fun _ => .pure _

end

/-- By induction on the budget: the expressions inside of an expression keep the law. -/
theorem expression_keeps : ∀ n level, L.Keeps (expression n level)
  | 0, _ => .exhausted
  | n + 1, level => by
    have h := expression_keeps n
    exact .bind (operand_keeps h (n + 1)) fun e => suffixes_keeps h level (n + 1) (n + 1) e

/-- **Whatever the program, reading it keeps every law.** -/
theorem program_keeps (budget : Nat) : L.Keeps (program budget) :=
  statementsToEnd_keeps (expression_keeps budget) budget

end Law

end Parser

end Monkey
