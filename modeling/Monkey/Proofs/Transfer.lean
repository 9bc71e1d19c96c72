import Monkey.Proofs.Recognition
import Monkey.Proofs.Seam

/-!
# Reading other tokens alongside

Of the tokens, a parser looks at the current one and the next one only, and their spans are nothing
to it but something to report.  So if a place among other tokens belongs to each place, with the
same two tokens but for their spans, then reading there runs the same way: it gives the same answer,
reports the same errors but for their spans, and stops at the place that belongs to where it stops
here.

A place may also be *lost*, which means that no place among the other tokens belongs to it.  A
reading that comes to a lost place stays lost, and nothing is said of it.  So it is with a reading
whose budget is used up; one with a larger budget runs the same way otherwise.

## Main definitions

* `Transfer` — places among other tokens.
* `Transfer.Carries` — a parser runs there as another one runs here.

## Main results

* `Transfer.expression_carries`, `Transfer.statementsToEnd_carries` — **every parser of the grammar
  runs there as it runs here.**
-/

namespace Monkey

/-- Places among other tokens. -/
structure Transfer where
  /-- What becomes of the spans. -/
  move : Span → Span
  /-- The place among the other tokens that belongs to a place. -/
  place : Cursor → Cursor
  /-- No place among the other tokens belongs to this one. -/
  Lost : Cursor → Prop
  current_place : ∀ {c}, ¬ Lost c → (place c).current = c.current.move move
  next_place : ∀ {c}, ¬ Lost c → (place c).next = c.next.move move
  advance_place : ∀ {c}, ¬ Lost c → (place c).advance = place c.advance
  lost_advance : ∀ {c}, Lost c → Lost c.advance

namespace Transfer

/-- The reply that belongs to a reply. -/
def reply (T : Transfer) {α : Type} : Reply α → Reply α
  | .done a es c => .done a (es.map (ParseError.move T.move)) (T.place c)
  | .failed es c => .failed (es.map (ParseError.move T.move)) (T.place c)
  | .exhausted => .exhausted

/-- The reading came to a lost place, or used up its budget. -/
def LostReply (T : Transfer) {α : Type} : Reply α → Prop
  | .done _ _ c => T.Lost c
  | .failed _ c => T.Lost c
  | .exhausted => True

/-- Whatever the one parser does, the other one does among the other tokens, unless it gets lost. -/
def Carries (T : Transfer) {α : Type} (p q : Parser α) : Prop :=
  ∀ c, T.LostReply (p c) ∨ ¬ T.Lost c ∧ q (T.place c) = T.reply (p c)

variable {T : Transfer} {α β : Type}

theorem lostReply_after {r : Reply α} (es : List ParseError) (h : T.LostReply r) :
    T.LostReply (r.after es) := by
  cases r <;> exact h

theorem reply_after (es : List ParseError) (r : Reply α) :
    T.reply (r.after es) = (T.reply r).after (es.map (ParseError.move T.move)) := by
  cases r with
  | exhausted => rfl
  | done a fs c => rw [Reply.after_done, reply, reply, Reply.after_done, List.map_append]
  | failed fs c => rw [Reply.after_failed, reply, reply, Reply.after_failed, List.map_append]

namespace Carries

open Monkey.Parser

section

variable {p q : Parser α} {k l : α → Parser β}

/-- A parser that is run at a lost place stays lost. -/
theorem lostReply (h : T.Carries p q) {c : Cursor} (hc : T.Lost c) : T.LostReply (p c) :=
  (h c).resolve_right fun hkept => hkept.1 hc

/-- A step that reports nothing and moves on at most. -/
theorem of_step {a : Cursor → α} {step : Cursor → Cursor}
    (hp : ∀ c, p c = .done (a c) [] (step c)) (hlost : ∀ {c}, T.Lost c → T.Lost (step c))
    (hq : ∀ {c}, ¬ T.Lost c → q (T.place c) = .done (a c) [] (T.place (step c))) :
    T.Carries p q := by
  intro c
  rw [hp c]
  by_cases hc : T.Lost c
  · exact Or.inl (hlost hc)
  · exact Or.inr ⟨hc, hq hc⟩

theorem pure (a : α) : T.Carries (pure a) (pure a) := of_step (fun _ => rfl) id fun _ => rfl

theorem exhausted : T.Carries (exhausted : Parser α) q := fun _ => Or.inl trivial

theorem advance : T.Carries advance advance := by
  refine of_step (fun _ => rfl) T.lost_advance ?_
  intro c hc
  rw [Parser.advance, T.advance_place hc]

theorem nextIs (sign : Symbol) : T.Carries (nextIs sign) (nextIs sign) := by
  refine of_step (fun _ => rfl) id ?_
  intro c hc
  rw [Parser.nextIs, T.next_place hc]
  rfl

theorem reject (e : ParseError) :
    T.Carries (reject e : Parser α) (reject (e.move T.move)) := by
  intro c
  by_cases hc : T.Lost c
  · exact Or.inl hc
  · exact Or.inr ⟨hc, rfl⟩

theorem rejectNext (expected : TokenClass) :
    T.Carries (rejectNext expected : Parser α) (rejectNext expected) := by
  intro c
  by_cases hc : T.Lost c
  · exact Or.inl hc
  · refine Or.inr ⟨hc, ?_⟩
    rw [Parser.rejectNext, T.next_place hc]
    rfl

/-- A parser that does one thing or another depending on the kind of the next token. -/
theorem of_next {r : Parser α} (test : TokenKind → Bool) (hp : T.Carries p p) (hq : T.Carries q q)
    (h : ∀ c, r c = if test c.next.kind then p c else q c) : T.Carries r r := by
  intro c
  rw [h c]
  by_cases hc : T.Lost c
  · left
    split
    · exact hp.lostReply hc
    · exact hq.lostReply hc
  · rw [h (T.place c), T.next_place hc, Token.kind_move]
    split
    · exact hp c
    · exact hq c

theorem expect (sign : Symbol) : T.Carries (expect sign) (expect sign) :=
  of_next (fun kind => kind = .symbol sign) advance (rejectNext (.symbol sign)) fun c => by
    simp only [Parser.expect, decide_eq_true_eq]

theorem skip (sign : Symbol) : T.Carries (skip sign) (skip sign) :=
  of_next (fun kind => kind = .symbol sign) advance (pure ()) fun c => by
    simp only [Parser.skip, decide_eq_true_eq, pure_apply]

theorem expectName : T.Carries expectName expectName := by
  intro c
  by_cases hc : T.Lost c
  · left
    rw [Parser.expectName]
    split
    · exact T.lost_advance hc
    · exact hc
  · refine Or.inr ⟨hc, ?_⟩
    rw [Parser.expectName, Parser.expectName, T.next_place hc, Token.kind_move]
    split
    · rw [T.advance_place hc]
      rfl
    · rw [Parser.rejectNext, T.next_place hc]
      rfl

theorem bind (hp : T.Carries p q) (hk : ∀ a, T.Carries (k a) (l a)) :
    T.Carries (p >>= k) (q >>= l) := by
  intro c
  have hfirst := hp c
  cases hpc : p c with
  | done a es d =>
    rw [hpc] at hfirst
    rw [bind_done hpc]
    -- the budget of the first run is lost in the second part, or in none
    rcases hk a d with hlost | ⟨hd, hsecond⟩
    · exact Or.inl (lostReply_after es hlost)
    · obtain ⟨hc, hq⟩ := hfirst.resolve_left hd
      refine Or.inr ⟨hc, ?_⟩
      rw [bind_done hq, hsecond, reply_after]
  | failed es d =>
    rw [hpc] at hfirst
    rw [bind_failed hpc]
    rcases hfirst with hlost | ⟨hc, hq⟩
    · exact Or.inl hlost
    · exact Or.inr ⟨hc, bind_failed hq l⟩
  | exhausted =>
    rw [bind_exhausted hpc]
    exact Or.inl trivial

theorem attempt (hp : T.Carries p q) : T.Carries (attempt p) (attempt q) := by
  intro c
  have hfirst := hp c
  rw [Parser.attempt, Parser.attempt]
  cases hpc : p c with
  | exhausted => exact Or.inl trivial
  | _ =>
    rw [hpc] at hfirst
    rcases hfirst with hlost | ⟨hc, hq⟩
    · exact Or.inl hlost
    · refine Or.inr ⟨hc, ?_⟩
      rw [hq]
      rfl

theorem ite {condition : Prop} [Decidable condition] {p' q' : Parser α} (hp : T.Carries p q)
    (hp' : T.Carries p' q') :
    T.Carries (if condition then p else p') (if condition then q else q') := by
  split
  · exact hp
  · exact hp'

end

section

variable {k l : Token → Parser β}

/-- What follows the current token may report its span. -/
theorem current (h : ∀ t : Token, T.Carries (k t) (l (t.move T.move))) :
    T.Carries (current >>= k) (current >>= l) := by
  intro c
  have hcurrent := h c.current c
  rw [bind_clean (current_apply c)]
  rcases hcurrent with hlost | ⟨hc, hq⟩
  · exact Or.inl hlost
  · refine Or.inr ⟨hc, ?_⟩
    rw [bind_clean (current_apply _), T.current_place hc, hq]

theorem next (h : ∀ t : Token, T.Carries (k t) (l (t.move T.move))) :
    T.Carries (next >>= k) (next >>= l) := by
  intro c
  have hnext := h c.next c
  rw [bind_clean (next_apply c)]
  rcases hnext with hlost | ⟨hc, hq⟩
  · exact Or.inl hlost
  · refine Or.inr ⟨hc, ?_⟩
    rw [bind_clean (next_apply _), T.next_place hc, hq]

end

end Carries

/-! ### Every production runs there as it runs here -/

open Monkey.Parser

theorem moreNames_carries : ∀ {n m : Nat}, n ≤ m → T.Carries (moreNames n) (moreNames m)
  | 0, _, _ => .exhausted
  | _ + 1, 0, h => absurd h (Nat.not_succ_le_zero _)
  | n + 1, m + 1, h => by
    refine .bind (.nextIs _) fun _ => .ite ?_ (.pure _)
    refine .bind .advance fun _ => .bind .expectName fun _ => ?_
    exact .bind (moreNames_carries (Nat.le_of_succ_le_succ h)) fun _ => .pure _

theorem paramList_carries {n m : Nat} (h : n ≤ m) : T.Carries (paramList n) (paramList m) := by
  refine .bind (.expect _) fun _ => .bind (.nextIs _) fun _ => .ite ?_ ?_
  · exact .bind .advance fun _ => .pure _
  · refine .bind .expectName fun _ => .bind (moreNames_carries h) fun _ => ?_
    exact .bind (.expect _) fun _ => .pure _

section

variable {expr expr' : Precedence → Parser Expr}
  (he : ∀ level, T.Carries (expr level) (expr' level))
  {n m : Nat}
include he

theorem moreExprs_carries : ∀ {n m : Nat}, n ≤ m →
    T.Carries (moreExprs expr n) (moreExprs expr' m)
  | 0, _, _ => .exhausted
  | _ + 1, 0, h => absurd h (Nat.not_succ_le_zero _)
  | n + 1, m + 1, h => by
    refine .bind (.nextIs _) fun _ => .ite ?_ (.pure _)
    refine .bind .advance fun _ => .bind .advance fun _ => .bind (he _) fun _ => ?_
    exact .bind (moreExprs_carries (Nat.le_of_succ_le_succ h)) fun _ => .pure _

theorem exprList_carries (closer : Symbol) (h : n ≤ m) :
    T.Carries (exprList expr closer n) (exprList expr' closer m) := by
  refine .bind (.nextIs _) fun _ => .ite ?_ ?_
  · exact .bind .advance fun _ => .pure _
  · refine .bind .advance fun _ => .bind (he _) fun _ => ?_
    refine .bind (moreExprs_carries he h) fun _ => ?_
    exact .bind (.expect _) fun _ => .pure _

theorem bareStatement_carries (kind : TokenKind) :
    T.Carries (bareStatement expr kind) (bareStatement expr' kind) := by
  unfold bareStatement
  split
  · refine .bind .expectName fun _ => .bind (.expect _) fun _ => ?_
    exact .bind .advance fun _ => .bind (he _) fun _ => .pure _
  · exact .bind .advance fun _ => .bind (he _) fun _ => .pure _
  · exact .bind (he _) fun _ => .pure _

theorem statement_carries : T.Carries (statement expr) (statement expr') := by
  have hend : ∀ s : Stmt, T.Carries (Parser.skip .semicolon >>= fun _ => Pure.pure s)
      (Parser.skip .semicolon >>= fun _ => Pure.pure s) := fun s => .bind (.skip _) fun _ => .pure s
  intro c
  have hbare := Carries.bind (bareStatement_carries he c.current.kind) hend c
  rw [statement_apply]
  rcases hbare with hlost | ⟨hc, hq⟩
  · exact Or.inl hlost
  · refine Or.inr ⟨hc, ?_⟩
    rw [statement_apply, T.current_place hc, Token.kind_move]
    exact hq

theorem blockStatements_carries : ∀ {n m : Nat}, n ≤ m →
    T.Carries (blockStatements expr n) (blockStatements expr' m)
  | 0, _, _ => .exhausted
  | _ + 1, 0, h => absurd h (Nat.not_succ_le_zero _)
  | n + 1, m + 1, h => by
    refine .current fun token => .ite (.pure _) (.ite (.reject _) ?_)
    refine .bind (.attempt (statement_carries he)) fun _ => .bind .advance fun _ => ?_
    exact .bind (blockStatements_carries (Nat.le_of_succ_le_succ h)) fun _ => .pure _

theorem block_carries (h : n ≤ m) : T.Carries (block expr n) (block expr' m) :=
  .bind (.expect _) fun _ => .bind .advance fun _ => blockStatements_carries he h

theorem literalParts_carries (h : n ≤ m) :
    T.Carries (literalParts expr n) (literalParts expr' m) :=
  .bind (paramList_carries h) fun _ => .bind (block_carries he h) fun _ => .pure _

theorem elseBranch_carries (h : n ≤ m) : T.Carries (elseBranch expr n) (elseBranch expr' m) :=
  .next fun _ => .ite
    (.bind .advance fun _ => .bind (block_carries he h) fun _ => .pure _) (.pure _)

theorem conditional_carries (h : n ≤ m) : T.Carries (conditional expr n) (conditional expr' m) := by
  refine .bind (.expect _) fun _ => .bind .advance fun _ => .bind (he _) fun _ => ?_
  refine .bind (.expect _) fun _ => .bind (block_carries he h) fun _ => ?_
  exact .bind (elseBranch_carries he h) fun _ => .pure _

theorem grouped_carries : T.Carries (grouped expr) (grouped expr') :=
  .bind .advance fun _ => .bind (he _) fun _ => .bind (.expect _) fun _ => .pure _

theorem hashPairs_carries : ∀ {n m : Nat}, n ≤ m →
    T.Carries (hashPairs expr n) (hashPairs expr' m)
  | 0, _, _ => .exhausted
  | _ + 1, 0, h => absurd h (Nat.not_succ_le_zero _)
  | n + 1, m + 1, h => by
    have hrest := hashPairs_carries (Nat.le_of_succ_le_succ h)
    refine .bind (.nextIs _) fun _ => .ite (.bind .advance fun _ => .pure _) ?_
    refine .bind .advance fun _ => .bind (he _) fun _ => .bind (.expect _) fun _ => ?_
    refine .bind .advance fun _ => .bind (he _) fun _ => .bind (.nextIs _) fun _ => ?_
    dsimp only
    split
    · exact .bind hrest fun _ => .pure _
    · exact .bind (.expect _) fun _ => .bind hrest fun _ => .pure _

theorem signed_carries (op : PrefixOp) : T.Carries (signed expr op) (signed expr' op) :=
  .bind .advance fun _ => .bind (he _) fun _ => .pure _

theorem operand_carries (h : n ≤ m) : T.Carries (operand expr n) (operand expr' m) := by
  refine .current fun token => ?_
  rw [Token.kind_move]
  cases token.kind with
  | ident | int | str => exact .pure _
  | bigInt | illegal | eof => exact .reject _
  | keyword word =>
    cases word with
    | kwTrue | kwFalse => exact .pure _
    | kwIf => exact conditional_carries he h
    | kwFn | kwMacro => exact .bind (literalParts_carries he h) fun _ => .pure _
    | _ => exact .reject _
  | symbol sign =>
    cases sign with
    | bang | minus => exact signed_carries he _
    | lparen => exact grouped_carries he
    | lbracket => exact .bind (exprList_carries he _ h) fun _ => .pure _
    | lbrace => exact .bind (hashPairs_carries he h) fun _ => .pure _
    | _ => exact .reject _

theorem suffix_carries (h : n ≤ m) (left : Expr) (s : Suffix) :
    T.Carries (suffix expr n left s) (suffix expr' m left s) := by
  cases s with
  | operator op => exact .bind .advance fun _ => .bind (he _) fun _ => .pure _
  | call => exact .bind (exprList_carries he _ h) fun _ => .pure _
  | index =>
    refine .bind .advance fun _ => .bind (he _) fun _ => ?_
    exact .bind (.expect _) fun _ => .pure _

theorem suffixes_carries (level : Precedence) (h : n ≤ m) : ∀ {i j : Nat}, i ≤ j → ∀ left,
    T.Carries (suffixes expr level n i left) (suffixes expr' level m j left)
  | 0, _, _, _ => .exhausted
  | _ + 1, 0, hij, _ => absurd hij (Nat.not_succ_le_zero _)
  | i + 1, j + 1, hij, left => by
    refine .next fun token => ?_
    rw [Token.kind_move]
    cases Suffix.ofKind? token.kind with
    | none => exact .pure _
    | some s =>
      refine .ite ?_ (.pure _)
      refine .bind .advance fun _ => .bind (suffix_carries he h left s) fun e => ?_
      exact suffixes_carries level h (Nat.le_of_succ_le_succ hij) e

/-- **Statements are read there as they are read here.** -/
theorem statementsToEnd_carries : ∀ {n m : Nat}, n ≤ m →
    T.Carries (statementsToEnd expr n) (statementsToEnd expr' m)
  | 0, _, _ => .exhausted
  | _ + 1, 0, h => absurd h (Nat.not_succ_le_zero _)
  | n + 1, m + 1, h => by
    refine .current fun token => .ite (.pure _) ?_
    refine .bind (.attempt (statement_carries he)) fun _ => .bind .advance fun _ => ?_
    exact .bind (statementsToEnd_carries (Nat.le_of_succ_le_succ h)) fun _ => .pure _

end

/-- **Expressions are read there as they are read here**, with a larger budget as well. -/
theorem expression_carries : ∀ {n m : Nat}, n ≤ m → ∀ level,
    T.Carries (expression n level) (expression m level)
  | 0, _, _, _ => .exhausted
  | _ + 1, 0, h, _ => absurd h (Nat.not_succ_le_zero _)
  | n + 1, m + 1, h, level => by
    have he := expression_carries (Nat.le_of_succ_le_succ h)
    exact .bind (operand_carries he h) fun e => suffixes_carries he level h h e

end Transfer

end Monkey
