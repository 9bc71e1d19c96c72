import Monkey.Proofs.Laws
import Monkey.Proofs.Shielding

/-!
# Reading always makes progress

A cursor moves towards the last token only, and at the last token it stays where it is.  So it is
not the cursor alone that keeps reading from going round in circles: a loop over statements stops at
an end token, one over names or expressions needs a comma for another round, and a round over pairs
fails at the last token, since no key starts there.  Likewise, whatever reads an expression inside
of another one has first moved over a token of the outer one.

Which expressions are read inside of another one can be seen from the answers: nothing makes up for
a missing answer.  So if the parser of inner expressions is without an answer from some place,
reading is without an answer if it comes to that place, and reads as ever if it does not.

## Main definitions

* `Cursor.After` — a later place.
* `Parser.Enters`, `Active` — reading comes to an expression; the expressions that are being read.
* `Parser.rounds`, `Parser.Loops` — the loops of the grammar, round by round.

## Main results

* `Active.after` — **an expression inside of another one starts later.**
* `Parser.loops_program` and others — **a round that does not leave its loop ends later than it
  starts.**
* `parsing_makes_progress` — **reading ends, whatever the tokens.**
-/

namespace Monkey

namespace Cursor

/-- One cursor is at a later place among the same tokens than another one. -/
def After (d c : Cursor) : Prop := d.tokens <:+ c.tokens ∧ d.tokens ≠ c.tokens

variable {c d e : Cursor}

theorem After.length_lt (h : d.After c) : d.tokens.length < c.tokens.length :=
  Nat.lt_of_le_of_ne h.1.length_le fun heq => h.2 (h.1.eq_of_length heq)

theorem After.of_suffix (h : d.After c) (he : e.tokens <:+ d.tokens) : e.After c := by
  refine ⟨he.trans h.1, fun heq => ?_⟩
  have hlt := h.length_lt
  have hle := he.length_le
  rw [heq] at hle
  omega

theorem After.trans (h : e.After d) (h' : d.After c) : e.After c := h'.of_suffix h.1

/-- Where tokens are ahead, the next place is a later one. -/
theorem after_advance (h : c.ahead ≠ []) : c.advance.After c := by
  refine ⟨c.tokens_advance_suffix, fun heq => ?_⟩
  have hlength := congrArg List.length (kinds_advance_of_ne_nil h)
  have hsame := congrArg List.length heq
  simp only [tokens, kinds, ahead, List.length_cons, List.length_map] at hlength hsame
  omega

/-- Going on one token makes a later place of one that is not earlier. -/
theorem after_advance_of_suffix (h : c.ahead ≠ []) (hd : d.tokens <:+ c.tokens) :
    d.advance.After c := by
  by_cases heq : d.tokens = c.tokens
  · obtain ⟨current, rest⟩ := c
    obtain ⟨current', rest'⟩ := d
    cases heq
    exact after_advance h
  · exact After.of_suffix ⟨hd, heq⟩ d.tokens_advance_suffix

/-- Wherever the cursor is among the tokens that are read, the last one is an end token. -/
theorem closed_of_suffix {tokens : List Token} (h : c.tokens <:+ closeTokens tokens) :
    c.Closed := by
  obtain ⟨before, hwhole⟩ := h
  have hkinds : c.tokens.map Token.kind ≠ [] := List.cons_ne_nil _ _
  have hclosed := closed_ofTokens tokens
  rw [Closed, kinds_ofTokens, ← hwhole, List.map_append,
    List.getLast?_append_of_ne_nil _ hkinds] at hclosed
  exact hclosed

end Cursor

namespace Parser

/-! ### The cursor only moves on -/

/-- Wherever a parser stops, it is not before where it started. -/
def Law.onward : Law where
  Done c _ d := d.tokens <:+ c.tokens
  Failed c _ d := d.tokens <:+ c.tokens
  stay _ := List.suffix_refl _
  move := Cursor.tokens_advance_suffix
  trans h h' := h'.trans h
  fail h h' := h'.trans h
  blameCurrent _ := List.suffix_refl _
  blameNext _ := List.suffix_refl _
  recover h := (Cursor.tokens_advance_suffix _).trans h

section

variable {α : Type} {p : Parser α} {c d : Cursor} {a : α} {es : List ParseError}

theorem suffix_of_done (hp : Law.onward.Keeps p) (h : p c = .done a es d) :
    d.tokens <:+ c.tokens := by
  have hc := hp c
  rwa [h] at hc

/-- A parser that begins with the next token. -/
theorem after_of_advance {k : Unit → Parser α} (hk : Law.onward.Keeps (k ())) (hc : c.ahead ≠ [])
    (h : (advance >>= k) c = .done a es d) : d.After c := by
  have hadvance : advance c = .done () [] c.advance := rfl
  rw [bind_clean hadvance] at h
  exact (Cursor.after_advance hc).of_suffix (suffix_of_done hk h)

/-- A part that may fail, and the next token. -/
theorem after_of_attempt {β : Type} {p : Parser β} {k : Option β → Parser α}
    (hp : Law.onward.Keeps p) (hk : ∀ o, Law.onward.Keeps (k o)) (hc : c.ahead ≠ [])
    (h : (attempt p >>= fun o => advance >>= fun _ => k o) c = .done a es d) : d.After c := by
  -- wherever the attempt ends, a token is taken after it
  have hgo : ∀ o fs e, e.tokens <:+ c.tokens → attempt p c = .done o fs e → d.After c := by
    intro o fs e he hattempt
    have hadvance : advance e = .done () [] e.advance := rfl
    rw [bind_done hattempt, bind_clean hadvance] at h
    cases hrest : k o e.advance with
    | done b gs e' =>
      rw [hrest] at h
      cases h
      exact (Cursor.after_advance_of_suffix hc he).of_suffix (suffix_of_done (hk o) hrest)
    | _ =>
      rw [hrest] at h
      cases h
  have hfirst := hp c
  cases hpc : p c with
  | done b fs e =>
    rw [hpc] at hfirst
    exact hgo (some b) fs e hfirst (by rw [attempt, hpc])
  | failed fs e =>
    rw [hpc] at hfirst
    exact hgo none fs e hfirst (by rw [attempt, hpc])
  | exhausted =>
    have hattempt : attempt p c = .exhausted := by rw [attempt, hpc]
    rw [bind_exhausted hattempt] at h
    cases h

end

end Parser

/-! ### Reading ends -/

/-- Reading the same tokens again. -/
def Transfer.refl : Transfer where
  move := id
  place := id
  Lost _ := False
  current_place _ := rfl
  next_place _ := rfl
  advance_place _ := rfl
  lost_advance h := h

theorem Transfer.reply_refl {α : Type} (r : Reply α) : Transfer.refl.reply r = r := by
  have hmove : ParseError.move Transfer.refl.move = id := by
    funext e
    cases e <;> rfl
  cases r with
  | exhausted => rfl
  | _ =>
    rw [Transfer.reply, hmove, List.map_id]
    rfl

/-- With a larger budget, or with more answers from the parser of inner expressions, a parser that
has an answer has the same one. -/
theorem Transfer.Carries.eq_of_ne_exhausted {α : Type} {p q : Parser α}
    (h : Transfer.refl.Carries p q) {c : Cursor} (hp : p c ≠ .exhausted) : q c = p c := by
  rcases h c with hlost | ⟨-, hq⟩
  · cases hpc : p c with
    | exhausted => exact absurd hpc hp
    | _ =>
      rw [hpc] at hlost
      exact hlost.elim
  · exact hq.trans (Transfer.reply_refl _)

namespace Parser

/-- The budget that is used for a list of tokens is as good as a larger one. -/
theorem program_eq_of_le (tokens : List Token) {budget : Nat} (h : tokens.length + 2 ≤ budget) :
    program budget (Cursor.ofTokens tokens) =
      program (tokens.length + 2) (Cursor.ofTokens tokens) :=
  (Transfer.statementsToEnd_carries (Transfer.expression_carries h) h).eq_of_ne_exhausted
    (program_ne_exhausted tokens)

/-! ### Expressions inside of expressions -/

instance {α : Type} : ∀ r : Reply α, Decidable (r = .exhausted)
  | .done .. => .isFalse nofun
  | .failed .. => .isFalse nofun
  | .exhausted => .isTrue rfl

/-- The same parser of expressions, but without an answer from one place at one level. -/
def without (expr : Precedence → Parser Expr) (level : Precedence) (d : Cursor) :
    Precedence → Parser Expr :=
  fun level' c => if level' = level ∧ c = d then .exhausted else expr level' c

/-- Running a parser comes to an inner expression that is read at `level` from `d`: the parser has
an answer, which it has not if there is none for that expression. -/
def Enters {α : Type} (p : (Precedence → Parser Expr) → Parser α)
    (expr : Precedence → Parser Expr) (c : Cursor) (level : Precedence) (d : Cursor) : Prop :=
  p expr c ≠ .exhausted ∧ p (without expr level d) c = .exhausted

instance {α : Type} (p : (Precedence → Parser Expr) → Parser α) (expr : Precedence → Parser Expr)
    (c : Cursor) (level : Precedence) (d : Cursor) : Decidable (Enters p expr c level d) :=
  inferInstanceAs (Decidable (_ ∧ _))

section

variable {track : List Token} {expr : Precedence → Parser Expr} {n m budget : Nat}
  {level inner : Precedence} {c d : Cursor}

theorem Reading.mono (h : Reading track expr n) (hm : m ≤ n) : Reading track expr m :=
  fun level c hc hlength => h level c hc (Nat.lt_of_lt_of_le hlength hm)

/-- An answer that is not needed may be missing. -/
theorem Reading.without (h : Reading track expr n)
    (hd : ¬ (d.On track ∧ d.ahead.length < n ∧ inner.rank ≤ Precedence.sign.rank)) :
    Reading track (without expr inner d) n := by
  intro level c hc hlength hlevel
  have hother : ¬ (level = inner ∧ c = d) := by
    rintro ⟨rfl, rfl⟩
    exact hd ⟨hc, hlength, hlevel⟩
  have haccounts := h level c hc hlength hlevel
  unfold Accounts at haccounts ⊢
  rwa [Parser.without, if_neg hother]

/-- An expression inside of another one has fewer tokens ahead. -/
theorem Enters.of_wholeExpression
    (henters : Enters (wholeExpression · budget level) expr c inner d) (h : Reading track expr n)
    (hlevel : level.rank ≤ Precedence.sign.rank) (hn : n < budget) (hc : c.On track)
    (hlength : c.ahead.length ≤ n) :
    d.On track ∧ d.ahead.length < c.ahead.length ∧ inner.rank ≤ Precedence.sign.rank := by
  by_contra hd
  have haccounts := wholeExpression_accounts ((h.mono hlength).without hd) hlevel
    (Nat.lt_of_le_of_lt hlength hn) hc (Nat.le_refl _)
  exact haccounts.ne_exhausted henters.2

/-- An expression of a program starts among its tokens. -/
theorem Enters.of_statementsToEnd
    (henters : Enters (statementsToEnd · budget) expr c inner d) (h : Reading track expr n)
    (hc : c.On track) (hlength : c.ahead.length < n) (hbudget : c.ahead.length < budget) :
    d.On track ∧ d.ahead.length < n ∧ inner.rank ≤ Precedence.sign.rank := by
  by_contra hd
  have haccounts := statementsToEnd_accounts (h.without hd) budget c hc hlength hbudget
  exact haccounts.ne_exhausted henters.2

end

end Parser

open Monkey.Parser

/-- At some moment of reading, an expression that started at the cursor is being read inside of
others, which started at the cursors of the list, the innermost first.  The budget is the one for
what is inside of the first expression. -/
inductive Active (tokens : List Token) : Nat → Precedence → Cursor → List Cursor → Prop
  | outermost {level : Precedence} {d : Cursor} :
    Enters (statementsToEnd · (tokens.length + 2)) (expression (tokens.length + 2))
      (Cursor.ofTokens tokens) level d →
    Active tokens (tokens.length + 2) level d []
  | inside {n : Nat} {level inner : Precedence} {c d : Cursor} {outer : List Cursor} :
    Active tokens (n + 1) level c outer →
    Enters (wholeExpression · (n + 1) level) (expression n) c inner d →
    Active tokens n inner d (c :: outer)

theorem Cursor.On.after {track : List Token} {c d : Cursor} (hd : d.On track) (hc : c.On track)
    (h : d.ahead.length < c.ahead.length) : d.After c := by
  have hlength : d.tokens.length < c.tokens.length := by
    simp only [ahead, List.length_map] at h
    simp only [tokens, List.length_cons]
    omega
  refine ⟨List.suffix_of_suffix_length_le hd.suffix hc.suffix (Nat.le_of_lt hlength), ?_⟩
  intro heq
  rw [heq] at hlength
  omega

namespace Active

variable {tokens : List Token} {n : Nat} {level inner : Precedence} {c d : Cursor}
  {outer : List Cursor}

/-- What is being read started among the tokens, where the budget was enough. -/
theorem on (h : Active tokens n level d outer) :
    d.On (closeTokens tokens) ∧ d.ahead.length < n ∧ level.rank ≤ Precedence.sign.rank := by
  induction h with
  | outermost henters =>
    have hlength := Cursor.length_ahead_ofTokens tokens
    exact henters.of_statementsToEnd (expression_accounts _) (Cursor.on_ofTokens tokens) (by omega)
      (by omega)
  | @inside n level inner c d outer _ henters ih =>
    obtain ⟨hc, hlength, hlevel⟩ := ih
    obtain ⟨hd, hless, hinner⟩ := henters.of_wholeExpression (expression_accounts n) hlevel
      (Nat.lt_succ_self n) hc (Nat.le_of_lt_succ hlength)
    exact ⟨hd, by omega, hinner⟩

theorem forall_on (h : Active tokens n level d outer) :
    ∀ c ∈ d :: outer, c.On (closeTokens tokens) := by
  induction h with
  | outermost henters =>
    rw [List.forall_mem_singleton]
    exact (Active.outermost henters).on.1
  | inside h henters ih => exact List.forall_mem_cons.2 ⟨(h.inside henters).on.1, ih⟩

/-- **An expression inside of another one starts later.** -/
theorem after (h : Active tokens n level d (c :: outer)) : d.After c := by
  cases h with
  | inside h henters =>
    obtain ⟨hc, hlength, hlevel⟩ := h.on
    obtain ⟨hd, hless, -⟩ := henters.of_wholeExpression (expression_accounts _) hlevel
      (Nat.lt_succ_self _) hc (Nat.le_of_lt_succ hlength)
    exact hd.after hc hless

/-- Each of the expressions starts later than all those around it. -/
theorem pairwise_after (h : Active tokens n level d outer) :
    (d :: outer).Pairwise Cursor.After := by
  induction h with
  | outermost => exact List.pairwise_singleton _ _
  | @inside n level inner c d outer h henters ih =>
    have hafter := (h.inside henters).after
    refine List.pairwise_cons.2 ⟨List.forall_mem_cons.2 ⟨hafter, fun e he => ?_⟩, ih⟩
    exact hafter.trans ((List.pairwise_cons.1 ih).1 e he)

/-- With each expression around it, an expression has at least one token less. -/
theorem length_le (h : Active tokens n level d outer) :
    outer.length + d.tokens.length ≤ (closeTokens tokens).length := by
  induction h with
  | outermost henters =>
    have hon := (Active.outermost henters).on.1
    rw [List.length_nil, Nat.zero_add]
    exact hon.suffix.length_le
  | @inside n level inner c d outer h henters ih =>
    have hless := (h.inside henters).after.length_lt
    rw [List.length_cons]
    omega

end Active

/-! ### Loops, round by round -/

namespace Parser

section

variable (expr : Precedence → Parser Expr)

/-- A statement, which is dropped if it fails, and the next token. -/
def statementRound : Parser (Option (List Stmt)) := do
  let s ← attempt (statement expr)
  advance
  return some s.toList

/-- One round over the statements of a program: none at the end. -/
def programRound : Parser (Option (List Stmt)) := do
  let token ← current
  if token.kind = .eof then return none else statementRound expr

/-- One round over the statements of a block: none at the closing brace. -/
def blockRound : Parser (Option (List Stmt)) := do
  let token ← current
  if token.kind = .symbol .rbrace then return none
  else if token.kind = .eof then
    reject (.unexpectedToken (.symbol .rbrace) .eof token.span)
  else statementRound expr

/-- One round over arguments or elements: none unless a comma comes next. -/
def argumentRound : Parser (Option (List Expr)) := do
  if ← nextIs .comma then
    advance
    advance
    let e ← expr .lowest
    return some [e]
  else return none

/-- One round over parameters: none unless a comma comes next. -/
def parameterRound : Parser (Option (List String)) := do
  if ← nextIs .comma then
    advance
    let name ← expectName
    return some [name]
  else return none

/-- A pair of a hash literal, with a comma after it unless it is the last one. -/
def pair : Parser (Expr × Expr) := do
  let key ← expr .lowest
  expect .colon
  advance
  let value ← expr .lowest
  unless ← nextIs .rbrace do expect .comma
  return (key, value)

/-- One round over the pairs of a hash literal: none if the closing brace comes next. -/
def pairRound : Parser (Option (List (Expr × Expr))) := do
  if ← nextIs .rbrace then
    advance
    return none
  else
    advance
    let entry ← pair expr
    return some [entry]

/-- A loop: it goes round until it is left, by a round that answers `none` or by one that fails. -/
def rounds {α : Type} (round : Parser (Option (List α))) : Nat → Parser (List α)
  | 0 => exhausted
  | n + 1 => do
    match ← round with
    | none => return []
    | some items =>
      let rest ← rounds round n
      return items ++ rest

variable {expr}

theorem statementsToEnd_eq_rounds : ∀ n, statementsToEnd expr n = rounds (programRound expr) n
  | 0 => rfl
  | n + 1 => by
    rw [statementsToEnd, rounds, ← statementsToEnd_eq_rounds n, programRound, bind_assoc]
    refine bind_congr fun token => ?_
    split
    · rfl
    · simp only [statementRound, bind_assoc, pure_bind]

theorem blockStatements_eq_rounds : ∀ n, blockStatements expr n = rounds (blockRound expr) n
  | 0 => rfl
  | n + 1 => by
    rw [blockStatements, rounds, ← blockStatements_eq_rounds n, blockRound, bind_assoc]
    refine bind_congr fun token => ?_
    split
    · rfl
    split
    · rfl
    · simp only [statementRound, bind_assoc, pure_bind]

theorem moreExprs_eq_rounds : ∀ n, moreExprs expr n = rounds (argumentRound expr) n
  | 0 => rfl
  | n + 1 => by
    rw [moreExprs, rounds, ← moreExprs_eq_rounds n, argumentRound, bind_assoc]
    refine bind_congr fun found => ?_
    split
    · simp only [bind_assoc, pure_bind, List.singleton_append]
    · rfl

theorem moreNames_eq_rounds : ∀ n, moreNames n = rounds parameterRound n
  | 0 => rfl
  | n + 1 => by
    rw [moreNames, rounds, ← moreNames_eq_rounds n, parameterRound, bind_assoc]
    refine bind_congr fun found => ?_
    split
    · simp only [bind_assoc, pure_bind, List.singleton_append]
    · rfl

theorem hashPairs_eq_rounds : ∀ n, hashPairs expr n = rounds (pairRound expr) n
  | 0 => rfl
  | n + 1 => by
    rw [hashPairs, rounds, ← hashPairs_eq_rounds n, pairRound, bind_assoc]
    refine bind_congr fun found => ?_
    split
    · rfl
    · simp only [pair, bind_assoc]
      refine bind_congr fun _ => bind_congr fun key => bind_congr fun _ => bind_congr fun _ => ?_
      refine bind_congr fun value => bind_congr fun last => ?_
      -- no comma is needed after the last pair
      split
      · rfl
      · simp only [bind_assoc, pure_bind, List.singleton_append]

/-! ### A round moves on -/

variable {n : Nat} {c d : Cursor} {es : List ParseError}

/-- No expression starts at the end. -/
theorem expression_of_eof (h : c.current.kind = .eof) (n : Nat) (level : Precedence) {e : Expr} :
    expression n level c ≠ .done e es d := by
  intro hdone
  cases n with
  | zero => cases hdone
  | succ n =>
    have hoperand : operand (expression n) (n + 1) c =
        .failed [.noPrefixRule .eof c.current.span] c := by
      unfold operand
      rw [bind_clean (current_apply c), h]
      rfl
    unfold expression at hdone
    rw [bind_failed hoperand] at hdone
    cases hdone

theorem ahead_ne_nil_of_current (hc : c.Closed) (h : c.current.kind ≠ .eof) : c.ahead ≠ [] := by
  rw [hc.ahead_of_current h]
  exact List.cons_ne_nil _ _

theorem ahead_ne_nil_of_next (hc : c.Closed) {sign : Symbol} (h : c.next.kind = .symbol sign) :
    c.ahead ≠ [] := by
  rw [hc.ahead_of_next (by rw [h]; simp)]
  exact List.cons_ne_nil _ _

/-- A statement and the next token. -/
theorem after_of_statementRound {items : List Stmt} (hc : c.Closed)
    (hcurrent : c.current.kind ≠ .eof)
    (h : statementRound (expression n) c = .done (some items) es d) : d.After c :=
  after_of_attempt (Law.statement_keeps (Law.expression_keeps n)) (fun _ => .pure _)
    (ahead_ne_nil_of_current hc hcurrent) h

theorem after_of_programRound {items : List Stmt} (hc : c.Closed)
    (h : programRound (expression n) c = .done (some items) es d) : d.After c := by
  rw [programRound, bind_clean (current_apply c)] at h
  split at h
  · cases h
  · next heof => exact after_of_statementRound hc heof h

theorem after_of_blockRound {items : List Stmt} (hc : c.Closed)
    (h : blockRound (expression n) c = .done (some items) es d) : d.After c := by
  rw [blockRound, bind_clean (current_apply c)] at h
  split at h
  · cases h
  split at h
  · cases h
  · next heof => exact after_of_statementRound hc heof h

/-- A round that begins with a comma. -/
theorem after_of_comma {α : Type} {k : Unit → Parser (Option α)} {a : α}
    (hk : Law.onward.Keeps (k ())) (hc : c.Closed)
    (h : (nextIs .comma >>= fun found => if found then advance >>= k else pure none) c =
      .done (some a) es d) : d.After c := by
  have hnext : nextIs .comma c = .done (c.next.kind = .symbol .comma) [] c := rfl
  rw [bind_clean hnext] at h
  split at h
  · next hcomma => exact after_of_advance hk (ahead_ne_nil_of_next hc (of_decide_eq_true hcomma)) h
  · cases h

theorem after_of_argumentRound {items : List Expr} (hc : c.Closed)
    (h : argumentRound (expression n) c = .done (some items) es d) : d.After c :=
  after_of_comma (.bind .advance fun _ => .bind (Law.expression_keeps n _) fun _ => .pure _) hc h

theorem after_of_parameterRound {items : List String} (hc : c.Closed)
    (h : parameterRound c = .done (some items) es d) : d.After c :=
  after_of_comma (.bind .expectName fun _ => .pure _) hc h

theorem pair_onward (n : Nat) : Law.onward.Keeps (pair (expression n)) := by
  have hexpr : ∀ level, Law.onward.Keeps (expression n level) := Law.expression_keeps n
  refine .bind (hexpr _) fun key => .bind (.expect _) fun _ => .bind .advance fun _ => ?_
  refine .bind (hexpr _) fun value => .bind (.nextIs _) fun last => ?_
  dsimp only
  split
  · exact .pure _
  · exact .bind (.expect _) fun _ => .pure _

/-- A pair begins after the current token, which is not the last one since a key has been read. -/
theorem after_of_pairRound {items : List (Expr × Expr)} (hc : c.Closed)
    (h : pairRound (expression n) c = .done (some items) es d) : d.After c := by
  have hnext : nextIs .rbrace c = .done (c.next.kind = .symbol .rbrace) [] c := rfl
  rw [pairRound, bind_clean hnext] at h
  split at h
  · cases h
  refine after_of_advance (.bind (pair_onward n) fun _ => .pure _) (fun hnil => ?_) h
  -- where nothing is left the key would have to be read from the end
  have hstay : advance c = .done () [] c := by rw [advance, Cursor.advance_of_nil hnil]
  rw [bind_clean hstay] at h
  cases hkey : expression n .lowest c with
  | done key fs e => exact expression_of_eof (hc.current_of_nil hnil) n .lowest hkey
  | failed fs e =>
    have hpair : pair (expression n) c = .failed fs e := bind_failed hkey _
    rw [bind_failed hpair] at h
    cases h
  | exhausted =>
    have hpair : pair (expression n) c = .exhausted := bind_exhausted hkey _
    rw [bind_exhausted hpair] at h
    cases h

end

/-- A loop goes by rounds that never move back, and a round that does not leave it ends later than
it starts. -/
structure Loops {α : Type} (loop : Nat → Parser (List α)) (round : Parser (Option (List α))) :
    Prop where
  eq_rounds : ∀ n, loop n = rounds round n
  onward : Law.onward.Keeps round
  after : ∀ {c d : Cursor} {items : List α} {es : List ParseError}, c.Closed →
    round c = .done (some items) es d → d.After c

section

variable (n : Nat)

theorem statementRound_onward : Law.onward.Keeps (statementRound (expression n)) :=
  .round (Law.statement_keeps (Law.expression_keeps n)) fun _ => .pure _

theorem loops_program : Loops (statementsToEnd (expression n)) (programRound (expression n)) where
  eq_rounds := statementsToEnd_eq_rounds
  onward := .bind (Law.onward.stay) fun _ => .ite (.pure _) (statementRound_onward n)
  after := after_of_programRound

theorem loops_block : Loops (blockStatements (expression n)) (blockRound (expression n)) where
  eq_rounds := blockStatements_eq_rounds
  onward := .bind (Law.onward.stay) fun _ =>
    .ite (.pure _) (.ite Law.onward.stay (statementRound_onward n))
  after := after_of_blockRound

theorem loops_arguments : Loops (moreExprs (expression n)) (argumentRound (expression n)) where
  eq_rounds := moreExprs_eq_rounds
  onward := .bind (.nextIs _) fun _ => .ite
    (.bind .advance fun _ => .bind .advance fun _ => .bind (Law.expression_keeps n _) fun _ =>
      .pure _)
    (.pure _)
  after := after_of_argumentRound

theorem loops_parameters : Loops moreNames parameterRound where
  eq_rounds := moreNames_eq_rounds
  onward := .bind (.nextIs _) fun _ => .ite
    (.bind .advance fun _ => .bind .expectName fun _ => .pure _) (.pure _)
  after := after_of_parameterRound

theorem loops_pairs : Loops (hashPairs (expression n)) (pairRound (expression n)) where
  eq_rounds := hashPairs_eq_rounds
  onward := .bind (.nextIs _) fun _ => .ite (.bind .advance fun _ => .pure _)
    (.bind .advance fun _ => .bind (pair_onward n) fun _ => .pure _)
  after := after_of_pairRound

end

end Parser

/-! ### Every list of tokens -/

/-- **Reading makes progress and ends, whatever the tokens.**  A list of tokens is read with an
answer, which is the same for every budget that is not smaller.  An expression ends not before it
starts.  Of the expressions that are being read at some moment, each starts later than those around
it, so that there are no more of them than tokens, the end token included.  Since the last token is
an end token, a round of a loop ends later than it starts, or leaves the loop. -/
theorem parsing_makes_progress (tokens : List Token) :
    (∃ program errors d, parseTokens tokens = ⟨program, errors⟩ ∧
      d.tokens <:+ closeTokens tokens ∧ ∀ budget, tokens.length + 2 ≤ budget →
        Parser.program budget (Cursor.ofTokens tokens) = .done program errors d) ∧
      (∀ n level, Law.onward.Keeps (expression n level)) ∧
      (∀ n level d outer, Active tokens n level d outer →
        (∀ c ∈ d :: outer, c.tokens <:+ closeTokens tokens) ∧
          (d :: outer).Pairwise Cursor.After ∧
          (d :: outer).length ≤ (closeTokens tokens).length) ∧
      (∀ c : Cursor, c.tokens <:+ closeTokens tokens → c.Closed) ∧
      ∀ n, Loops (statementsToEnd (expression n)) (programRound (expression n)) ∧
        Loops (blockStatements (expression n)) (blockRound (expression n)) ∧
        Loops (moreExprs (expression n)) (argumentRound (expression n)) ∧
        Loops moreNames parameterRound ∧
        Loops (hashPairs (expression n)) (pairRound (expression n)) := by
  refine ⟨?_, fun n level => Law.expression_keeps n level, ?_, fun c => Cursor.closed_of_suffix,
    fun n => ⟨loops_program n, loops_block n, loops_arguments n, loops_parameters, loops_pairs n⟩⟩
  · cases hprogram : Parser.program (tokens.length + 2) (Cursor.ofTokens tokens) with
    | done program errors d =>
      have hsuffix := suffix_of_done (Law.program_keeps _) hprogram
      rw [Cursor.tokens_ofTokens] at hsuffix
      refine ⟨program, errors, d, by rw [parseTokens, hprogram], hsuffix, fun budget h => ?_⟩
      rw [program_eq_of_le tokens h, hprogram]
    -- the loop of the program leaves only at the end, and tokens outlast no budget of this size
    | failed errors d => exact absurd hprogram (statementsToEnd_ne_failed _ _ _ _)
    | exhausted => exact absurd hprogram (program_ne_exhausted tokens)
  · intro n level d outer h
    -- each of the expressions starts at another token than those around it
    have hlength := h.length_le
    rw [Cursor.tokens, List.length_cons] at hlength
    refine ⟨fun c hc => (h.forall_on c hc).suffix, h.pairwise_after, ?_⟩
    rw [List.length_cons]
    omega

/-- While a numeral is being read, so is the sign before it, where the program starts. -/
theorem parsing_makes_progress_signed :
    let numeral : Cursor := ⟨⟨.int 1, ⟨1, 2⟩⟩, [⟨.eof, ⟨2, 2⟩⟩]⟩
    let sign : Cursor := ⟨⟨.symbol .minus, ⟨0, 1⟩⟩, numeral.tokens⟩
    Active (sign.tokens.take 2) 3 .sign numeral [sign] ∧ numeral.After sign ∧
      ∀ items es d, programRound (expression 4) sign = .done (some items) es d → d.After sign := by
  intro numeral sign
  obtain ⟨-, -, hactive, hclosed, hloops⟩ := parsing_makes_progress (sign.tokens.take 2)
  have houter : Active (sign.tokens.take 2) 4 .lowest sign [] := .outermost (by decide)
  have hinner : Active (sign.tokens.take 2) 3 .sign numeral [sign] := .inside houter (by decide)
  obtain ⟨hsuffixes, hafter, -⟩ := hactive 3 .sign numeral [sign] hinner
  have hsign : sign ∈ [numeral, sign] := List.mem_cons_of_mem _ (List.mem_singleton_self _)
  exact ⟨hinner, (List.pairwise_cons.1 hafter).1 sign (List.mem_singleton_self _),
    fun _ _ _ => (hloops 4).1.after (hclosed sign (hsuffixes sign hsign))⟩

end Monkey
