import Monkey.Parsing
import Monkey.Proofs.Sentences

/-!
# The parser recognises every sentence

Reading a list of tokens that the grammar derives gives the tree that it stands for, without an
error.  The heart of this is the loop over the suffixes of an operand: reading the tokens of an
expression, at any weaker level, comes to the state of the loop in which the whole expression is the
operand.  From there the loop goes on or stops, according to what follows.

## Main definitions

* `Parser.Reads` — a parser answers with a value, without errors, and stops before given tokens.
* `Follows` — what may come after an expression of a level.
* `Recognised` — what it means that the parser recognises a phrase.

## Main results

* `Parser.recognised_of_derives` — **the parser recognises every phrase**, by induction on the
  derivation.
* `parseTokens_of_kinds` — the tokens of a program are read as that program.
-/

namespace Monkey

namespace Cursor

/-- The kinds of the tokens after the current one. -/
def ahead (c : Cursor) : List TokenKind := c.rest.map Token.kind

/-- The kinds of the tokens from the current one on. -/
def kinds (c : Cursor) : List TokenKind := c.current.kind :: c.ahead

variable {c : Cursor} {kind : TokenKind} {more : List TokenKind}

theorem kinds_eq_cons_iff : c.kinds = kind :: more ↔ c.current.kind = kind ∧ c.ahead = more := by
  rw [kinds, List.cons.injEq]

theorem ahead_of_kinds (h : c.kinds = kind :: more) : c.ahead = more := (kinds_eq_cons_iff.1 h).2

theorem current_of_kinds (h : c.kinds = kind :: more) : c.current.kind = kind :=
  (kinds_eq_cons_iff.1 h).1

theorem kind_next (h : c.ahead = kind :: more) : c.next.kind = kind := by
  obtain ⟨t, rest⟩ := c
  cases rest with
  | nil => cases h
  | cons u rest => exact (List.cons.inj h).1

theorem kinds_advance (h : c.ahead = kind :: more) : c.advance.kinds = kind :: more := by
  obtain ⟨t, rest⟩ := c
  cases rest with
  | nil => cases h
  | cons u rest => exact h

end Cursor

namespace Parser

/-- The parser answers with a value, without errors, and stops where `more` comes next. -/
def Reads {α : Type} (p : Parser α) (c : Cursor) (a : α) (more : List TokenKind) : Prop :=
  ∃ c', p c = .done a [] c' ∧ c'.ahead = more

section

variable {α β : Type} {p : Parser α} {k : α → Parser β} {c c' : Cursor} {a : α} {b : β}
  {kind : TokenKind} {more rest : List TokenKind}

theorem current_apply (c : Cursor) : current c = .done c.current [] c := rfl

theorem next_apply (c : Cursor) : next c = .done c.next [] c := rfl

/-- A parser that answers without errors passes its answer on. -/
theorem bind_clean (h : p c = .done a [] c') (k : α → Parser β) : (p >>= k) c = k a c' := by
  rw [bind_done h, Reply.after_nil]

theorem Reads.bind (h : Reads p c a more) (hk : ∀ c', c'.ahead = more → Reads (k a) c' b rest) :
    Reads (p >>= k) c b rest := by
  obtain ⟨c', hp, hmore⟩ := h
  obtain ⟨c'', hkc, hrest⟩ := hk c' hmore
  refine ⟨c'', ?_, hrest⟩
  rw [bind_clean hp, hkc]

theorem reads_pure (h : c.ahead = more) : Reads (pure a) c a more := ⟨c, rfl, h⟩

/-- An answer that is made of another one. -/
theorem Reads.map (h : Reads p c a more) (f : α → β) :
    Reads (p >>= fun a => pure (f a)) c (f a) more :=
  h.bind fun _ hmore => reads_pure hmore

theorem reads_advance {k : Unit → Parser β} (h : c.ahead = kind :: more)
    (hk : ∀ c', c'.kinds = kind :: more → Reads (k ()) c' b rest) :
    Reads (advance >>= k) c b rest := by
  obtain ⟨c', hkc, hrest⟩ := hk c.advance (Cursor.kinds_advance h)
  exact ⟨c', hkc, hrest⟩

theorem reads_expect {sign : Symbol} {k : Unit → Parser β} (h : c.ahead = .symbol sign :: more)
    (hk : ∀ c', c'.kinds = .symbol sign :: more → Reads (k ()) c' b rest) :
    Reads (expect sign >>= k) c b rest := by
  obtain ⟨c', hkc, hrest⟩ := hk c.advance (Cursor.kinds_advance h)
  refine ⟨c', ?_, hrest⟩
  have hexpect : expect sign c = .done () [] c.advance := by
    rw [expect, if_pos (Cursor.kind_next h)]
    rfl
  rw [bind_clean hexpect, hkc]

theorem reads_expectName {name : String} {k : String → Parser β}
    (h : c.ahead = .ident name :: more)
    (hk : ∀ c', c'.ahead = more → Reads (k name) c' b rest) :
    Reads (expectName >>= k) c b rest := by
  obtain ⟨c', hkc, hrest⟩ := hk c.advance (Cursor.ahead_of_kinds (Cursor.kinds_advance h))
  refine ⟨c', ?_, hrest⟩
  have hname : expectName c = .done name [] c.advance := by
    rw [expectName, Cursor.kind_next h]
  rw [bind_clean hname, hkc]

/-- The next token is the given symbol. -/
theorem reads_nextIs_true {sign : Symbol} {p q : Parser β} (h : c.ahead = .symbol sign :: more)
    (hp : Reads p c b rest) :
    Reads (nextIs sign >>= fun found => if found then p else q) c b rest := by
  obtain ⟨c', hpc, hrest⟩ := hp
  refine ⟨c', ?_, hrest⟩
  change (if decide (c.next.kind = .symbol sign) = true then p else q) c = _
  rw [if_pos (by simp [Cursor.kind_next h]), hpc]

/-- The next token is not the given symbol. -/
theorem reads_nextIs_false {sign : Symbol} {p q : Parser β} (h : c.ahead = kind :: more)
    (hkind : kind ≠ .symbol sign) (hq : Reads q c b rest) :
    Reads (nextIs sign >>= fun found => if found then p else q) c b rest := by
  obtain ⟨c', hqc, hrest⟩ := hq
  refine ⟨c', ?_, hrest⟩
  change (if decide (c.next.kind = .symbol sign) = true then p else q) c = _
  rw [if_neg (by simp [Cursor.kind_next h, hkind]), hqc]

theorem reads_current {k : Token → Parser β} (hk : Reads (k c.current) c b rest) :
    Reads (current >>= k) c b rest := hk

theorem reads_next {k : Token → Parser β} (hk : Reads (k c.next) c b rest) :
    Reads (next >>= k) c b rest := hk

theorem Reads.attempt (h : Reads p c a more) : Reads (attempt p) c (some a) more := by
  obtain ⟨c', hp, hmore⟩ := h
  refine ⟨c', ?_, hmore⟩
  rw [Parser.attempt, hp]

end

/-! ### Names -/

theorem moreNames_reads {kind : TokenKind} (hkind : kind ≠ .symbol .comma)
    (more : List TokenKind) : ∀ (names : List String) (budget : Nat) (c : Cursor),
    names.length < budget → c.ahead = moreNameTokens names ++ kind :: more →
    Reads (moreNames budget) c names (kind :: more)
  | [], budget + 1, c, _, hc => reads_nextIs_false hc hkind (reads_pure hc)
  | name :: names, budget + 1, c, hbudget, hc => by
    refine reads_nextIs_true hc ?_
    refine reads_advance hc fun c' hc' => ?_
    refine reads_expectName (Cursor.ahead_of_kinds hc') fun c'' hc'' => ?_
    have hlength : names.length < budget := by
      rw [List.length_cons] at hbudget
      omega
    exact (moreNames_reads hkind more names budget c'' hlength hc'').map _

theorem length_moreNameTokens (names : List String) :
    names.length ≤ (moreNameTokens names).length := by
  induction names with
  | nil => exact Nat.le_refl 0
  | cons name names ih =>
    simp only [moreNameTokens, List.length_cons]
    omega

/-- The parameters of a literal are recognised. -/
theorem paramList_reads {params : List String} {budget : Nat} {c : Cursor}
    {more : List TokenKind} (hbudget : (nameTokens params).length < budget)
    (hc : c.ahead = parenthesised (nameTokens params) ++ more) :
    Reads (paramList budget) c params more := by
  rw [parenthesised_append] at hc
  refine reads_expect hc fun c' hc' => ?_
  have hahead := Cursor.ahead_of_kinds hc'
  cases params with
  | nil =>
    refine reads_nextIs_true hahead ?_
    refine reads_advance hahead fun c'' hc'' => ?_
    exact reads_pure (Cursor.ahead_of_kinds hc'')
  | cons name names =>
    refine reads_nextIs_false hahead (by simp) ?_
    refine reads_expectName hahead fun c'' hc'' => ?_
    -- each name takes a token, so that the budget suffices for the rest
    have hlength : names.length < budget := by
      have hle := length_moreNameTokens names
      simp only [nameTokens, List.length_cons] at hbudget
      omega
    refine (moreNames_reads (by simp) more names budget c'' hlength hc'').bind fun d hd => ?_
    refine reads_expect hd fun d' hd' => ?_
    exact reads_pure (Cursor.ahead_of_kinds hd')

/-! ### The loop over suffixes -/

variable {expr : Precedence → Parser Expr} {level : Precedence} {budget fuel : Nat}
  {e : Expr} {c : Cursor} {more : List TokenKind}

/-- The loop stops before what is no suffix of a stronger level. -/
theorem suffixes_stop {kind : TokenKind} (hc : c.ahead = kind :: more)
    (hkind : ∀ s, Suffix.ofKind? kind = some s → ¬level < s.precedence) :
    suffixes expr level budget (fuel + 1) e c = .done e [] c := by
  rw [suffixes, bind_clean (next_apply c), Cursor.kind_next hc]
  cases hsuffix : Suffix.ofKind? kind with
  | none => rfl
  | some s =>
    simp only
    rw [if_neg (hkind s hsuffix)]
    rfl

/-- The loop takes a suffix of a stronger level. -/
theorem suffixes_step {kind : TokenKind} {s : Suffix} (hc : c.ahead = kind :: more)
    (hs : Suffix.ofKind? kind = some s) (hlevel : level < s.precedence) :
    suffixes expr level budget (fuel + 1) e c =
      (suffix expr budget e s >>= suffixes expr level budget fuel) c.advance := by
  rw [suffixes, bind_clean (next_apply c), Cursor.kind_next hc, hs]
  simp only
  rw [if_pos hlevel]
  rfl

/-! ### What the parser does with a phrase -/

/-- Reading at `level` takes in all of an expression of the level `strength`. -/
def Fits (level strength : Precedence) : Prop :=
  level.rank ≤ Precedence.sign.rank ∧
    (level < strength ∨ Precedence.sign.rank ≤ strength.rank)

/-- What may come after an expression of a level: something does, it is not `else`, and it is no
suffix that binds more strongly. -/
def Follows (level : Precedence) : List TokenKind → Prop
  | [] => False
  | kind :: _ => kind ≠ .keyword .kwElse ∧
      ∀ s, Suffix.ofKind? kind = some s → ¬level < s.precedence

/-- Reading the tokens `ts` of the expression `e`, at any level that it fits, comes to the loop over
suffixes with `e` as its operand. -/
def ReachesLoop (strength : Precedence) (e : Expr) (ts : List TokenKind) : Prop :=
  ∀ n level more c, ts.length + more.length ≤ n → Fits level strength → Follows strength more →
    c.kinds = ts ++ more → ∃ fuel c', more.length ≤ fuel ∧ c'.ahead = more ∧
      expression n level c = suffixes (expression (n - 1)) level n (fuel + 1) e c'

/-- A loop over statements that ends at a given token. -/
structure StatementLoop (expr : Precedence → Parser Expr) (closer : TokenKind)
    (loop : Nat → Parser (List Stmt)) : Prop where
  closer_eq : closer = .symbol .rbrace ∨ closer = .eof
  stop : ∀ n c, c.current.kind = closer → loop (n + 1) c = .done [] [] c
  step : ∀ n c, c.current.kind.startsStmt = true → loop (n + 1) c =
    (attempt (statement expr) >>= fun s => advance >>= fun _ => loop n >>= fun rest =>
      pure (s.toList ++ rest)) c

/-- The parser recognises a phrase: it reads it without errors and stops where it ends. -/
def Recognised : Phrase → List TokenKind → Prop
  | .expr strength e, ts => ReachesLoop strength e ts
  | .exprs es, ts => ∀ n budget closer more c, closer = .rparen ∨ closer = .rbracket →
      ts.length + more.length < n → ts.length < budget → c.ahead = ts ++ .symbol closer :: more →
      Reads (exprList (expression n) closer budget) c es more
  | .moreExprs es, ts => ∀ n budget closer more c, closer = .rparen ∨ closer = .rbracket →
      ts.length + more.length < n → ts.length < budget → c.ahead = ts ++ .symbol closer :: more →
      Reads (moreExprs (expression n) budget) c es (.symbol closer :: more)
  | .pairs ps, ts => ∀ n budget more c, ts.length + more.length < n → ts.length < budget →
      c.ahead = ts ++ .symbol .rbrace :: more → Reads (hashPairs (expression n) budget) c ps more
  | .stmt s, ts => ∀ n more c, ts.length + more.length ≤ n → Follows .lowest more →
      c.kinds = ts ++ more → ∃ c', c'.ahead = more ∧
        statement (expression n) c = (skip .semicolon >>= fun _ => pure s) c'
  | .stmts ss, ts => ∀ n budget closer loop more c, StatementLoop (expression n) closer loop →
      ts.length + more.length < n → ts.length < budget → c.kinds = ts ++ closer :: more →
      ∃ c', loop budget c = .done ss [] c' ∧ c'.kinds = closer :: more

theorem Follows.weaken {strong weak : Precedence} {more : List TokenKind}
    (h : Follows weak more) (hle : weak.rank ≤ strong.rank) : Follows strong more := by
  cases more with
  | nil => exact h
  | cons kind more =>
    refine ⟨h.1, fun s hs hlt => h.2 s hs ?_⟩
    rw [Precedence.lt_iff] at hlt ⊢
    omega

/-- A symbol that is no suffix may come after every expression. -/
theorem follows_symbol (level : Precedence) {sign : Symbol}
    (h : Suffix.ofKind? (.symbol sign) = none) (more : List TokenKind) :
    Follows level (.symbol sign :: more) := by
  refine ⟨by simp, fun s hs => ?_⟩
  rw [h] at hs
  cases hs

theorem fits_lowest : Fits .lowest .equality := ⟨by decide, Or.inl (by decide)⟩

/-- An expression that is read to its end. -/
theorem ReachesLoop.reads {strength level : Precedence} {e : Expr} {ts more : List TokenKind}
    {n : Nat} {c : Cursor} (h : ReachesLoop strength e ts) (hlength : ts.length + more.length ≤ n)
    (hfits : Fits level strength) (hle : level.rank ≤ strength.rank) (hmore : Follows level more)
    (hc : c.kinds = ts ++ more) : Reads (expression n level) c e more := by
  obtain ⟨fuel, c', -, hahead, hloop⟩ := h n level more c hlength hfits (hmore.weaken hle) hc
  refine ⟨c', ?_, hahead⟩
  rw [hloop]
  cases more with
  | nil => exact hmore.elim
  | cons kind more => exact suffixes_stop hahead hmore.2

/-- An expression that is read as a part of its own, at the lowest level. -/
theorem ReachesLoop.reads_lowest {e : Expr} {ts more : List TokenKind} {n : Nat} {c : Cursor}
    (h : ReachesLoop .equality e ts) (hlength : ts.length + more.length ≤ n)
    (hmore : Follows .lowest more) (hc : c.kinds = ts ++ more) :
    Reads (expression n .lowest) c e more :=
  h.reads hlength fits_lowest (by decide) hmore hc

/-- What is read as an operand reaches the loop. -/
theorem reachesLoop_of_operand {strength : Precedence} {e : Expr} {kind : TokenKind}
    {ts : List TokenKind}
    (h : ∀ n more c, ts.length + more.length ≤ n → Follows strength more →
      c.kinds = kind :: (ts ++ more) → Reads (operand (expression n) (n + 1)) c e more) :
    ReachesLoop strength e (kind :: ts) := by
  intro n level more c hlength _ hmore hc
  rw [List.length_cons] at hlength
  cases n with
  | zero => omega
  | succ n =>
    -- one unit of the budget is for this expression, the others for its parts
    obtain ⟨c', hoperand, hahead⟩ := h n more c (by omega) hmore hc
    refine ⟨n, c', by omega, hahead, ?_⟩
    exact bind_clean hoperand _

/-- The next token begins an expression that is read as a part of its own. -/
theorem reads_part {β : Type} {k : Expr → Parser β} {b : β} {ts rest : List TokenKind} {n : Nat}
    (hderives : Derives (.expr .equality e) ts) (h : Recognised (.expr .equality e) ts)
    (hlength : ts.length + more.length ≤ n) (hmore : Follows .lowest more)
    (hc : c.ahead = ts ++ more) (hk : ∀ c', c'.ahead = more → Reads (k e) c' b rest) :
    Reads (advance >>= fun _ => expression n .lowest >>= k) c b rest := by
  obtain ⟨kind, us, rfl, -⟩ := hderives.expr_head
  refine reads_advance hc fun c' hc' => ?_
  exact (ReachesLoop.reads_lowest h hlength hmore hc').bind hk

/-! ### Blocks -/

/-- The loop over the statements of a block. -/
theorem statementLoop_block (expr : Precedence → Parser Expr) :
    StatementLoop expr (.symbol .rbrace) (blockStatements expr) where
  closer_eq := Or.inl rfl
  stop n c hc := by
    change (if c.current.kind = .symbol .rbrace then pure []
      else if c.current.kind = .eof then _ else _ : Parser Block) c = _
    rw [if_pos hc]
    rfl
  step n c hc := by
    have hbrace : c.current.kind ≠ .symbol .rbrace := by
      intro heq
      rw [heq] at hc
      cases hc
    have heof : c.current.kind ≠ .eof := by
      intro heq
      rw [heq] at hc
      cases hc
    change (if c.current.kind = .symbol .rbrace then pure []
      else if c.current.kind = .eof then _ else _ : Parser Block) c = _
    rw [if_neg hbrace, if_neg heof]

/-- The loop over the statements of a program. -/
theorem statementLoop_toEnd (expr : Precedence → Parser Expr) :
    StatementLoop expr .eof (statementsToEnd expr) where
  closer_eq := Or.inr rfl
  stop n c hc := by
    change (if c.current.kind = .eof then pure [] else _ : Parser Program) c = _
    rw [if_pos hc]
    rfl
  step n c hc := by
    have heof : c.current.kind ≠ .eof := by
      intro heq
      rw [heq] at hc
      cases hc
    change (if c.current.kind = .eof then pure [] else _ : Parser Program) c = _
    rw [if_neg heof]

/-- A block is recognised from its opening brace to its closing one. -/
theorem reads_block {β : Type} {k : Block → Parser β} {b : β} {body : Block}
    {ts rest : List TokenKind} {n budget : Nat} (hderives : Derives (.stmts body) ts)
    (h : Recognised (.stmts body) ts) (hlength : ts.length + more.length < n)
    (hbudget : ts.length < budget) (hc : c.ahead = bracedTokens ts ++ more)
    (hk : ∀ c', c'.ahead = more → Reads (k body) c' b rest) :
    Reads (block (expression n) budget >>= k) c b rest := by
  rw [bracedTokens_append] at hc
  have hblock : Reads (block (expression n) budget) c body more := by
    refine reads_expect hc fun c' hc' => ?_
    have hahead := Cursor.ahead_of_kinds hc'
    -- after the opening brace comes a statement or the closing brace
    obtain ⟨kind, us, hkind⟩ : ∃ kind us, ts ++ .symbol .rbrace :: more = kind :: us := by
      cases ts with
      | nil => exact ⟨_, _, rfl⟩
      | cons kind us => exact ⟨_, _, rfl⟩
    rw [hkind] at hahead
    refine reads_advance hahead fun c'' hc'' => ?_
    rw [← hkind] at hc''
    obtain ⟨d, hloop, hd⟩ :=
      h n budget _ _ more c'' (statementLoop_block _) hlength hbudget hc''
    exact ⟨d, hloop, Cursor.ahead_of_kinds hd⟩
  exact hblock.bind hk

/-! ### Operands -/

section

variable {ts us vs : List TokenKind} {body other : Block} {params : List String}

/-- An operand of one token. -/
theorem leaf_recognised {kind : TokenKind}
    (h : ∀ expr budget c, c.current.kind = kind → operand expr budget c = .done e [] c) :
    Recognised (.expr .index e) [kind] := by
  refine reachesLoop_of_operand fun n more c _ _ hc => ?_
  have hoperand := h (expression n) (n + 1) c (Cursor.current_of_kinds hc)
  exact ⟨c, hoperand, Cursor.ahead_of_kinds hc⟩

theorem ident_recognised (name : String) :
    Recognised (.expr .index (.ident name)) [.ident name] := by
  refine leaf_recognised fun expr budget c hkind => ?_
  rw [operand, bind_clean (current_apply c), hkind]
  rfl

theorem int_recognised (value : Int64) :
    Recognised (.expr .index (.int value)) [.int value] := by
  refine leaf_recognised fun expr budget c hkind => ?_
  rw [operand, bind_clean (current_apply c), hkind]
  rfl

theorem str_recognised (text : String) :
    Recognised (.expr .index (.str text)) [.str text] := by
  refine leaf_recognised fun expr budget c hkind => ?_
  rw [operand, bind_clean (current_apply c), hkind]
  rfl

theorem bool_recognised (b : Bool) :
    Recognised (.expr .index (.bool b)) [.keyword (.ofBool b)] := by
  refine leaf_recognised fun expr budget c hkind => ?_
  rw [operand, bind_clean (current_apply c), hkind]
  cases b with
  | true => rfl
  | false => rfl

theorem group_recognised (hderives : Derives (.expr .equality e) ts)
    (h : Recognised (.expr .equality e) ts) :
    Recognised (.expr .index e) (parenthesised ts) := by
  show ReachesLoop .index e (.symbol .lparen :: (ts ++ [.symbol .rparen]))
  refine reachesLoop_of_operand fun n more c hlength _ hc => ?_
  rw [List.append_assoc] at hc
  rw [List.length_append, List.length_singleton] at hlength
  unfold operand
  refine reads_current ?_
  rw [Cursor.current_of_kinds hc]
  have hmore : Follows .lowest (.symbol .rparen :: more) := follows_symbol _ rfl more
  refine reads_part hderives h ?_ hmore (Cursor.ahead_of_kinds hc) fun c' hc' => ?_
  · rw [List.length_cons]
    omega
  refine reads_expect hc' fun c'' hc'' => ?_
  exact reads_pure (Cursor.ahead_of_kinds hc'')

/-- The condition and the first branch of a conditional. -/
theorem reads_condition {n : Nat} {k : Expr → Block → Parser Expr} {a : Expr}
    {rest : List TokenKind} (hderives : Derives (.expr .equality e) ts)
    (h : Recognised (.expr .equality e) ts) (hbody : Derives (.stmts body) us)
    (hb : Recognised (.stmts body) us)
    (hlength : (parenthesised ts ++ (bracedTokens us ++ more)).length ≤ n)
    (hc : c.ahead = parenthesised ts ++ (bracedTokens us ++ more))
    (hk : ∀ c', c'.ahead = more → Reads (k e body) c' a rest) :
    Reads (expect .lparen >>= fun _ => advance >>= fun _ => expression n .lowest >>= fun e =>
      expect .rparen >>= fun _ => block (expression n) (n + 1) >>= fun body => k e body) c a
      rest := by
  simp only [List.length_append, length_parenthesised, length_bracedTokens] at hlength
  rw [parenthesised_append] at hc
  refine reads_expect hc fun c' hc' => ?_
  have hmore : Follows .lowest (.symbol .rparen :: (bracedTokens us ++ more)) :=
    follows_symbol _ rfl _
  -- the condition ends before the parenthesis, which goes on with no expression
  refine reads_part hderives h ?_ hmore (Cursor.ahead_of_kinds hc') fun c'' hc'' => ?_
  · simp only [List.length_cons, List.length_append, length_bracedTokens]
    omega
  refine reads_expect hc'' fun d hd => ?_
  exact reads_block hbody hb (by omega) (by omega) (Cursor.ahead_of_kinds hd) hk

theorem cond_recognised (hderives : Derives (.expr .equality e) ts)
    (h : Recognised (.expr .equality e) ts) (hbody : Derives (.stmts body) us)
    (hb : Recognised (.stmts body) us) :
    Recognised (.expr .index (.cond e body none))
      (.keyword .kwIf :: parenthesised ts ++ bracedTokens us) := by
  show ReachesLoop .index _ (.keyword .kwIf :: (parenthesised ts ++ bracedTokens us))
  refine reachesLoop_of_operand fun n more c hlength hmore hc => ?_
  rw [List.append_assoc] at hc
  rw [← List.length_append, List.append_assoc] at hlength
  unfold operand
  refine reads_current ?_
  rw [Cursor.current_of_kinds hc]
  refine reads_condition hderives h hbody hb hlength (Cursor.ahead_of_kinds hc) fun c' hc' => ?_
  -- what follows is not `else`, so there is no other branch
  cases more with
  | nil => exact hmore.elim
  | cons kind more =>
    have helse : Reads (elseBranch (expression n) (n + 1)) c' none (kind :: more) := by
      unfold elseBranch
      refine reads_next ?_
      rw [Cursor.kind_next hc', if_neg hmore.1]
      exact reads_pure hc'
    exact helse.map _

theorem condElse_recognised (hderives : Derives (.expr .equality e) ts)
    (h : Recognised (.expr .equality e) ts) (hbody : Derives (.stmts body) us)
    (hb : Recognised (.stmts body) us) (hother : Derives (.stmts other) vs)
    (ho : Recognised (.stmts other) vs) :
    Recognised (.expr .index (.cond e body (some other)))
      (.keyword .kwIf :: parenthesised ts ++ bracedTokens us ++
        .keyword .kwElse :: bracedTokens vs) := by
  show ReachesLoop .index _ (.keyword .kwIf :: (parenthesised ts ++ bracedTokens us ++
    .keyword .kwElse :: bracedTokens vs))
  refine reachesLoop_of_operand fun n more c hlength hmore hc => ?_
  rw [List.append_assoc, List.append_assoc] at hc
  rw [← List.length_append, List.append_assoc, List.append_assoc] at hlength
  unfold operand
  refine reads_current ?_
  rw [Cursor.current_of_kinds hc]
  refine reads_condition hderives h hbody hb hlength (Cursor.ahead_of_kinds hc) fun c' hc' => ?_
  rw [List.cons_append] at hc'
  simp only [List.length_append, length_parenthesised, length_bracedTokens, List.length_cons]
    at hlength
  -- the other branch comes after a word of its own
  have helse : Reads (elseBranch (expression n) (n + 1)) c' (some other) more := by
    unfold elseBranch
    refine reads_next ?_
    rw [Cursor.kind_next hc', if_pos rfl]
    refine reads_advance hc' fun c'' hc'' => ?_
    refine reads_block hother ho (by omega) (by omega) (Cursor.ahead_of_kinds hc'') fun d hd => ?_
    exact reads_pure hd
  exact helse.map _

/-- The parameters and the body of a literal. -/
theorem literalParts_reads {n : Nat} (hbody : Derives (.stmts body) ts)
    (hb : Recognised (.stmts body) ts)
    (hlength : (parenthesised (nameTokens params) ++ (bracedTokens ts ++ more)).length ≤ n)
    (hc : c.ahead = parenthesised (nameTokens params) ++ (bracedTokens ts ++ more)) :
    Reads (literalParts (expression n) (n + 1)) c (params, body) more := by
  simp only [List.length_append, length_parenthesised, length_bracedTokens] at hlength
  refine (paramList_reads (by omega) hc).bind fun c' hc' => ?_
  refine reads_block hbody hb (by omega) (by omega) hc' fun c'' hc'' => ?_
  exact reads_pure hc''

/-- A literal with parameters and a body, which begins with a reserved word. -/
theorem literal_recognised {word : Keyword} (make : List String → Block → Expr)
    (hoperand : ∀ expr budget c, c.current.kind = .keyword word → operand expr budget c =
      (literalParts expr budget >>= fun parts => pure (make parts.1 parts.2)) c)
    (hbody : Derives (.stmts body) ts) (hb : Recognised (.stmts body) ts) :
    Recognised (.expr .index (make params body))
      (.keyword word :: parenthesised (nameTokens params) ++ bracedTokens ts) := by
  show ReachesLoop .index _
    (.keyword word :: (parenthesised (nameTokens params) ++ bracedTokens ts))
  refine reachesLoop_of_operand fun n more c hlength _ hc => ?_
  rw [List.append_assoc] at hc
  rw [← List.length_append, List.append_assoc] at hlength
  have hparts := literalParts_reads hbody hb hlength (Cursor.ahead_of_kinds hc)
  obtain ⟨c', hmade, hahead⟩ := hparts.map fun parts => make parts.1 parts.2
  refine ⟨c', ?_, hahead⟩
  rw [hoperand _ _ c (Cursor.current_of_kinds hc), hmade]

theorem fn_recognised (hbody : Derives (.stmts body) ts) (hb : Recognised (.stmts body) ts) :
    Recognised (.expr .index (.fn params body))
      (.keyword .kwFn :: parenthesised (nameTokens params) ++ bracedTokens ts) := by
  refine literal_recognised .fn (fun expr budget c hkind => ?_) hbody hb
  rw [operand, bind_clean (current_apply c), hkind]

theorem macroFn_recognised (hbody : Derives (.stmts body) ts)
    (hb : Recognised (.stmts body) ts) :
    Recognised (.expr .index (.macroFn params body))
      (.keyword .kwMacro :: parenthesised (nameTokens params) ++ bracedTokens ts) := by
  refine literal_recognised .macroFn (fun expr budget c hkind => ?_) hbody hb
  rw [operand, bind_clean (current_apply c), hkind]

theorem array_recognised {es : List Expr} (h : Recognised (.exprs es) ts) :
    Recognised (.expr .index (.array es)) (bracketed ts) := by
  show ReachesLoop .index _ (.symbol .lbracket :: (ts ++ [.symbol .rbracket]))
  refine reachesLoop_of_operand fun n more c hlength _ hc => ?_
  rw [List.append_assoc] at hc
  rw [List.length_append, List.length_singleton] at hlength
  unfold operand
  refine reads_current ?_
  rw [Cursor.current_of_kinds hc]
  exact (h n (n + 1) .rbracket more c (Or.inr rfl) (by omega) (by omega)
    (Cursor.ahead_of_kinds hc)).map _

theorem hash_recognised {ps : List (Expr × Expr)} (h : Recognised (.pairs ps) ts) :
    Recognised (.expr .index (.hash ps)) (bracedTokens ts) := by
  show ReachesLoop .index _ (.symbol .lbrace :: (ts ++ [.symbol .rbrace]))
  refine reachesLoop_of_operand fun n more c hlength _ hc => ?_
  rw [List.append_assoc] at hc
  rw [List.length_append, List.length_singleton] at hlength
  unfold operand
  refine reads_current ?_
  rw [Cursor.current_of_kinds hc]
  exact (h n (n + 1) more c (by omega) (by omega) (Cursor.ahead_of_kinds hc)).map _

/-- A sign takes in what binds at least as strongly as a sign. -/
theorem unary_recognised {op : PrefixOp} (hderives : Derives (.expr .sign e) ts)
    (h : Recognised (.expr .sign e) ts) :
    Recognised (.expr .sign (.unary op e)) (.symbol op.symbol :: ts) := by
  refine reachesLoop_of_operand fun n more c hlength hmore hc => ?_
  have hsigned : Reads (signed (expression n) op) c (.unary op e) more := by
    obtain ⟨kind, us, rfl, -⟩ := hderives.expr_head
    refine reads_advance (Cursor.ahead_of_kinds hc) fun c' hc' => ?_
    have hfits : Fits .sign .sign := ⟨Nat.le_refl _, Or.inr (Nat.le_refl _)⟩
    exact (h.reads hlength hfits (Nat.le_refl _) hmore hc').map _
  unfold operand
  refine reads_current ?_
  rw [Cursor.current_of_kinds hc]
  cases op with
  | not => exact hsigned
  | neg => exact hsigned

/-! ### Suffixes -/

/-- From the loop with a left operand, one suffix leads to the loop with a larger operand. -/
theorem reachesLoop_suffix {weak strong : Precedence} {left e : Expr} {kind : TokenKind}
    {s : Suffix} (hleft : ReachesLoop strong left ts) (hs : Suffix.ofKind? kind = some s)
    (hstop : ¬strong < s.precedence)
    (hgo : ∀ level, Fits level weak → Fits level strong ∧ level < s.precedence)
    (hread : ∀ n more c, us.length + more.length < n → Follows weak more →
      c.kinds = kind :: (us ++ more) → Reads (suffix (expression (n - 1)) n left s) c e more) :
    ReachesLoop weak e (ts ++ kind :: us) := by
  intro n level more c hlength hfits hmore hc
  obtain ⟨hfitsLeft, hlevel⟩ := hgo level hfits
  rw [List.append_assoc, List.cons_append] at hc
  rw [List.length_append, List.length_cons] at hlength
  -- the suffix does not belong to the left operand: it binds too weakly for that
  have hnext : Follows strong (kind :: (us ++ more)) := by
    refine ⟨?_, ?_⟩
    · rintro rfl
      cases hs
    · intro t ht
      rw [hs] at ht
      cases ht
      exact hstop
  have hleftLength : ts.length + (kind :: (us ++ more)).length ≤ n := by
    rw [List.length_cons, List.length_append]
    omega
  obtain ⟨fuel, c', hfuel, hahead, hloop⟩ :=
    hleft n level _ c hleftLength hfitsLeft hnext hc
  rw [List.length_cons, List.length_append] at hfuel
  -- the loop stands before the suffix and takes it, which costs one unit of its fuel
  obtain ⟨d, hsuffix, hd⟩ :=
    hread n more c'.advance (by omega) hmore (Cursor.kinds_advance hahead)
  refine ⟨fuel - 1, d, by omega, hd, ?_⟩
  rw [hloop, suffixes_step hahead hs hlevel, bind_clean hsuffix,
    show fuel - 1 + 1 = fuel by omega]

/-- Every level that a sign fits is weaker than a call and an index. -/
theorem fits_bracketed {level : Precedence} {s : Suffix}
    (hs : Precedence.sign.rank < s.precedence.rank) (h : Fits level .index) :
    Fits level .index ∧ level < s.precedence := by
  refine ⟨h, ?_⟩
  have hle := h.1
  rw [Precedence.lt_iff]
  omega

theorem call_recognised {es : List Expr} (h : Recognised (.expr .index e) ts)
    (hargs : Recognised (.exprs es) us) :
    Recognised (.expr .index (.call e es)) (ts ++ parenthesised us) := by
  show Recognised _ (ts ++ .symbol .lparen :: (us ++ [.symbol .rparen]))
  have hgo : ∀ level, Fits level .index → Fits level .index ∧ level < Suffix.precedence .call :=
    fun level => fits_bracketed (by decide)
  refine reachesLoop_suffix h (s := .call) rfl (by decide) hgo fun n more c hlength _ hc => ?_
  rw [List.length_append, List.length_singleton] at hlength
  rw [List.append_assoc] at hc
  have hread := hargs (n - 1) n .rparen more c (Or.inl rfl) (by omega) (by omega)
    (Cursor.ahead_of_kinds hc)
  exact hread.map _

theorem index_recognised {position : Expr} (h : Recognised (.expr .index e) ts)
    (hderives : Derives (.expr .equality position) us)
    (hposition : Recognised (.expr .equality position) us) :
    Recognised (.expr .index (.index e position)) (ts ++ bracketed us) := by
  show Recognised _ (ts ++ .symbol .lbracket :: (us ++ [.symbol .rbracket]))
  have hgo : ∀ level, Fits level .index → Fits level .index ∧ level < Suffix.precedence .index :=
    fun level => fits_bracketed (by decide)
  refine reachesLoop_suffix h (s := .index) rfl (by decide) hgo fun n more c hlength _ hc => ?_
  rw [List.length_append, List.length_singleton] at hlength
  rw [List.append_assoc] at hc
  have hmore : Follows .lowest (.symbol .rbracket :: more) := follows_symbol _ rfl more
  refine reads_part hderives hposition ?_ hmore (Cursor.ahead_of_kinds hc) fun c' hc' => ?_
  · rw [List.length_cons]
    omega
  refine reads_expect hc' fun c'' hc'' => ?_
  exact reads_pure (Cursor.ahead_of_kinds hc'')

theorem ofKind?_symbol (op : InfixOp) :
    Suffix.ofKind? (.symbol op.symbol) = some (.operator op) := by
  cases op <;> rfl

theorem rank_precedence_lt (op : InfixOp) : op.precedence.rank < Precedence.sign.rank := by
  cases op <;> decide

/-- The right operand of an operator is read at the level of the operator, so that what binds more
strongly belongs to it and the operator itself does not. -/
theorem binary_recognised {op : InfixOp} {left right : Expr} {level : Precedence}
    (hleft : Recognised (.expr op.precedence left) ts) (hlevel : op.precedence < level)
    (hderives : Derives (.expr level right) us) (hright : Recognised (.expr level right) us) :
    Recognised (.expr op.precedence (.binary op left right)) (ts ++ .symbol op.symbol :: us) := by
  have hop := rank_precedence_lt op
  refine reachesLoop_suffix hleft (ofKind?_symbol op) (Nat.lt_irrefl _) (fun weak hfits => ?_)
    fun n more c hlength hmore hc => ?_
  · refine ⟨hfits, ?_⟩
    rcases hfits.2 with hlt | hle
    · exact hlt
    · -- no operator binds as strongly as a sign
      omega
  · obtain ⟨kind, rest, rfl, -⟩ := hderives.expr_head
    refine reads_advance (Cursor.ahead_of_kinds hc) fun c' hc' => ?_
    have hfits : Fits op.precedence level := ⟨Nat.le_of_lt hop, Or.inl hlevel⟩
    exact (hright.reads (by omega) hfits (Nat.le_of_lt hlevel) hmore hc').map _

theorem weaker_recognised {weak strong : Precedence} (hlt : weak < strong)
    (h : Recognised (.expr strong e) ts) : Recognised (.expr weak e) ts := by
  intro n level more c hlength hfits hmore hc
  rw [Precedence.lt_iff] at hlt
  refine h n level more c hlength ⟨hfits.1, ?_⟩ (hmore.weaken (Nat.le_of_lt hlt)) hc
  -- what fits at the weaker level fits at the stronger one, for the same reason
  rcases hfits.2 with hlevel | hsign
  · rw [Precedence.lt_iff] at hlevel
    exact Or.inl (Precedence.lt_iff.2 (by omega))
  · exact Or.inr (by omega)

/-! ### Lists of expressions and of pairs -/

theorem noMoreExprs_recognised : Recognised (.moreExprs []) [] := by
  intro n budget closer more c hcloser _ hbudget hc
  cases budget with
  | zero => cases hbudget
  | succ budget =>
    refine reads_nextIs_false hc ?_ (reads_pure hc)
    rcases hcloser with rfl | rfl
    · simp
    · simp

/-- Before the comma or the closing symbol after it, an expression ends. -/
theorem follows_moreExprs {es : List Expr} {closer : Symbol}
    (h : Derives (.moreExprs es) us) (hcloser : closer = .rparen ∨ closer = .rbracket) :
    Follows .lowest (us ++ .symbol closer :: more) := by
  cases h with
  | noMoreExprs =>
    rcases hcloser with rfl | rfl
    · exact follows_symbol _ rfl more
    · exact follows_symbol _ rfl more
  | moreExprs => exact follows_symbol _ rfl _

theorem moreExprs_recognised {es : List Expr} (hderives : Derives (.expr .equality e) ts)
    (h : Recognised (.expr .equality e) ts) (hmore : Derives (.moreExprs es) us)
    (hm : Recognised (.moreExprs es) us) :
    Recognised (.moreExprs (e :: es)) (.symbol .comma :: ts ++ us) := by
  intro n budget closer more c hcloser hlength hbudget hc
  rw [List.cons_append, List.cons_append, List.append_assoc] at hc
  rw [List.length_append, List.length_cons] at hlength hbudget
  cases budget with
  | zero => omega
  | succ budget =>
    refine reads_nextIs_true hc ?_
    refine reads_advance hc fun c' hc' => ?_
    refine reads_part hderives h ?_ (follows_moreExprs hmore hcloser)
      (Cursor.ahead_of_kinds hc') fun d hd => ?_
    · rw [List.length_append, List.length_cons]
      omega
    · exact (hm n budget closer more d hcloser (by omega) (by omega) hd).map _

theorem noExprs_recognised : Recognised (.exprs []) [] := by
  intro n budget closer more c _ _ _ hc
  refine reads_nextIs_true hc ?_
  refine reads_advance hc fun c' hc' => ?_
  exact reads_pure (Cursor.ahead_of_kinds hc')

/-- No closing symbol starts an expression. -/
theorem startsExpr_ne_closer {kind : TokenKind} {closer : Symbol} (h : kind.startsExpr = true)
    (hcloser : closer = .rparen ∨ closer = .rbracket ∨ closer = .rbrace) :
    kind ≠ .symbol closer := by
  rintro rfl
  rcases hcloser with rfl | rfl | rfl <;> cases h

theorem exprs_recognised {es : List Expr} (hderives : Derives (.expr .equality e) ts)
    (h : Recognised (.expr .equality e) ts) (hmore : Derives (.moreExprs es) us)
    (hm : Recognised (.moreExprs es) us) : Recognised (.exprs (e :: es)) (ts ++ us) := by
  intro n budget closer more c hcloser hlength hbudget hc
  rw [List.append_assoc] at hc
  rw [List.length_append] at hlength hbudget
  obtain ⟨kind, rest, hkind, hstarts⟩ := hderives.expr_head
  have hahead : c.ahead = kind :: (rest ++ (us ++ .symbol closer :: more)) := by
    rw [hc, hkind, List.cons_append]
  -- the list does not end before its first element
  have hne : kind ≠ .symbol closer :=
    startsExpr_ne_closer hstarts (hcloser.imp_right Or.inl)
  refine reads_nextIs_false hahead hne ?_
  refine reads_part hderives h ?_ (follows_moreExprs hmore hcloser) hc fun d hd => ?_
  · rw [List.length_append, List.length_cons]
    omega
  refine (hm n budget closer more d hcloser (by omega) (by omega) hd).bind fun d' hd' => ?_
  refine reads_expect hd' fun d'' hd'' => ?_
  exact reads_pure (Cursor.ahead_of_kinds hd'')

theorem noPairs_recognised : Recognised (.pairs []) [] := by
  intro n budget more c _ hbudget hc
  cases budget with
  | zero => cases hbudget
  | succ budget =>
    refine reads_nextIs_true hc ?_
    refine reads_advance hc fun c' hc' => ?_
    exact reads_pure (Cursor.ahead_of_kinds hc')

/-- A pair, up to what comes after it. -/
theorem hashPairs_reads {key value : Expr} {ps : List (Expr × Expr)} {n budget : Nat}
    {rest : List TokenKind} (hk : Derives (.expr .equality key) ts)
    (hkey : Recognised (.expr .equality key) ts) (hv : Derives (.expr .equality value) us)
    (hvalue : Recognised (.expr .equality value) us)
    (hlength : ts.length + us.length + rest.length < n)
    (hrest : Follows .lowest rest) (hc : c.ahead = ts ++ .symbol .colon :: (us ++ rest))
    (hloop : ∀ d, d.ahead = rest → Reads (nextIs .rbrace >>= fun last =>
      if last then hashPairs (expression n) budget >>= fun ps => pure ((key, value) :: ps)
      else expect .comma >>= fun _ => hashPairs (expression n) budget >>= fun ps =>
        pure ((key, value) :: ps)) d ((key, value) :: ps) more) :
    Reads (hashPairs (expression n) (budget + 1)) c ((key, value) :: ps) more := by
  obtain ⟨kind, tail, hkind, hstarts⟩ := hk.expr_head
  have hahead : c.ahead = kind :: (tail ++ .symbol .colon :: (us ++ rest)) := by
    rw [hc, hkind, List.cons_append]
  -- the braces do not close before the first key
  have hne : kind ≠ .symbol .rbrace :=
    startsExpr_ne_closer hstarts (Or.inr (Or.inr rfl))
  refine reads_nextIs_false hahead hne ?_
  have hcolon : Follows .lowest (.symbol .colon :: (us ++ rest)) := follows_symbol _ rfl _
  refine reads_part hk hkey ?_ hcolon hc fun d hd => ?_
  · rw [List.length_cons, List.length_append]
    omega
  refine reads_expect hd fun d' hd' => ?_
  exact reads_part hv hvalue (by omega) hrest (Cursor.ahead_of_kinds hd') hloop

theorem lastPair_recognised {key value : Expr} (hk : Derives (.expr .equality key) ts)
    (hkey : Recognised (.expr .equality key) ts) (hv : Derives (.expr .equality value) us)
    (hvalue : Recognised (.expr .equality value) us) :
    Recognised (.pairs [(key, value)]) (ts ++ .symbol .colon :: us) := by
  intro n budget more c hlength hbudget hc
  rw [List.append_assoc, List.cons_append] at hc
  rw [List.length_append, List.length_cons] at hlength hbudget
  -- one round of the loop for the pair, and one for the closing brace
  obtain ⟨budget, rfl⟩ : ∃ b, budget = b + 1 + 1 := ⟨budget - 2, by omega⟩
  have hbrace : Follows .lowest (.symbol .rbrace :: more) := follows_symbol _ rfl more
  refine hashPairs_reads hk hkey hv hvalue ?_ hbrace hc fun d hd => ?_
  · rw [List.length_cons]
    omega
  refine reads_nextIs_true hd ?_
  exact (noPairs_recognised n (budget + 1) more d (by simp; omega) (by simp) hd).map _

theorem pair_recognised {key value : Expr} {ps : List (Expr × Expr)}
    (hk : Derives (.expr .equality key) ts) (hkey : Recognised (.expr .equality key) ts)
    (hv : Derives (.expr .equality value) us) (hvalue : Recognised (.expr .equality value) us)
    (hps : Recognised (.pairs ps) vs) :
    Recognised (.pairs ((key, value) :: ps))
      (ts ++ .symbol .colon :: us ++ .symbol .comma :: vs) := by
  intro n budget more c hlength hbudget hc
  simp only [List.append_assoc, List.cons_append] at hc
  simp only [List.length_append, List.length_cons] at hlength hbudget
  cases budget with
  | zero => omega
  | succ budget =>
    -- the value ends before the comma
    have hcomma : Follows .lowest (.symbol .comma :: (vs ++ .symbol .rbrace :: more)) :=
      follows_symbol _ rfl _
    refine hashPairs_reads hk hkey hv hvalue ?_ hcomma hc fun d hd => ?_
    · simp only [List.length_append, List.length_cons]
      omega
    refine reads_nextIs_false hd (by simp) ?_
    refine reads_expect hd fun d' hd' => ?_
    exact (hps n budget more d' (by omega) (by omega) (Cursor.ahead_of_kinds hd')).map _

/-! ### Statements -/

/-- A statement without its semicolon, given the kind of its first token. -/
def bareStatement (expr : Precedence → Parser Expr) : TokenKind → Parser Stmt
  | .keyword .kwLet => letStatement expr
  | .keyword .kwReturn => returnStatement expr
  | _ => exprStatement expr

theorem statement_apply (expr : Precedence → Parser Expr) (c : Cursor) :
    statement expr c =
      (bareStatement expr c.current.kind >>= fun s => skip .semicolon >>= fun _ => pure s) c := by
  change (match c.current.kind with
    | .keyword .kwLet => letStatement expr >>= fun s => skip .semicolon >>= fun _ => pure s
    | .keyword .kwReturn => returnStatement expr >>= fun s => skip .semicolon >>= fun _ => pure s
    | _ => exprStatement expr >>= fun s => skip .semicolon >>= fun _ => pure s : Parser Stmt) c = _
  unfold bareStatement
  generalize c.current.kind = kind
  cases kind with
  | keyword word => cases word <;> rfl
  | _ => rfl

/-- A statement is recognised if it is without its semicolon. -/
theorem stmt_recognised {s : Stmt} {kind : TokenKind}
    (h : ∀ n more c, ts.length + more.length < n → Follows .lowest more →
      c.kinds = kind :: (ts ++ more) → Reads (bareStatement (expression n) kind) c s more) :
    Recognised (.stmt s) (kind :: ts) := by
  intro n more c hlength hmore hc
  rw [List.length_cons] at hlength
  obtain ⟨c', hbare, hahead⟩ := h n more c (by omega) hmore hc
  refine ⟨c', hahead, ?_⟩
  rw [statement_apply, Cursor.current_of_kinds hc, bind_clean hbare]

theorem letBe_recognised {name : String} (hderives : Derives (.expr .equality e) ts)
    (h : Recognised (.expr .equality e) ts) :
    Recognised (.stmt (.letBe name e))
      (.keyword .kwLet :: .ident name :: .symbol .assign :: ts) := by
  refine stmt_recognised fun n more c hlength hmore hc => ?_
  simp only [List.length_cons] at hlength
  refine reads_expectName (Cursor.ahead_of_kinds hc) fun c' hc' => ?_
  refine reads_expect hc' fun d hd => ?_
  refine reads_part hderives h (by omega) hmore (Cursor.ahead_of_kinds hd) fun d' hd' => ?_
  exact reads_pure hd'

theorem ret_recognised (hderives : Derives (.expr .equality e) ts)
    (h : Recognised (.expr .equality e) ts) :
    Recognised (.stmt (.ret e)) (.keyword .kwReturn :: ts) := by
  refine stmt_recognised fun n more c hlength hmore hc => ?_
  refine reads_part hderives h (by omega) hmore (Cursor.ahead_of_kinds hc) fun d hd => ?_
  exact reads_pure hd

theorem expr_recognised (hderives : Derives (.expr .equality e) ts)
    (h : Recognised (.expr .equality e) ts) : Recognised (.stmt (.expr e)) ts := by
  obtain ⟨kind, rest, rfl, hstarts⟩ := hderives.expr_head
  refine stmt_recognised fun n more c hlength hmore hc => ?_
  -- neither `let` nor `return` starts an expression
  have hbare : bareStatement (expression n) kind = exprStatement (expression n) := by
    unfold bareStatement
    split
    · cases hstarts
    · cases hstarts
    · rfl
  rw [hbare]
  have hread : Reads (expression n .lowest) c e more :=
    h.reads_lowest (by rw [List.length_cons]; omega) hmore hc
  exact hread.map _

theorem noStmts_recognised : Recognised (.stmts []) [] := by
  intro n budget closer loop more c hloop _ hbudget hc
  cases budget with
  | zero => cases hbudget
  | succ budget => exact ⟨c, hloop.stop budget c (Cursor.current_of_kinds hc), hc⟩

/-- Neither closing token is a semicolon or a suffix. -/
theorem StatementLoop.follows {n : Nat} {closer : TokenKind} {loop : Nat → Parser (List Stmt)}
    (h : StatementLoop (expression n) closer loop) (more : List TokenKind) :
    Follows .lowest (closer :: more) ∧ closer ≠ .symbol .semicolon := by
  rcases h.closer_eq with rfl | rfl
  · exact ⟨follows_symbol _ rfl more, by simp⟩
  · exact ⟨⟨by simp, fun s hs => by cases hs⟩, by simp⟩

/-- A first statement, once it and its semicolon have been read. -/
theorem stmts_reads {s : Stmt} {ss : List Stmt} {n budget : Nat} {closer : TokenKind}
    {loop : Nat → Parser (List Stmt)} {rest : List TokenKind}
    (hloop : StatementLoop (expression n) closer loop) (hderives : Derives (.stmt s) ts)
    (hstmts : Recognised (.stmts ss) us) (hc : c.kinds = ts ++ rest)
    (hstatement : Reads (statement (expression n)) c s (us ++ closer :: more))
    (hlength : us.length + more.length < n) (hbudget : us.length < budget) :
    ∃ c', loop (budget + 1) c = .done (s :: ss) [] c' ∧ c'.kinds = closer :: more := by
  obtain ⟨first, tail, rfl, hstarts⟩ := hderives.stmt_head
  rw [hloop.step budget c (by rw [Cursor.current_of_kinds hc]; exact hstarts)]
  obtain ⟨c', hattempt, hahead⟩ := hstatement.attempt
  obtain ⟨next, others, hnext⟩ : ∃ next others, us ++ closer :: more = next :: others := by
    cases us with
    | nil => exact ⟨_, _, rfl⟩
    | cons next others => exact ⟨_, _, rfl⟩
  have hadvance : c'.advance.kinds = us ++ closer :: more := by
    rw [hnext] at hahead ⊢
    exact Cursor.kinds_advance hahead
  -- the loop goes on where the statement ends, with one unit of fuel less
  obtain ⟨d, hrest, hd⟩ := hstmts n budget closer loop more _ hloop hlength hbudget hadvance
  refine ⟨d, ?_, hd⟩
  rw [bind_clean hattempt]
  change (loop budget >>= fun rest => pure ((some s).toList ++ rest)) c'.advance = _
  rw [bind_clean hrest]
  rfl

theorem closed_recognised {s : Stmt} {ss : List Stmt} (hderives : Derives (.stmt s) ts)
    (h : Recognised (.stmt s) ts) (hstmts : Recognised (.stmts ss) us) :
    Recognised (.stmts (s :: ss)) (ts ++ .symbol .semicolon :: us) := by
  intro n budget closer loop more c hloop hlength hbudget hc
  rw [List.append_assoc, List.cons_append] at hc
  rw [List.length_append, List.length_cons] at hlength hbudget
  cases budget with
  | zero => omega
  | succ budget =>
    refine stmts_reads hloop hderives hstmts hc ?_ (by omega) (by omega)
    have hsemicolon : Follows .lowest (.symbol .semicolon :: (us ++ closer :: more)) :=
      follows_symbol _ rfl _
    have hfits : ts.length +
        (TokenKind.symbol .semicolon :: (us ++ closer :: more)).length ≤ n := by
      simp only [List.length_append, List.length_cons]
      omega
    obtain ⟨c', hahead, hstatement⟩ := h n _ c hfits hsemicolon hc
    refine ⟨c'.advance, ?_, Cursor.ahead_of_kinds (Cursor.kinds_advance hahead)⟩
    -- the semicolon is there, so it is skipped
    have hskip : skip .semicolon c' = .done () [] c'.advance := by
      rw [skip, if_pos (Cursor.kind_next hahead)]
      rfl
    rw [hstatement, bind_clean hskip]
    rfl

theorem unclosed_recognised {s : Stmt} {ss : List Stmt} (hderives : Derives (.stmt s) ts)
    (h : Recognised (.stmt s) ts) (hrest : Derives (.stmts ss) us)
    (hstmts : Recognised (.stmts ss) us)
    (hnext : ∀ kind ∈ us.head?, Suffix.ofKind? kind = none) :
    Recognised (.stmts (s :: ss)) (ts ++ us) := by
  intro n budget closer loop more c hloop hlength hbudget hc
  rw [List.append_assoc] at hc
  rw [List.length_append] at hlength hbudget
  have hfirst : 0 < ts.length := by
    obtain ⟨first, tail, rfl, -⟩ := hderives.stmt_head
    rw [List.length_cons]
    omega
  cases budget with
  | zero => omega
  | succ budget =>
    refine stmts_reads hloop hderives hstmts hc ?_ (by omega) (by omega)
    -- what follows ends the statement and is no semicolon
    have hends : Follows .lowest (us ++ closer :: more) ∧
        ∀ kind rest, us ++ closer :: more = kind :: rest → kind ≠ .symbol .semicolon := by
      cases us with
      | nil =>
        obtain ⟨hfollows, hne⟩ := hloop.follows more
        refine ⟨hfollows, fun kind rest heq => ?_⟩
        cases heq
        exact hne
      | cons kind rest =>
        have hstarts : kind.startsStmt = true := hrest.stmts_head kind rfl
        refine ⟨⟨?_, fun t ht => ?_⟩, fun other rest heq => ?_⟩
        · rintro rfl
          cases hstarts
        · rw [hnext kind rfl] at ht
          cases ht
        · cases heq
          rintro rfl
          cases hstarts
    have hfits : ts.length + (us ++ closer :: more).length ≤ n := by
      simp only [List.length_append, List.length_cons]
      omega
    obtain ⟨c', hahead, hstatement⟩ := h n _ c hfits hends.1 hc
    refine ⟨c', ?_, hahead⟩
    -- no semicolon is there, so none is skipped
    have hskip : skip .semicolon c' = .done () [] c' := by
      cases hkinds : us ++ closer :: more with
      | nil => simp at hkinds
      | cons kind rest =>
        rw [hkinds] at hahead
        rw [skip, if_neg]
        rw [Cursor.kind_next hahead]
        exact hends.2 kind rest hkinds
    rw [hstatement, bind_clean hskip]
    rfl

end

/-- **The parser recognises every phrase** of the grammar. -/
theorem recognised_of_derives {φ : Phrase} {ts : List TokenKind} (h : Derives φ ts) :
    Recognised φ ts := by
  induction h with
  -- one lemma for each rule of the grammar
  | ident name => exact ident_recognised name
  | int value => exact int_recognised value
  | str text => exact str_recognised text
  | bool b => exact bool_recognised b
  | group hd ih => exact group_recognised hd ih
  | cond hd hb ih ihb => exact cond_recognised hd ih hb ihb
  | condElse hd hb ho ih ihb iho => exact condElse_recognised hd ih hb ihb ho iho
  | fn hb ihb => exact fn_recognised hb ihb
  | macroFn hb ihb => exact macroFn_recognised hb ihb
  | array _ ih => exact array_recognised ih
  | hash _ ih => exact hash_recognised ih
  | call _ _ ih iha => exact call_recognised ih iha
  | index _ hp ih ihp => exact index_recognised ih hp ihp
  | unary hd ih => exact unary_recognised hd ih
  | binary _ hlevel hr ihl ihr => exact binary_recognised ihl hlevel hr ihr
  | weaker hlt _ ih => exact weaker_recognised hlt ih
  | noExprs => exact noExprs_recognised
  | exprs hd hm ih ihm => exact exprs_recognised hd ih hm ihm
  | noMoreExprs => exact noMoreExprs_recognised
  | moreExprs hd hm ih ihm => exact moreExprs_recognised hd ih hm ihm
  | noPairs => exact noPairs_recognised
  | lastPair hk hv ihk ihv => exact lastPair_recognised hk ihk hv ihv
  | pair hk hv _ ihk ihv ihp => exact pair_recognised hk ihk hv ihv ihp
  | letBe hd ih => exact letBe_recognised hd ih
  | ret hd ih => exact ret_recognised hd ih
  | expr hd ih => exact expr_recognised hd ih
  | noStmts => exact noStmts_recognised
  | closed hs _ ihs ihr => exact closed_recognised hs ihs ihr
  | unclosed hs hr hn ihs ihr => exact unclosed_recognised hs ihs hr ihr hn

end Parser

/-- Tokens that end with an end token stay as they are. -/
theorem closeTokens_of_kinds {tokens : List Token} {ts : List TokenKind}
    (hkinds : tokens.map Token.kind = ts ++ [.eof]) : closeTokens tokens = tokens := by
  have hlast : tokens.getLast?.map Token.kind = some .eof := by
    rw [← List.getLast?_map, hkinds, List.getLast?_concat]
  obtain ⟨last, hsome, hkind⟩ := Option.map_eq_some_iff.1 hlast
  rw [closeTokens, hsome]
  simp only
  rw [if_pos hkind]

/-- Tokens that the grammar derives, with an end token last, are read as the program that they
stand for. -/
theorem parseTokens_of_kinds {tokens : List Token} {program : Program} {ts : List TokenKind}
    (hkinds : tokens.map Token.kind = ts ++ [.eof]) (h : Derives (.stmts program) ts) :
    parseTokens tokens = ⟨program, []⟩ := by
  have hclosed := closeTokens_of_kinds hkinds
  have hcursor : (Cursor.ofTokens tokens).kinds = ts ++ [.eof] := by
    rw [Cursor.ofTokens, hclosed, ← hkinds]
    cases tokens with
    | nil => simp at hkinds
    | cons token rest => rfl
  -- the budget is larger than the number of tokens
  have hlength : tokens.length = ts.length + 1 := by
    rw [← List.length_map Token.kind, hkinds, List.length_append, List.length_singleton]
  obtain ⟨c, hprogram, -⟩ := Parser.recognised_of_derives h (tokens.length + 2)
    (tokens.length + 2) .eof _ [] _ (Parser.statementLoop_toEnd _)
    (by rw [List.length_nil]; omega) (by omega) hcursor
  rw [parseTokens, Parser.program, hprogram]

end Monkey
