import Monkey.Proofs.Recognition

/-!
# Reading accounts for every token

Wherever the parser stands, it ends, it only ever moves on, and it fails only with an error to
report.  Where it answers without errors, the tokens that it has moved over are a phrase of the
grammar that stands for its answer.  So a list of tokens that is read without errors is a sentence,
and nothing of it was skipped.

The loop over suffixes needs to know more than the tokens behind it: the operand in hand binds at
least as strongly as whatever comes next, because the loop that read its last part has stopped
there.

## Main definitions

* `Cursor.Closed`, `Cursor.On` — an end token is the last one, in a given list of tokens.
* `Parser.Accounts` — what a parser does from a cursor, and what its answer stands for.
* `Stops`, `ReadAt` — where the loop over suffixes ends, and what it has then read.

## Main results

* `Parser.expression_accounts` — **an expression accounts for the tokens it was read from**, by
  induction on the budget.
-/

namespace Monkey

/-! ### Cursors before an end token -/

namespace Cursor

/-- The last token is an end token. -/
def Closed (c : Cursor) : Prop := c.kinds.getLast? = some .eof

variable {c : Cursor}

@[simp] theorem length_kinds (c : Cursor) : c.kinds.length = c.ahead.length + 1 := by
  rw [kinds, List.length_cons]

theorem current_advance_kinds (c : Cursor) :
    c.advance.kinds = c.advance.current.kind :: c.advance.ahead := rfl

/-- A cursor with tokens ahead moves to the first of them. -/
theorem kinds_advance_of_ne_nil (h : c.ahead ≠ []) : c.ahead = c.advance.kinds := by
  obtain ⟨token, rest⟩ := c
  cases rest with
  | nil => exact absurd rfl h
  | cons next rest => rfl

/-- A cursor with no tokens ahead stays. -/
theorem advance_of_nil (h : c.ahead = []) : c.advance = c := by
  obtain ⟨token, rest⟩ := c
  cases rest with
  | nil => rfl
  | cons next rest => cases h

theorem kind_next_of_head {kind : TokenKind} (h : kind ∈ c.ahead.head?) : c.next.kind = kind := by
  obtain ⟨token, rest⟩ := c
  cases rest with
  | nil => cases h
  | cons next rest =>
    cases h
    rfl

namespace Closed

theorem current_of_nil (h : c.Closed) (hnil : c.ahead = []) : c.current.kind = .eof := by
  have hlast : some c.current.kind = some .eof := by
    rwa [Closed, kinds, hnil] at h
  exact Option.some.inj hlast

/-- Something comes after what is no end token. -/
theorem ahead_of_current (h : c.Closed) (hne : c.current.kind ≠ .eof) :
    c.ahead = c.advance.kinds :=
  kinds_advance_of_ne_nil fun hnil => hne (h.current_of_nil hnil)

/-- What is no end token comes after the current token. -/
theorem ahead_of_next (h : c.Closed) (hne : c.next.kind ≠ .eof) : c.ahead = c.advance.kinds := by
  refine kinds_advance_of_ne_nil fun hnil => hne ?_
  rw [← current_advance, advance_of_nil hnil]
  exact h.current_of_nil hnil

theorem advance (h : c.Closed) : c.advance.Closed := by
  by_cases hnil : c.ahead = []
  · rwa [advance_of_nil hnil]
  · have hkinds := kinds_advance_of_ne_nil hnil
    have hlast : c.kinds.getLast? = c.advance.kinds.getLast? := by
      rw [kinds, hkinds, current_advance_kinds, List.getLast?_cons_cons]
    rwa [Closed, ← hlast]

end Closed

/-- The cursor is at some place in a list of tokens of which the last one is an end token. -/
structure On (track : List Token) (c : Cursor) : Prop where
  suffix : c.tokens <:+ track
  closed : c.Closed

theorem tokens_advance_suffix (c : Cursor) : c.advance.tokens <:+ c.tokens := by
  obtain ⟨token, rest⟩ := c
  cases rest with
  | nil => exact List.suffix_refl _
  | cons next rest => exact List.suffix_cons token _

theorem Closed.on (h : c.Closed) : c.On c.tokens := ⟨List.suffix_refl _, h⟩

namespace On

variable {track : List Token}

theorem ahead_of_current (h : c.On track) (hne : c.current.kind ≠ .eof) :
    c.ahead = c.advance.kinds :=
  h.closed.ahead_of_current hne

theorem ahead_of_next (h : c.On track) (hne : c.next.kind ≠ .eof) : c.ahead = c.advance.kinds :=
  h.closed.ahead_of_next hne

theorem advance (h : c.On track) : c.advance.On track :=
  ⟨c.tokens_advance_suffix.trans h.suffix, h.closed.advance⟩

end On

theorem kinds_ofTokens (tokens : List Token) :
    (ofTokens tokens).kinds = (closeTokens tokens).map Token.kind := by
  rw [← tokens_ofTokens]
  rfl

/-- A list of tokens is read up to an end token. -/
theorem closed_ofTokens (tokens : List Token) : (ofTokens tokens).Closed := by
  rw [Closed, kinds_ofTokens, List.getLast?_map]
  unfold closeTokens
  split
  · rfl
  · next last hlast =>
    split
    · next heof => rw [hlast, Option.map_some, heof]
    · rw [List.getLast?_concat, Option.map_some]

theorem on_ofTokens (tokens : List Token) : (ofTokens tokens).On (closeTokens tokens) :=
  ⟨(tokens_ofTokens tokens).symm ▸ List.suffix_refl _, closed_ofTokens tokens⟩

theorem length_ahead_ofTokens (tokens : List Token) :
    (ofTokens tokens).ahead.length ≤ tokens.length := by
  have hlength : (closeTokens tokens).length ≤ tokens.length + 1 := by
    unfold closeTokens
    split
    · simp
    · split
      · omega
      · simp
  have hkinds := congrArg List.length (kinds_ofTokens tokens)
  rw [length_kinds, List.length_map] at hkinds
  omega

end Cursor

namespace Parser

/-! ### Parsers that account for their tokens -/

/-- From the cursor the parser ends, only moves on, within the given tokens, and fails only with an
error.  If it answers without errors, `Q` holds of the answer, of the kinds of the tokens that were
moved over, and of those that come next. -/
def Accounts (track : List Token) {α : Type} (p : Parser α) (c : Cursor)
    (Q : α → List TokenKind → List TokenKind → Prop) : Prop :=
  match p c with
  | .done a es c' =>
    c'.On track ∧ ∃ used, c.ahead = used ++ c'.ahead ∧ (es = [] → Q a used c'.ahead)
  | .failed es c' => es ≠ [] ∧ c'.On track ∧ ∃ used, c.ahead = used ++ c'.ahead
  | .exhausted => False

section

variable {track : List Token} {α β : Type} {p : Parser α} {k : α → Parser β} {c : Cursor}
  {Q : α → List TokenKind → List TokenKind → Prop}
  {R : β → List TokenKind → List TokenKind → Prop}

namespace Accounts

/-- Going on after a part.  What the part has read counts only if it has met no error. -/
theorem bind (h : Accounts track p c Q)
    (hk : ∀ a c' used, c'.On track → c.ahead = used ++ c'.ahead →
      Accounts track (k a) c' fun b more next => Q a used c'.ahead → R b (used ++ more) next) :
    Accounts track (p >>= k) c R := by
  unfold Accounts at h
  cases hp : p c with
  | done a es c' =>
    rw [hp] at h
    obtain ⟨hclosed, used, hused, hQ⟩ := h
    -- both have read their tokens: what was used is used in turn
    have hrest := hk a c' used hclosed hused
    unfold Accounts at hrest ⊢
    rw [bind_done hp]
    cases hka : k a c' with
    | done b fs d =>
      rw [hka] at hrest
      obtain ⟨hd, more, hmore, hR⟩ := hrest
      -- no error in all means none in the part, so that its reading counts
      refine ⟨hd, used ++ more, by rw [hused, hmore, List.append_assoc], fun hnone => ?_⟩
      obtain ⟨hes, hfs⟩ := List.append_eq_nil_iff.1 hnone
      exact hR hfs (hQ hes)
    | failed fs d =>
      rw [hka] at hrest
      obtain ⟨hfs, hd, more, hmore⟩ := hrest
      -- a failure further on is a failure with an error, whatever the part has met
      refine ⟨fun hnone => hfs (List.append_eq_nil_iff.1 hnone).2, hd, used ++ more, ?_⟩
      rw [hused, hmore, List.append_assoc]
    | exhausted =>
      rw [hka] at hrest
      exact hrest.elim
  | failed es c' =>
    rw [hp] at h
    unfold Accounts
    rw [bind_failed hp]
    exact h
  | exhausted =>
    rw [hp] at h
    exact h.elim

theorem imp {Q' : α → List TokenKind → List TokenKind → Prop} (h : Accounts track p c Q)
    (himp : ∀ a used next, c.ahead = used ++ next → Q a used next → Q' a used next) :
    Accounts track p c Q' := by
  unfold Accounts at h ⊢
  cases hp : p c with
  | done a es c' =>
    rw [hp] at h
    obtain ⟨hclosed, used, hused, hQ⟩ := h
    exact ⟨hclosed, used, hused, fun hes => himp a used _ hused (hQ hes)⟩
  | failed es c' =>
    rw [hp] at h
    exact h
  | exhausted =>
    rw [hp] at h
    exact h

theorem ne_exhausted (h : Accounts track p c Q) : p c ≠ .exhausted := by
  intro hexhausted
  unfold Accounts at h
  rwa [hexhausted] at h

theorem pure {a : α} (hc : c.On track) (h : Q a [] c.ahead) : Accounts track (pure a) c Q :=
  ⟨hc, [], rfl, fun _ => h⟩

/-- An answer that is made of another one. -/
theorem map (h : Accounts track p c Q) (f : α → β)
    (hf : ∀ a used next, Q a used next → R (f a) used next) :
    Accounts track (p >>= fun a => Pure.pure (f a)) c R := by
  refine h.bind fun a c' used hc' _ => .pure hc' fun hQ => ?_
  rw [List.append_nil]
  exact hf a used _ hQ

theorem reject (hc : c.On track) (e : ParseError) : Accounts track (reject e) c Q :=
  ⟨by simp, hc, [], rfl⟩

/-- A step that answers without errors, and what comes after it. -/
theorem step (used : List TokenKind) {a : α} {c' : Cursor} (hp : p c = .done a [] c')
    (hused : c.ahead = used ++ c'.ahead)
    (hk : Accounts track (k a) c' fun b more next => R b (used ++ more) next) :
    Accounts track (p >>= k) c R := by
  unfold Accounts at hk ⊢
  rw [bind_clean hp]
  cases hka : k a c' with
  | done b fs d =>
    rw [hka] at hk
    obtain ⟨hd, more, hmore, hR⟩ := hk
    exact ⟨hd, used ++ more, by rw [hused, hmore, List.append_assoc], hR⟩
  | failed fs d =>
    rw [hka] at hk
    obtain ⟨hfs, hd, more, hmore⟩ := hk
    exact ⟨hfs, hd, used ++ more, by rw [hused, hmore, List.append_assoc]⟩
  | exhausted =>
    rw [hka] at hk
    exact hk

/-- A step that fails where it stands. -/
theorem failed {e : ParseError} (hc : c.On track) (hp : p c = .failed [e] c) :
    Accounts track (p >>= k) c R := by
  unfold Accounts
  rw [bind_failed hp]
  exact ⟨by simp, hc, [], rfl⟩

theorem current {k : Token → Parser β} (h : Accounts track (k c.current) c R) :
    Accounts track (current >>= k) c R :=
  step [] (current_apply c) rfl h

theorem next {k : Token → Parser β} (h : Accounts track (k c.next) c R) :
    Accounts track (next >>= k) c R :=
  step [] (next_apply c) rfl h

/-- A step to the token that comes next. -/
theorem advance {k : Unit → Parser β} (hc : c.On track) (hnext : c.ahead = c.advance.kinds)
    (hk : ∀ c' : Cursor, c'.On track → c.ahead = c'.kinds → c'.current.kind = c.next.kind →
      Accounts track (k ()) c' fun b used next => R b (c'.current.kind :: used) next) :
    Accounts track (advance >>= k) c R :=
  step [c.advance.current.kind] rfl hnext
    (hk c.advance hc.advance hnext (by rw [Cursor.current_advance]))

/-- A step to a given symbol, or an error. -/
theorem expect {sign : Symbol} {k : Unit → Parser β} (hc : c.On track)
    (hk : ∀ c' : Cursor, c'.On track → c.ahead = c'.kinds → c'.current.kind = .symbol sign →
      Accounts track (k ()) c' fun b used next => R b (.symbol sign :: used) next) :
    Accounts track (expect sign >>= k) c R := by
  by_cases hnext : c.next.kind = .symbol sign
  · have hexpect : Parser.expect sign c = .done () [] c.advance := by
      rw [Parser.expect, if_pos hnext]
      rfl
    have hahead : c.ahead = c.advance.kinds := hc.ahead_of_next (by rw [hnext]; simp)
    have hcurrent : c.advance.current.kind = .symbol sign := by
      rw [Cursor.current_advance, hnext]
    refine step [.symbol sign] hexpect ?_ (hk c.advance hc.advance hahead hcurrent)
    rw [hahead, Cursor.current_advance_kinds, hcurrent]
    rfl
  · have hexpect : Parser.expect sign c = Parser.rejectNext (.symbol sign) c := by
      rw [Parser.expect, if_neg hnext]
    exact failed hc hexpect

/-- A step to a name, or an error. -/
theorem expectName {k : String → Parser β} (hc : c.On track)
    (hk : ∀ (name : String) (c' : Cursor), c'.On track → c.ahead = c'.kinds →
      c'.current.kind = .ident name →
      Accounts track (k name) c' fun b used next => R b (.ident name :: used) next) :
    Accounts track (expectName >>= k) c R := by
  cases hnext : c.next.kind with
  | ident name =>
    have hname : Parser.expectName c = .done name [] c.advance := by
      rw [Parser.expectName, hnext]
    have hahead : c.ahead = c.advance.kinds := hc.ahead_of_next (by rw [hnext]; simp)
    have hcurrent : c.advance.current.kind = .ident name := by
      rw [Cursor.current_advance, hnext]
    -- the name is the one token that is used
    refine step [.ident name] hname ?_ (hk name c.advance hc.advance hahead hcurrent)
    rw [hahead, Cursor.current_advance_kinds, hcurrent]
    rfl
  | _ =>
    have hname : Parser.expectName c = Parser.rejectNext .ident c := by
      rw [Parser.expectName, hnext]
    exact failed hc hname

/-- A look at what comes next. -/
theorem nextIs {sign : Symbol} {p q : Parser β}
    (hp : c.next.kind = .symbol sign → Accounts track p c R)
    (hq : c.next.kind ≠ .symbol sign → Accounts track q c R) :
    Accounts track (nextIs sign >>= fun found => if found then p else q) c R := by
  by_cases hnext : c.next.kind = .symbol sign
  · have hfound : Parser.nextIs sign c = .done true [] c := by
      rw [Parser.nextIs, decide_eq_true hnext]
    exact step [] hfound rfl (hp hnext)
  · have hfound : Parser.nextIs sign c = .done false [] c := by
      rw [Parser.nextIs, decide_eq_false hnext]
    exact step [] hfound rfl (hq hnext)

/-- A failure that is an answer has met an error. -/
theorem attempt (h : Accounts track p c Q) :
    Accounts track (attempt p) c fun o used next => ∃ a, o = some a ∧ Q a used next := by
  unfold Accounts at h
  cases hp : p c with
  | done a es c' =>
    have hattempt : Parser.attempt p c = .done (some a) es c' := by rw [Parser.attempt, hp]
    rw [hp] at h
    obtain ⟨hclosed, used, hused, hQ⟩ := h
    unfold Accounts
    rw [hattempt]
    exact ⟨hclosed, used, hused, fun hes => ⟨a, rfl, hQ hes⟩⟩
  -- a failed attempt is accounted for by its errors alone
  | failed es c' =>
    have hattempt : Parser.attempt p c = .done none es c' := by rw [Parser.attempt, hp]
    rw [hp] at h
    obtain ⟨hes, hclosed, used, hused⟩ := h
    unfold Accounts
    rw [hattempt]
    exact ⟨hclosed, used, hused, fun hnone => absurd hnone hes⟩
  | exhausted =>
    rw [hp] at h
    exact h.elim

end Accounts

theorem length_of_kinds {c c' : Cursor} (h : c.ahead = c'.kinds) :
    c.ahead.length = c'.ahead.length + 1 := by
  rw [h, Cursor.length_kinds]

/-! ### Names -/

theorem moreNames_accounts : ∀ (budget : Nat) (c : Cursor), c.On track → c.ahead.length < budget →
    Accounts track (moreNames budget) c fun names used _ => used = moreNameTokens names
  | 0, _, _, h => absurd h (Nat.not_lt_zero _)
  | budget + 1, c, hc, h => by
    refine .nextIs (fun hcomma => ?_) fun _ => .pure hc rfl
    have hahead : c.ahead = c.advance.kinds := hc.ahead_of_next (by rw [hcomma]; simp)
    refine .advance hc hahead fun c' hc' hnext hcurrent => ?_
    refine .expectName hc' fun name c'' hc'' hnext' _ => ?_
    have hlength : c''.ahead.length < budget := by
      rw [length_of_kinds hnext, length_of_kinds hnext'] at h
      omega
    refine (moreNames_accounts budget c'' hc'' hlength).map _ fun names used _ hused => ?_
    rw [hcurrent, hcomma, hused]
    rfl

theorem paramList_accounts {budget : Nat} {c : Cursor} (hc : c.On track)
    (h : c.ahead.length < budget) :
    Accounts track (paramList budget) c fun params used _ =>
      used = parenthesised (nameTokens params) := by
  refine .expect hc fun c' hc' hnext _ => ?_
  refine .nextIs (fun hclose => ?_) fun _ => ?_
  · have hahead : c'.ahead = c'.advance.kinds := hc'.ahead_of_next (by rw [hclose]; simp)
    refine .advance hc' hahead fun c'' hc'' _ hcurrent => .pure hc'' ?_
    rw [hcurrent, hclose]
    rfl
  · refine .expectName hc' fun name d hd hname _ => ?_
    have hlength : d.ahead.length < budget := by
      rw [length_of_kinds hnext, length_of_kinds hname] at h
      omega
    refine (moreNames_accounts budget d hd hlength).bind fun names d' used hd' _ => ?_
    refine .expect hd' fun d'' hd'' _ _ => .pure hd'' fun hused => ?_
    simp [hused, parenthesised, nameTokens]

end

/-! ### What an expression was read as -/

/-- Nothing that comes next binds more strongly than a level. -/
def Stops (level : Precedence) (next : List TokenKind) : Prop :=
  ∀ kind ∈ next.head?, ∀ s, Suffix.ofKind? kind = some s → ¬level < s.precedence

/-- Reading at `level` has read `e` from the tokens `ts`, and has stopped before `next`. -/
def ReadAt (level : Precedence) (e : Expr) (ts next : List TokenKind) : Prop :=
  ∃ strength, Fits level strength ∧ Derives (.expr strength e) ts ∧ Stops level next

theorem stops_index (next : List TokenKind) : Stops .index next := by
  intro kind _ s _ hlt
  rw [Precedence.lt_iff] at hlt
  cases s with
  | operator op => cases op <;> exact absurd hlt (by decide)
  | call | index => exact absurd hlt (by decide)

/-- Every suffix binds more strongly than the lowest level. -/
theorem lowest_lt_precedence (s : Suffix) : Precedence.lowest < s.precedence := by
  cases s with
  | operator op => cases op <;> decide
  | call | index => decide

/-- Where reading at the lowest level stops, no suffix comes next. -/
theorem Stops.ofKind?_eq_none {kind : TokenKind} {next : List TokenKind}
    (h : Stops .lowest (kind :: next)) : Suffix.ofKind? kind = none := by
  cases hs : Suffix.ofKind? kind with
  | none => rfl
  | some s => exact absurd (lowest_lt_precedence s) (h kind rfl s hs)

/-- What is read at the lowest level is an expression as the grammar has it. -/
theorem ReadAt.derives {e : Expr} {ts next : List TokenKind} (h : ReadAt .lowest e ts next) :
    Derives (.expr .equality e) ts := by
  obtain ⟨strength, hfits, hderives, -⟩ := h
  refine hderives.loosen ?_
  rcases hfits.2 with hlt | hle
  · exact hlt
  · exact Nat.le_trans (by decide) hle

theorem ReadAt.stops {level : Precedence} {e : Expr} {ts next : List TokenKind}
    (h : ReadAt level e ts next) : Stops level next := by
  obtain ⟨-, -, -, hstops⟩ := h
  exact hstops

/-! ### Lists of expressions -/

/-- A parser of expressions that accounts for its tokens wherever fewer than `n` are ahead. -/
def Reading (track : List Token) (expr : Precedence → Parser Expr) (n : Nat) : Prop :=
  ∀ level c, c.On track → c.ahead.length < n → level.rank ≤ Precedence.sign.rank →
    Accounts track (expr level) c fun e used next => ReadAt level e (c.current.kind :: used) next

section

variable {track : List Token} {expr : Precedence → Parser Expr} {n budget : Nat} {c : Cursor}

/-- An expression that is read as a part of its own, from the next token on. -/
theorem Accounts.part {β : Type} {k : Expr → Parser β}
    {R : β → List TokenKind → List TokenKind → Prop} (h : Reading track expr n) (hc : c.On track)
    (hnext : c.ahead = c.advance.kinds) (hlength : c.ahead.length ≤ n)
    (hk : ∀ e ts c', c'.On track → c.ahead = ts ++ c'.ahead → c'.ahead.length < c.ahead.length →
      Accounts track (k e) c' fun b used next =>
        Derives (.expr .equality e) ts → Stops .lowest c'.ahead → R b (ts ++ used) next) :
    Accounts track (Parser.advance >>= fun _ => expr .lowest >>= k) c R := by
  refine .advance hc hnext fun c' hc' hahead _ => ?_
  have hless := length_of_kinds hahead
  refine (h .lowest c' hc' (by omega) (by decide)).bind fun e d used hd hused => ?_
  have hsplit : c.ahead = c'.current.kind :: used ++ d.ahead := by
    rw [hahead, Cursor.kinds, hused, List.cons_append]
  have hshort : d.ahead.length < c.ahead.length := by
    rw [hsplit, List.length_append, List.length_cons]
    omega
  refine (hk e _ d hd hsplit hshort).imp fun b more next _ hR hread => ?_
  exact hR hread.derives hread.stops

theorem moreExprs_accounts (h : Reading track expr n) : ∀ (budget : Nat) (c : Cursor), c.On track →
    c.ahead.length ≤ n → c.ahead.length < budget →
    Accounts track (moreExprs expr budget) c fun es used _ => Derives (.moreExprs es) used
  | 0, _, _, _, hbudget => absurd hbudget (Nat.not_lt_zero _)
  | budget + 1, c, hc, hlength, hbudget => by
    refine .nextIs (fun hcomma => ?_) fun _ => .pure hc .noMoreExprs
    have hahead : c.ahead = c.advance.kinds := hc.ahead_of_next (by rw [hcomma]; simp)
    refine .advance hc hahead fun c' hc' hnext hcurrent => ?_
    rw [hcomma] at hcurrent
    have hless := length_of_kinds hnext
    have hahead' : c'.ahead = c'.advance.kinds := hc'.ahead_of_current (by rw [hcurrent]; simp)
    refine .part h hc' hahead' (by omega) fun e ts d hd _ hshort => ?_
    refine (moreExprs_accounts h budget d hd (by omega) (by omega)).map _ ?_
    intro es used next hes he _
    rw [hcurrent]
    exact .moreExprs he hes

theorem exprList_accounts (h : Reading track expr n) {closer : Symbol} (hc : c.On track)
    (hcurrent : c.current.kind ≠ .eof) (hlength : c.ahead.length ≤ n)
    (hbudget : c.ahead.length < budget) :
    Accounts track (exprList expr closer budget) c fun es used _ =>
      ∃ ts, used = ts ++ [.symbol closer] ∧ Derives (.exprs es) ts := by
  have hahead := hc.ahead_of_current hcurrent
  refine .nextIs (fun hclose => ?_) fun _ => ?_
  · refine .advance hc hahead fun c' hc' _ hcloser => .pure hc' ⟨[], ?_, .noExprs⟩
    rw [hcloser, hclose]
    rfl
  · refine .part h hc hahead hlength fun e ts d hd _ hshort => ?_
    refine (moreExprs_accounts h budget d hd (by omega) (by omega)).bind fun es d' used hd' _ => ?_
    refine .expect hd' fun d'' hd'' _ _ => .pure hd'' fun hes he _ => ?_
    refine ⟨ts ++ used, ?_, .exprs he hes⟩
    rw [List.append_assoc]

theorem hashPairs_close (hclose : c.next.kind = .symbol .rbrace) (budget : Nat) :
    hashPairs expr (budget + 1) c = .done [] [] c.advance := by
  have hfound : nextIs .rbrace c = .done true [] c := by
    rw [nextIs, decide_eq_true hclose]
  unfold hashPairs
  rw [bind_clean hfound]
  rfl

theorem hashPairs_accounts (h : Reading track expr n) : ∀ (budget : Nat) (c : Cursor), c.On track →
    c.ahead = c.advance.kinds → c.ahead.length ≤ n → c.ahead.length < budget →
    Accounts track (hashPairs expr budget) c fun ps used _ =>
      ∃ ts, used = ts ++ [.symbol .rbrace] ∧ Derives (.pairs ps) ts
  | 0, _, _, _, _, hbudget => absurd hbudget (Nat.not_lt_zero _)
  | budget + 1, c, hc, hahead, hlength, hbudget => by
    refine .nextIs (fun hclose => ?_) fun _ => ?_
    · refine .advance hc hahead fun c' hc' _ hcloser => .pure hc' ⟨[], ?_, .noPairs⟩
      rw [hcloser, hclose]
      rfl
    refine .part h hc hahead hlength fun key ts d hd _ hkey => ?_
    refine .expect hd fun d' hd' hcolon hcurrent => ?_
    have hless := length_of_kinds hcolon
    have hvalueAhead : d'.ahead = d'.advance.kinds :=
      hd'.ahead_of_current (by rw [hcurrent]; simp)
    refine .part h hd' hvalueAhead (by omega) fun value us f hf _ hvalue => ?_
    refine .nextIs (fun hclose => ?_) fun _ => ?_
    · -- no comma comes after the last pair, so the loop ends at once
      obtain ⟨budget, rfl⟩ : ∃ b, budget = b + 1 := ⟨budget - 1, by omega⟩
      have hfahead : f.ahead = f.advance.kinds := hf.ahead_of_next (by rw [hclose]; simp)
      have hbrace : f.advance.current.kind = .symbol .rbrace := by
        rw [Cursor.current_advance, hclose]
      refine .step [.symbol .rbrace] (hashPairs_close hclose budget) ?_ ?_
      · rw [hfahead, Cursor.current_advance_kinds, hbrace]
        rfl
      refine .pure hf.advance fun hv _ hk _ => ?_
      exact ⟨ts ++ .symbol .colon :: us, by simp, .lastPair hk hv⟩
    · refine .expect hf fun f' hf' hcomma hcurrent' => ?_
      have hless' := length_of_kinds hcomma
      have hahead' : f'.ahead = f'.advance.kinds :=
        hf'.ahead_of_current (by rw [hcurrent']; simp)
      refine (hashPairs_accounts h budget f' hf' hahead' (by omega) (by omega)).map _ ?_
      rintro ps used next ⟨vs, rfl, hps⟩ hv _ hk _
      exact ⟨ts ++ .symbol .colon :: us ++ .symbol .comma :: vs, by simp, .pair hk hv hps⟩

/-! ### Statements -/

/-- A statement that was read: with a semicolon after it, or else before what cannot go on with
it. -/
def StatementRead (s : Stmt) (ts next : List TokenKind) : Prop :=
  (∃ us, ts = us ++ [.symbol .semicolon] ∧ Derives (.stmt s) us) ∨
    Derives (.stmt s) ts ∧ Stops .lowest next

theorem bareStatement_accounts (h : Reading track expr n) (hc : c.On track)
    (hlength : c.ahead.length < n) :
    Accounts track (bareStatement expr c.current.kind) c fun s used next =>
      Derives (.stmt s) (c.current.kind :: used) ∧ Stops .lowest next := by
  have hexpr : Accounts track (exprStatement expr) c fun s used next =>
      Derives (.stmt s) (c.current.kind :: used) ∧ Stops .lowest next := by
    refine (h .lowest c hc hlength (by decide)).map _ fun e used next hread => ?_
    exact ⟨.expr hread.derives, hread.stops⟩
  unfold bareStatement
  split
  -- after `let` come a name, a sign and the value, and each of them leaves fewer tokens
  · next hlet =>
    refine .expectName hc fun name d hd hname _ => ?_
    refine .expect hd fun d' hd' hassign hcurrent => ?_
    have hless := length_of_kinds hname
    have hless' := length_of_kinds hassign
    have hahead : d'.ahead = d'.advance.kinds := hd'.ahead_of_current (by rw [hcurrent]; simp)
    refine .part h hd' hahead (by omega) fun e ts f hf _ _ => .pure hf fun he hstops => ?_
    rw [hlet, List.append_nil]
    exact ⟨.letBe he, hstops⟩
  · next hret =>
    have hahead : c.ahead = c.advance.kinds := hc.ahead_of_current (by rw [hret]; simp)
    refine .part h hc hahead (by omega) fun e ts f hf _ _ => .pure hf fun he hstops => ?_
    rw [hret, List.append_nil]
    exact ⟨.ret he, hstops⟩
  · exact hexpr

theorem statement_accounts (h : Reading track expr n) (hc : c.On track)
    (hlength : c.ahead.length < n) :
    Accounts track (statement expr) c fun s used next =>
      StatementRead s (c.current.kind :: used) next := by
  have hbare : Accounts track (bareStatement expr c.current.kind >>= fun s =>
      skip .semicolon >>= fun _ => pure s) c fun s used next =>
        StatementRead s (c.current.kind :: used) next := by
    refine (bareStatement_accounts h hc hlength).bind fun s d used hd _ => ?_
    -- a semicolon is taken where there is one, and then the statement stops at it
    by_cases hnext : d.next.kind = .symbol .semicolon
    · have hskip : skip .semicolon d = .done () [] d.advance := by
        rw [skip, if_pos hnext]
        rfl
      have hahead : d.ahead = d.advance.kinds := hd.ahead_of_next (by rw [hnext]; simp)
      have hcurrent : d.advance.current.kind = .symbol .semicolon := by
        rw [Cursor.current_advance, hnext]
      refine .step [.symbol .semicolon] hskip ?_ (.pure hd.advance fun hs => ?_)
      · rw [hahead, Cursor.current_advance_kinds, hcurrent]
        rfl
      · exact .inl ⟨c.current.kind :: used, rfl, hs.1⟩
    · have hskip : skip .semicolon d = .done () [] d := by
        rw [skip, if_neg hnext]
      refine .step [] hskip rfl (.pure hd fun hs => ?_)
      rw [List.append_nil, List.append_nil]
      exact .inr hs
  unfold Accounts at hbare ⊢
  rwa [statement_apply]

/-- What statements up to a closing token have been read from. -/
def BodyRead (closer : TokenKind) (body : List Stmt) (ts : List TokenKind) : Prop :=
  ∃ us, ts = us ++ [closer] ∧ Derives (.stmts body) us

/-- A statement and those after it. -/
theorem BodyRead.cons {closer : TokenKind} {s : Stmt} {body : List Stmt} {kind : TokenKind}
    {ts used next : List TokenKind} (hs : StatementRead s ts (kind :: next))
    (hbody : BodyRead closer body (kind :: used)) :
    BodyRead closer (s :: body) (ts ++ kind :: used) := by
  obtain ⟨us, hus, hderives⟩ := hbody
  rcases hs with ⟨vs, rfl, hs⟩ | ⟨hs, hstops⟩
  · exact ⟨vs ++ .symbol .semicolon :: us, by rw [hus]; simp, .closed hs hderives⟩
  · refine ⟨ts ++ us, by rw [hus, List.append_assoc], .unclosed hs hderives fun other hother => ?_⟩
    -- the next statement starts with the token before which this one has stopped
    cases us with
    | nil => cases hother
    | cons first rest =>
      cases hother
      obtain ⟨rfl, -⟩ := List.cons.inj hus
      exact hstops.ofKind?_eq_none

/-- No statement is read up to the last token of all, which is an end token. -/
theorem StatementRead.eof_notMem {s : Stmt} {ts next : List TokenKind}
    (h : StatementRead s ts next) : TokenKind.eof ∉ ts := by
  rcases h with ⟨us, rfl, hs⟩ | ⟨hs, -⟩
  · simpa using hs.eof_notMem
  · exact hs.eof_notMem

/-- One round of a loop over statements, up to a closing token: a statement, which may be dropped,
and the loop again. -/
theorem round_accounts (h : Reading track expr n) (hc : c.On track)
    (hcurrent : c.current.kind ≠ .eof)
    (hlength : c.ahead.length < n) {closer : TokenKind} {loop : Parser (List Stmt)}
    (hloop : ∀ d : Cursor, d.On track → d.ahead.length < c.ahead.length →
      Accounts track loop d fun body used _ => BodyRead closer body (d.current.kind :: used)) :
    Accounts track (attempt (statement expr) >>= fun s => advance >>= fun _ => loop >>= fun rest =>
        pure (s.toList ++ rest)) c
      fun body used _ => BodyRead closer body (c.current.kind :: used) := by
  refine (statement_accounts h hc hlength).attempt.bind fun s d used hd hused => ?_
  have hsplit : c.kinds = c.current.kind :: used ++ d.ahead := by
    rw [Cursor.kinds, hused, List.cons_append]
  by_cases hnil : d.ahead = []
  · -- the statement has taken in the last token, so it was not read
    have hfirst := length_of_kinds (hc.ahead_of_current hcurrent)
    have hstay : advance d = .done () [] d := by
      rw [advance, Cursor.advance_of_nil hnil]
    refine .step [] hstay rfl ?_
    refine (hloop d hd (by rw [hnil, List.length_nil]; omega)).bind fun body d' more hd' _ => ?_
    refine .pure hd' fun _ hread => ?_
    obtain ⟨st, -, hst⟩ := hread
    have hlast : (c.current.kind :: used).getLast? = some .eof := by
      rw [hnil, List.append_nil] at hsplit
      rw [← hsplit]
      exact hc.closed
    exact absurd (List.mem_of_getLast? hlast) hst.eof_notMem
  · refine .advance hd (Cursor.kinds_advance_of_ne_nil hnil) fun d' hd' hahead _ => ?_
    have hless := length_of_kinds hahead
    have hshort : d'.ahead.length < c.ahead.length := by
      rw [hused, List.length_append]
      omega
    refine (hloop d' hd' hshort).bind fun body d'' more hd'' _ => ?_
    refine .pure hd'' fun hbody hread => ?_
    obtain ⟨st, rfl, hst⟩ := hread
    rw [hahead, Cursor.kinds] at hst
    have hcons := BodyRead.cons hst hbody
    rwa [List.append_nil]

theorem blockStatements_accounts (h : Reading track expr n) : ∀ (budget : Nat) (c : Cursor),
    c.On track → c.ahead.length < n → c.ahead.length < budget →
    Accounts track (blockStatements expr budget) c fun body used _ =>
      BodyRead (.symbol .rbrace) body (c.current.kind :: used)
  | 0, _, _, _, hbudget => absurd hbudget (Nat.not_lt_zero _)
  | budget + 1, c, hc, hlength, hbudget => by
    unfold blockStatements
    refine .current ?_
    split
    · next hbrace =>
      rw [hbrace]
      exact .pure hc ⟨[], rfl, .noStmts⟩
    split
    · exact .reject hc _
    · next heof =>
      refine round_accounts h hc heof hlength fun d hd hshort => ?_
      exact blockStatements_accounts h budget d hd (by omega) (by omega)

theorem statementsToEnd_accounts (h : Reading track expr n) : ∀ (budget : Nat) (c : Cursor),
    c.On track → c.ahead.length < n → c.ahead.length < budget →
    Accounts track (statementsToEnd expr budget) c fun body used _ =>
      BodyRead .eof body (c.current.kind :: used)
  | 0, _, _, _, hbudget => absurd hbudget (Nat.not_lt_zero _)
  | budget + 1, c, hc, hlength, hbudget => by
    unfold statementsToEnd
    refine .current ?_
    split
    · next heof =>
      rw [heof]
      exact .pure hc ⟨[], rfl, .noStmts⟩
    · next heof =>
      refine round_accounts h hc heof hlength fun d hd hshort => ?_
      exact statementsToEnd_accounts h budget d hd (by omega) (by omega)

theorem block_accounts (h : Reading track expr n) (hc : c.On track) (hlength : c.ahead.length ≤ n)
    (hbudget : c.ahead.length < budget) :
    Accounts track (block expr budget) c fun body used _ =>
      ∃ ts, used = bracedTokens ts ∧ Derives (.stmts body) ts := by
  refine .expect hc fun d hd hbrace hcurrent => ?_
  have hless := length_of_kinds hbrace
  have hahead : d.ahead = d.advance.kinds := hd.ahead_of_current (by rw [hcurrent]; simp)
  refine .advance hd hahead fun d' hd' hnext _ => ?_
  have hless' := length_of_kinds hnext
  refine (blockStatements_accounts h budget d' hd' (by omega) (by omega)).imp ?_
  rintro body used next - ⟨ts, hts, hderives⟩
  refine ⟨ts, ?_, hderives⟩
  rw [hts]
  rfl

/-! ### Operands -/

theorem literalParts_accounts (h : Reading track expr n) (hc : c.On track)
    (hlength : c.ahead.length ≤ n)
    (hbudget : c.ahead.length < budget) :
    Accounts track (literalParts expr budget) c fun parts used _ => ∃ ts,
      used = parenthesised (nameTokens parts.1) ++ bracedTokens ts ∧
        Derives (.stmts parts.2) ts := by
  refine (paramList_accounts hc hbudget).bind fun params d used hd hused => ?_
  have hshort : d.ahead.length ≤ c.ahead.length := by
    rw [hused, List.length_append]
    omega
  refine (block_accounts h hd (by omega) (by omega)).map _ ?_
  rintro body more next ⟨ts, rfl, hts⟩ rfl
  exact ⟨ts, rfl, hts⟩

theorem elseBranch_accounts (h : Reading track expr n) (hc : c.On track)
    (hlength : c.ahead.length ≤ n)
    (hbudget : c.ahead.length < budget) :
    Accounts track (elseBranch expr budget) c fun branch used _ =>
      (branch = none ∧ used = []) ∨ ∃ body ts, branch = some body ∧
        used = .keyword .kwElse :: bracedTokens ts ∧ Derives (.stmts body) ts := by
  unfold elseBranch
  refine .next ?_
  split
  · next helse =>
    have hahead : c.ahead = c.advance.kinds := hc.ahead_of_next (by rw [helse]; simp)
    refine .advance hc hahead fun d hd hnext hcurrent => ?_
    have hless := length_of_kinds hnext
    refine (block_accounts h hd (by omega) (by omega)).map _ ?_
    rintro body used next ⟨ts, rfl, hts⟩
    rw [hcurrent, helse]
    exact .inr ⟨body, ts, rfl, rfl, hts⟩
  · exact .pure hc (.inl ⟨rfl, rfl⟩)

theorem conditional_accounts (h : Reading track expr n) (hc : c.On track)
    (hlength : c.ahead.length ≤ n)
    (hbudget : c.ahead.length < budget) :
    Accounts track (conditional expr budget) c fun e used _ =>
      Derives (.expr .index e) (.keyword .kwIf :: used) := by
  refine .expect hc fun d hd hparen hcurrent => ?_
  have hless := length_of_kinds hparen
  have hahead : d.ahead = d.advance.kinds := hd.ahead_of_current (by rw [hcurrent]; simp)
  refine .part h hd hahead (by omega) fun condition ts d' hd' _ hshort => ?_
  refine .expect hd' fun f hf hclose _ => ?_
  have hless' := length_of_kinds hclose
  refine (block_accounts h hf (by omega) (by omega)).bind fun body f' used hf' hused => ?_
  have hshort' : f'.ahead.length ≤ f.ahead.length := by
    rw [hused, List.length_append]
    omega
  refine (elseBranch_accounts h hf' (by omega) (by omega)).map _ ?_
  rintro branch more next hbranch ⟨us, rfl, hbody⟩ hcondition _
  rcases hbranch with ⟨rfl, rfl⟩ | ⟨other, vs, rfl, rfl, hother⟩
  · simpa [parenthesised] using Derives.cond hcondition hbody
  · simpa [parenthesised] using Derives.condElse hcondition hbody hother

theorem grouped_accounts (h : Reading track expr n) (hc : c.On track)
    (hcurrent : c.current.kind = .symbol .lparen) (hlength : c.ahead.length ≤ n) :
    Accounts track (grouped expr) c fun e used _ =>
      Derives (.expr .index e) (.symbol .lparen :: used) := by
  have hahead : c.ahead = c.advance.kinds := hc.ahead_of_current (by rw [hcurrent]; simp)
  refine .part h hc hahead hlength fun e ts d hd _ _ => ?_
  refine .expect hd fun d' hd' _ _ => .pure hd' fun he _ => ?_
  exact .group he

/-- A sign binds the operand after it; what comes next does not bind more strongly. -/
theorem signed_accounts (h : Reading track expr n) (op : PrefixOp) (hc : c.On track)
    (hcurrent : c.current.kind = .symbol op.symbol) (hlength : c.ahead.length ≤ n) :
    Accounts track (signed expr op) c fun e used next =>
      Derives (.expr .sign e) (.symbol op.symbol :: used) ∧ Stops .sign next := by
  have hahead : c.ahead = c.advance.kinds := hc.ahead_of_current (by rw [hcurrent]; simp)
  refine .advance hc hahead fun d hd hnext _ => ?_
  have hless := length_of_kinds hnext
  refine (h .sign d hd (by omega) (by decide)).map _ ?_
  rintro right used next ⟨strength, hfits, hright, hstops⟩
  have hle : Precedence.sign.rank ≤ strength.rank := by
    rcases hfits.2 with hlt | hle
    · exact Nat.le_of_lt hlt
    · exact hle
  exact ⟨.unary (hright.loosen hle), hstops⟩

/-- What an operand was read as: nothing binds it more strongly than it binds itself. -/
def OperandRead (e : Expr) (ts next : List TokenKind) : Prop :=
  ∃ strength, Precedence.sign.rank ≤ strength.rank ∧ Derives (.expr strength e) ts ∧
    Stops strength next

theorem operandRead_of_index {e : Expr} {ts next : List TokenKind}
    (h : Derives (.expr .index e) ts) : OperandRead e ts next :=
  ⟨.index, by decide, h, stops_index next⟩

theorem operand_accounts (h : Reading track expr n) (hc : c.On track) (hlength : c.ahead.length ≤ n)
    (hbudget : c.ahead.length < budget) :
    Accounts track (operand expr budget) c fun e used next =>
      OperandRead e (c.current.kind :: used) next := by
  unfold operand
  refine .current ?_
  cases hkind : c.current.kind with
  -- one token that is an operand by itself, or that begins none
  | ident name => exact .pure hc (operandRead_of_index (.ident name))
  | int value => exact .pure hc (operandRead_of_index (.int value))
  | str text => exact .pure hc (operandRead_of_index (.str text))
  | bigInt digits => exact .reject hc _
  | illegal text => exact .reject hc _
  | eof => exact .reject hc _
  | keyword word =>
    cases word with
    | kwTrue => exact .pure hc (operandRead_of_index (.bool true))
    | kwFalse => exact .pure hc (operandRead_of_index (.bool false))
    -- the rest of a literal and of a conditional lies between brackets of its own, so that it binds
    -- as strongly as a name
    | kwIf =>
      refine (conditional_accounts h hc hlength hbudget).imp fun e used next _ he => ?_
      exact operandRead_of_index he
    | kwFn =>
      refine (literalParts_accounts h hc hlength hbudget).map _ ?_
      rintro ⟨params, body⟩ used next ⟨ts, rfl, hts⟩
      exact operandRead_of_index (.fn hts)
    | kwMacro =>
      refine (literalParts_accounts h hc hlength hbudget).map _ ?_
      rintro ⟨params, body⟩ used next ⟨ts, rfl, hts⟩
      exact operandRead_of_index (.macroFn hts)
    | kwLet | kwElse | kwReturn => exact .reject hc _
  | symbol sign =>
    cases sign with
    -- after a sign stands what binds as strongly as the sign does
    | bang =>
      refine (signed_accounts h .not hc hkind hlength).imp fun e used next _ he => ?_
      exact ⟨.sign, by decide, he.1, he.2⟩
    | minus =>
      refine (signed_accounts h .neg hc hkind hlength).imp fun e used next _ he => ?_
      exact ⟨.sign, by decide, he.1, he.2⟩
    -- what begins with a bracket is closed by one
    | lparen =>
      refine (grouped_accounts h hc hkind hlength).imp fun e used next _ he => ?_
      exact operandRead_of_index he
    | lbracket =>
      refine (exprList_accounts h hc (by rw [hkind]; simp) hlength hbudget).map _ ?_
      rintro es used next ⟨ts, rfl, hts⟩
      exact operandRead_of_index (.array hts)
    | lbrace =>
      have hahead : c.ahead = c.advance.kinds := hc.ahead_of_current (by rw [hkind]; simp)
      refine (hashPairs_accounts h budget c hc hahead hlength hbudget).map _ ?_
      rintro ps used next ⟨ts, rfl, hts⟩
      exact operandRead_of_index (.hash hts)
    | _ => exact .reject hc _

/-! ### The loop over suffixes -/

theorem ofKind?_eq_operator {kind : TokenKind} {op : InfixOp}
    (h : Suffix.ofKind? kind = some (.operator op)) : kind = .symbol op.symbol := by
  cases kind with
  | symbol sign => cases sign <;> cases h <;> rfl
  | _ => cases h

theorem ofKind?_eq_call {kind : TokenKind} (h : Suffix.ofKind? kind = some .call) :
    kind = .symbol .lparen := by
  cases kind with
  | symbol sign =>
    cases sign with
    | lparen => rfl
    | _ => cases h
  | _ => cases h

theorem ofKind?_eq_index {kind : TokenKind} (h : Suffix.ofKind? kind = some .index) :
    kind = .symbol .lbracket := by
  cases kind with
  | symbol sign =>
    cases sign with
    | lbracket => rfl
    | _ => cases h
  | _ => cases h

/-- A suffix and what it was put to make an expression of the level of the suffix. -/
theorem suffix_accounts (h : Reading track expr n) {s : Suffix} (hc : c.On track)
    (hs : Suffix.ofKind? c.current.kind = some s) (hlength : c.ahead.length ≤ n)
    (hbudget : c.ahead.length < budget) (left : Expr) :
    Accounts track (suffix expr budget left s) c fun e used next =>
      ∀ ts, Derives (.expr s.level left) ts →
        Derives (.expr s.level e) (ts ++ c.current.kind :: used) ∧ Stops s.level next := by
  have heof : c.current.kind ≠ .eof := by
    intro heq
    rw [heq] at hs
    cases hs
  have hahead := hc.ahead_of_current heof
  cases s with
  | operator op =>
    rw [ofKind?_eq_operator hs]
    refine .advance hc hahead fun d hd hnext _ => ?_
    have hless := length_of_kinds hnext
    have hlevel : op.precedence.rank ≤ Precedence.sign.rank := by cases op <;> decide
    refine (h op.precedence d hd (by omega) hlevel).map _ ?_
    rintro right used next ⟨strength, hfits, hright, hstops⟩ ts hleft
    -- operands of equal strength stand on the left only
    have hlt : op.precedence < strength := by
      rcases hfits.2 with hlt | hle
      · exact hlt
      · exact Nat.lt_of_lt_of_le (by cases op <;> decide) hle
    exact ⟨.binary hleft hlt hright, hstops⟩
  | call =>
    rw [ofKind?_eq_call hs]
    refine (exprList_accounts h hc heof hlength hbudget).map _ ?_
    rintro args used next ⟨us, rfl, hargs⟩ ts hleft
    exact ⟨.call hleft hargs, stops_index next⟩
  | index =>
    rw [ofKind?_eq_index hs]
    refine .part h hc hahead hlength fun position us d hd _ _ => ?_
    refine .expect hd fun d' hd' _ _ => .pure hd' fun hposition _ ts hleft => ?_
    exact ⟨.index hleft hposition, stops_index _⟩

/-- What stands before a suffix has its level, if it binds at least as strongly as the suffix. -/
theorem derives_level {s : Suffix} {strength : Precedence} {e : Expr} {ts : List TokenKind}
    (h : Derives (.expr strength e) ts) (hle : s.precedence.rank ≤ strength.rank) :
    Derives (.expr s.level e) ts := by
  cases s with
  | operator op => exact h.loosen hle
  | call => exact h.tighten hle
  | index => exact h.tighten (Nat.le_trans (by decide) hle)

theorem fits_level {level strength : Precedence} {s : Suffix} (h : Fits level strength)
    (hlt : level < s.precedence) : Fits level s.level := by
  cases s with
  | operator op => exact ⟨h.1, .inl hlt⟩
  | call | index => exact ⟨h.1, .inr (by decide)⟩

/-- By induction on the tokens ahead: the operand in hand always binds at least as strongly as what
comes next. -/
theorem suffixes_accounts (h : Reading track expr n) (level : Precedence) (hn : n < budget) :
    ∀ (fuel : Nat) (c : Cursor) (left : Expr), c.On track → c.ahead.length ≤ n →
    c.ahead.length < fuel →
    Accounts track (suffixes expr level budget fuel left) c fun e used next =>
      ∀ strength ts, Fits level strength → Derives (.expr strength left) ts →
        Stops strength c.ahead → ReadAt level e (ts ++ used) next
  | 0, _, _, _, _, hfuel => absurd hfuel (Nat.not_lt_zero _)
  | fuel + 1, c, left, hc, hlength, hfuel => by
    unfold suffixes
    refine .next ?_
    split
    -- no suffix comes next: the operand in hand is the whole expression
    · next hnone =>
      refine .pure hc fun strength ts hfits hleft _ => ?_
      rw [List.append_nil]
      refine ⟨strength, hfits, hleft, fun kind hkind s hs => ?_⟩
      rw [Cursor.kind_next_of_head hkind, hs] at hnone
      cases hnone
    · next s hsome =>
      split
      · next hlt =>
        -- a suffix that binds more strongly than the level: it takes the operand in hand, and the
        -- loop goes on with what the two make, fewer tokens being left
        have hahead : c.ahead = c.advance.kinds := hc.ahead_of_next (by
          intro heq
          rw [heq] at hsome
          cases hsome)
        refine .advance hc hahead fun d hd hnext hcurrent => ?_
        have hless := length_of_kinds hnext
        have hs : Suffix.ofKind? d.current.kind = some s := by rw [hcurrent, hsome]
        refine (suffix_accounts h hd hs (by omega) (by omega) left).bind
          fun e d' used hd' hused => ?_
        have hshort : d'.ahead.length ≤ d.ahead.length := by
          rw [hused, List.length_append]
          omega
        refine (suffixes_accounts h level hn fuel d' e hd' (by omega) (by omega)).imp ?_
        intro e' more next _ hread hsuffix strength ts hfits hleft hstops
        -- the operand stops before the suffix, so the suffix does not bind more strongly than it
        have hle : s.precedence.rank ≤ strength.rank := by
          have hnot := hstops d.current.kind (by rw [hnext]; rfl) s hs
          rw [Precedence.lt_iff] at hnot
          omega
        obtain ⟨he, hstops'⟩ := hsuffix ts (derives_level hleft hle)
        have hwhole := hread s.level _ (fits_level hfits hlt) he hstops'
        simpa using hwhole
      -- a suffix that is left to whoever asked for this level
      · next hnot =>
        refine .pure hc fun strength ts hfits hleft _ => ?_
        rw [List.append_nil]
        refine ⟨strength, hfits, hleft, fun kind hkind t ht => ?_⟩
        rw [Cursor.kind_next_of_head hkind, ht] at hsome
        cases hsome
        exact hnot

/-- An expression whose parts are read by `expr`. -/
def wholeExpression (expr : Precedence → Parser Expr) (budget : Nat) (level : Precedence) :
    Parser Expr :=
  operand expr budget >>= suffixes expr level budget budget

/-- An expression is an operand and its suffixes. -/
theorem wholeExpression_accounts (h : Reading track expr n) {level : Precedence}
    (hlevel : level.rank ≤ Precedence.sign.rank) (hn : n < budget) (hc : c.On track)
    (hlength : c.ahead.length ≤ n) :
    Accounts track (wholeExpression expr budget level) c fun e used next =>
      ReadAt level e (c.current.kind :: used) next := by
  refine (operand_accounts h hc hlength (by omega)).bind fun left d used hd hused => ?_
  have hshort : d.ahead.length ≤ c.ahead.length := by
    rw [hused, List.length_append]
    omega
  refine (suffixes_accounts h level hn budget d left hd (by omega) (by omega)).imp ?_
  rintro e more next - hread ⟨strength, hle, hleft, hstops⟩
  exact hread strength _ ⟨hlevel, .inr hle⟩ hleft hstops

end

/-- **An expression accounts for the tokens it was read from**, by induction on the budget, which
has to be larger than the number of tokens ahead. -/
theorem expression_accounts {track : List Token} (n : Nat) : Reading track (expression n) n := by
  induction n with
  | zero => exact fun _ _ _ hlength => absurd hlength (Nat.not_lt_zero _)
  | succ n ih =>
    intro level c hc hlength hlevel
    exact wholeExpression_accounts ih hlevel (Nat.lt_succ_self n) hc (Nat.le_of_lt_succ hlength)

end Parser

end Monkey
