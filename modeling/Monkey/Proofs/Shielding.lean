import Monkey.Expr.Equality
import Monkey.Proofs.ExactReading
import Monkey.Proofs.Tokenization
import Monkey.Proofs.Transfer

/-!
# A finished statement shields the parser from what follows

A source that is read without errors and ends with a semicolon may be followed by any text: the
parser reads its statements as before, comes to the first token of the text, and reads that as if it
stood alone.

No statement ends with a semicolon of its own, so the parser looks at the last semicolon of the
source while it still stands before it.  Until then it does not see what follows; this is a transfer
in which the places at the end are lost.  From there on, the tokens are those of the text at other
places; this is a transfer in which nothing is lost.

## Main definitions

* `Cursor.onto`, `Transfer.onto` — other tokens in place of the end.
* `Cursor.moved`, `Transfer.moved` — the same tokens at other places.

## Main results

* `Derives.last_ne_semicolon` — no statement ends with a semicolon of its own.
* `Parser.statementsToEnd_onto` — **statements up to a last semicolon are read whatever follows.**
* `parse_append` — **a finished statement shields the parser from what follows.**
-/

namespace Monkey

/-! ### The last token of a statement -/

namespace Derives

/-- Expressions, and statements without their semicolons, have a last token, and it is no
semicolon. -/
def LastToken : Phrase → List TokenKind → Prop
  | .expr _ _, ts | .stmt _, ts => ∃ us kind, ts = us ++ [kind] ∧ kind ≠ .symbol .semicolon
  | _, _ => True

/-- By induction on the derivation: a phrase ends where its last part ends, or with a bracket. -/
theorem lastToken {φ : Phrase} {ts : List TokenKind} (h : Derives φ ts) : LastToken φ ts := by
  have hclosed : ∀ (us : List TokenKind) (sign : Symbol), sign ≠ .semicolon →
      ∃ vs kind, us ++ [.symbol sign] = vs ++ [kind] ∧ kind ≠ .symbol .semicolon := by
    intro us sign hsign
    exact ⟨us, .symbol sign, rfl, by simpa using hsign⟩
  have hafter : ∀ {ts : List TokenKind} (first : List TokenKind),
      (∃ us kind, ts = us ++ [kind] ∧ kind ≠ .symbol .semicolon) →
      ∃ us kind, first ++ ts = us ++ [kind] ∧ kind ≠ .symbol .semicolon := by
    rintro ts first ⟨us, kind, rfl, hkind⟩
    exact ⟨first ++ us, kind, (List.append_assoc first us [kind]).symm, hkind⟩
  induction h with
  | ident | int | str => exact ⟨[], _, rfl, by simp⟩
  | bool b => exact ⟨[], _, rfl, by simp⟩
  -- these end with a bracket, and others with a phrase inside of them
  | group | array | hash => exact hclosed _ _ (by decide)
  | cond | fn | macroFn => exact hafter _ (hclosed _ _ (by decide))
  | condElse => exact hafter _ (hafter [_] (hclosed _ _ (by decide)))
  | call | index => exact hafter _ (hclosed _ _ (by decide))
  | unary _ ih => exact hafter [_] ih
  | binary _ _ _ _ ih => exact hafter _ (hafter [_] ih)
  | weaker _ _ ih => exact ih
  | letBe _ ih => exact hafter [_, _, _] ih
  | ret _ ih => exact hafter [_] ih
  | expr _ ih => exact ih
  | noExprs | exprs | noMoreExprs | moreExprs | noPairs | lastPair | pair => trivial
  | noStmts | closed | unclosed => trivial

/-- **No statement ends with a semicolon of its own.** -/
theorem last_ne_semicolon {s : Stmt} {ts us : List TokenKind} (h : Derives (.stmt s) ts) :
    ts ≠ us ++ [.symbol .semicolon] := by
  intro hts
  obtain ⟨vs, kind, hvs, hkind⟩ := h.lastToken
  obtain ⟨-, hlast⟩ := List.append_inj' (hvs.symm.trans hts) rfl
  exact hkind (List.cons.inj hlast).1

end Derives

/-! ### Other tokens in place of the end -/

namespace Cursor

/-- The tokens of a cursor up to the last one, and then those of another cursor. -/
def onto (c d : Cursor) : Cursor :=
  match c.rest with
  | [] => d
  | t :: rest => ⟨c.current, (t :: rest).dropLast ++ d.current :: d.rest⟩

variable {c d : Cursor}

theorem advance_onto (h : c.rest ≠ []) : (c.onto d).advance = c.advance.onto d := by
  obtain ⟨t, rest⟩ := c
  cases rest with
  | nil => exact absurd rfl h
  | cons u rest =>
    cases rest with
    | nil => rfl
    | cons v rest => rfl

theorem current_onto (h : c.rest ≠ []) : (c.onto d).current = c.current := by
  obtain ⟨t, rest⟩ := c
  cases rest with
  | nil => exact absurd rfl h
  | cons u rest => rfl

theorem next_onto (h : 2 ≤ c.rest.length) : (c.onto d).next = c.next := by
  obtain ⟨t, rest⟩ := c
  match rest, h with
  | u :: v :: rest, _ => rfl

/-- The same tokens at other places. -/
def moved (f : Span → Span) (c : Cursor) : Cursor := ⟨c.current.move f, c.rest.map (Token.move f)⟩

theorem next_moved (f : Span → Span) (c : Cursor) : (c.moved f).next = c.next.move f := by
  obtain ⟨t, rest⟩ := c
  cases rest <;> rfl

theorem advance_moved (f : Span → Span) (c : Cursor) :
    (c.moved f).advance = c.advance.moved f := by
  obtain ⟨t, rest⟩ := c
  cases rest <;> rfl

end Cursor

namespace Transfer

/-- Reading with other tokens in place of the end: this is lost where the next token is the end, if
not before. -/
def onto (d : Cursor) : Transfer where
  move := id
  place c := c.onto d
  Lost c := c.rest.length ≤ 1
  current_place := by
    intro c hc
    exact Cursor.current_onto fun hnil => hc (by rw [hnil]; exact Nat.zero_le 1)
  next_place := by
    intro c hc
    exact Cursor.next_onto (Nat.lt_of_not_le hc)
  advance_place := by
    intro c hc
    exact Cursor.advance_onto fun hnil => hc (by rw [hnil]; exact Nat.zero_le 1)
  lost_advance := by
    intro c hc
    rw [Cursor.length_rest_advance]
    omega

/-- Reading the same tokens at other places. -/
def moved (f : Span → Span) : Transfer where
  move := f
  place := Cursor.moved f
  Lost _ := False
  current_place _ := rfl
  next_place _ := Cursor.next_moved f _
  advance_place _ := Cursor.advance_moved f _
  lost_advance h := h

end Transfer

namespace Parser

/-! ### One statement -/

theorem skip_apply (sign : Symbol) (c : Cursor) :
    skip sign c = .done () [] (if c.next.kind = .symbol sign then c.advance else c) := by
  rw [skip]
  split <;> rfl

/-- A statement that is read before a last semicolon leaves the semicolon to come. -/
theorem two_le_of_derives {c e : Cursor} {s : Stmt} {used ts : List TokenKind}
    (hused : c.ahead = used ++ e.ahead) (hderives : Derives (.stmt s) (c.current.kind :: used))
    (hlast : c.kinds = ts ++ [.symbol .semicolon, .eof]) : 2 ≤ e.rest.length := by
  have hkinds : c.kinds = (c.current.kind :: used) ++ e.ahead := by
    rw [Cursor.kinds, hused, List.cons_append]
  have hahead : e.ahead.length = e.rest.length := List.length_map _
  rw [← hahead]
  cases hmore : e.ahead with
  | nil =>
    -- the statement would have taken in the end
    rw [hkinds, hmore, List.append_nil] at hlast
    have hmem : .eof ∈ c.current.kind :: used := by
      rw [hlast]
      simp
    exact absurd hmem hderives.eof_notMem
  | cons kind more =>
    cases more with
    | nil =>
      -- the statement would have taken in the semicolon
      rw [hkinds, hmore, List.append_cons ts] at hlast
      obtain ⟨hts, -⟩ := List.append_inj' hlast rfl
      exact absurd hts hderives.last_ne_semicolon
    | cons => exact Nat.le_add_left 2 _

/-- A statement that is read before a last semicolon is read whatever comes after the semicolon. -/
theorem statement_onto {n m : Nat} (hnm : n ≤ m) {c c' : Cursor} {s : Stmt} (hc : c.Closed)
    (hlength : c.ahead.length < n) {ts : List TokenKind}
    (hlast : c.kinds = ts ++ [.symbol .semicolon, .eof])
    (hs : statement (expression n) c = .done s [] c') (d : Cursor) :
    c'.rest ≠ [] ∧ statement (expression m) (c.onto d) = .done s [] (c'.onto d) := by
  have haccounts := bareStatement_accounts (expression_accounts n) hc.on hlength
  have hcarries := Transfer.bareStatement_carries
    (Transfer.expression_carries (T := Transfer.onto d) hnm) c.current.kind c
  unfold Accounts at haccounts
  rw [statement_apply] at hs
  cases hbare : bareStatement (expression n) c.current.kind c with
  | failed es e =>
    rw [bind_failed hbare] at hs
    cases hs
  | exhausted =>
    rw [bind_exhausted hbare] at hs
    cases hs
  | done t es e =>
    rw [bind_done hbare, bind_clean (skip_apply _ e), pure_apply, Reply.after_done,
      List.append_nil, Reply.done.injEq] at hs
    obtain ⟨rfl, rfl, rfl⟩ := hs
    rw [hbare] at haccounts hcarries
    obtain ⟨-, used, hused, hderives⟩ := haccounts
    have htwo : 2 ≤ e.rest.length := two_le_of_derives hused (hderives rfl).1 hlast
    -- so the statement without its semicolon is read before the lost places
    obtain ⟨hkept, hthere⟩ := hcarries.resolve_left (Nat.not_le.2 htwo)
    have hcurrent : (c.onto d).current = c.current := (Transfer.onto d).current_place hkept
    have hrest : e.rest ≠ [] := fun hnil => by
      rw [hnil] at htwo
      cases htwo
    have hnext : (e.onto d).next = e.next := Cursor.next_onto htwo
    constructor
    · split
      · intro hnil
        have hlength := Cursor.length_rest_advance e
        rw [hnil, List.length_nil] at hlength
        omega
      · exact hrest
    · rw [statement_apply, hcurrent]
      have hbare' :
          bareStatement (expression m) c.current.kind (c.onto d) = .done t [] (e.onto d) :=
        hthere
      rw [bind_clean hbare', bind_clean (skip_apply _ _), pure_apply, hnext]
      split
      · rw [Cursor.advance_onto hrest]
      · rfl

/-! ### All statements -/

end Parser

/-- The reply with another value. -/
def Reply.map {α β : Type} (f : α → β) : Reply α → Reply β
  | .done a es c => .done (f a) es c
  | .failed es c => .failed es c
  | .exhausted => .exhausted

theorem Reply.map_append_map_append (ss rest : Program) (r : Reply Program) :
    (r.map (rest ++ ·)).map (ss ++ ·) = r.map ((ss ++ rest) ++ ·) := by
  cases r with
  | done more es c => exact congrArg (Reply.done · es c) (List.append_assoc ss rest more).symm
  | failed | exhausted => rfl

theorem Reply.map_nil_append (r : Reply Program) : r.map (([] : Program) ++ ·) = r := by
  cases r <;> rfl

namespace Parser

theorem bind_pure_map {α β : Type} (p : Parser α) (f : α → β) (c : Cursor) :
    (p >>= fun a => pure (f a)) c = (p c).map f := by
  cases hp : p c with
  | done a es d =>
    rw [bind_done hp, pure_apply, Reply.after_done, List.append_nil]
    rfl
  | failed es d => exact bind_failed hp _
  | exhausted => exact bind_exhausted hp _

variable {expr : Precedence → Parser Expr} {n : Nat} {c c' d : Cursor} {s : Stmt} {ss : Program}

/-- A statement that is read without errors, and those after it. -/
theorem statementsToEnd_cons (hcurrent : c.current.kind ≠ .eof)
    (hs : statement expr c = .done s [] c') :
    statementsToEnd expr (n + 1) c = (statementsToEnd expr n c'.advance).map ([s] ++ ·) := by
  have hattempt : attempt (statement expr) c = .done (some s) [] c' := by
    rw [attempt, hs]
  rw [statementsToEnd, bind_clean (current_apply c), if_neg hcurrent, bind_clean hattempt,
    bind_clean (show advance c' = .done () [] c'.advance from rfl)]
  exact bind_pure_map _ _ _

/-- Where statements are read without errors, each of them is. -/
theorem statementsToEnd_uncons {k : Nat} (hcurrent : c.current.kind ≠ .eof)
    (h : statementsToEnd (expression n) (k + 1) c = .done ss [] d) :
    ∃ s c' rest, statement (expression n) c = .done s [] c' ∧ ss = [s] ++ rest ∧
      statementsToEnd (expression n) k c'.advance = .done rest [] d := by
  rw [statementsToEnd, bind_clean (current_apply c), if_neg hcurrent] at h
  cases hs : statement (expression n) c with
  | done s es c' =>
    have hattempt : attempt (statement (expression n)) c = .done (some s) es c' := by
      rw [attempt, hs]
    rw [bind_done hattempt, bind_clean (show advance c' = .done () [] c'.advance from rfl),
      bind_pure_map] at h
    cases hrest : statementsToEnd (expression n) k c'.advance with
    | done rest fs e =>
      rw [hrest, Reply.map, Reply.after_done, Reply.done.injEq, List.append_eq_nil_iff] at h
      obtain ⟨rfl, ⟨rfl, rfl⟩, rfl⟩ := h
      exact ⟨s, c', rest, rfl, rfl, hrest⟩
    | _ =>
      rw [hrest] at h
      cases h
  | failed es c' =>
    -- a statement that fails has met an error
    have hattempt : attempt (statement (expression n)) c = .done none es c' := by
      rw [attempt, hs]
    have hne : es ≠ [] := statement_explains (expression_explains n) c es c' hs
    rw [bind_done hattempt] at h
    cases hrest : (advance >>= fun _ => statementsToEnd (expression n) k >>= fun rest =>
        pure ((none : Option Stmt).toList ++ rest)) c' with
    | done rest fs e =>
      rw [hrest, Reply.after_done, Reply.done.injEq, List.append_eq_nil_iff] at h
      exact absurd h.2.1.1 hne
    | _ =>
      rw [hrest] at h
      cases h
  | exhausted =>
    have hattempt : attempt (statement (expression n)) c = .exhausted := by
      rw [attempt, hs]
    rw [bind_exhausted hattempt] at h
    cases h

/-- **Statements up to a last semicolon are read whatever follows**, and then what follows is read.
By induction on the rounds that the loop takes. -/
theorem statementsToEnd_onto {m : Nat} (hnm : n ≤ m) (e : Cursor) : ∀ (k : Nat) (c : Cursor)
    (ss : Program), c.Closed → c.ahead.length < n → Finished c.kinds → .eof ∉ c.kinds.dropLast →
    statementsToEnd (expression n) k c = .done ss [] d →
    ∃ rounds, rounds ≤ c.ahead.length ∧ ∀ budget,
      statementsToEnd (expression m) (budget + rounds) (c.onto e) =
        (statementsToEnd (expression m) budget e).map (ss ++ ·)
  | 0, _, _, _, _, _, _, h => nomatch h
  | k + 1, c, ss, hc, hlength, hfinished, heof, h => by
    by_cases hcurrent : c.current.kind = .eof
    · -- the first end token is the last token of all
      have hnil : c.rest = [] := by
        cases hrest : c.rest with
        | nil => rfl
        | cons t rest =>
          rw [Cursor.kinds, Cursor.ahead, hcurrent, hrest] at heof
          simp at heof
      have hstart : c.onto e = e := by rw [Cursor.onto, hnil]
      rw [statementsToEnd, bind_clean (current_apply c), if_pos hcurrent, pure_apply,
        Reply.done.injEq] at h
      obtain ⟨rfl, -, -⟩ := h
      refine ⟨0, Nat.zero_le _, fun budget => ?_⟩
      rw [hstart, Reply.map_nil_append]
      rfl
    · obtain ⟨s, c', rest, hs, rfl, hrest⟩ := statementsToEnd_uncons hcurrent h
      obtain ⟨ts, hlast⟩ : ∃ ts, c.kinds = ts ++ [.symbol .semicolon, .eof] := by
        refine hfinished.resolve_left fun hend => hcurrent ?_
        exact (List.cons.inj hend).1
      obtain ⟨hne, hs'⟩ := statement_onto hnm hc hlength hlast hs e
      have haccounts := statement_accounts (expression_accounts n) hc.on hlength
      unfold Accounts at haccounts
      rw [hs] at haccounts
      obtain ⟨hc', used, hused, -⟩ := haccounts
      have hahead : c'.ahead ≠ [] := fun hnil => hne (List.map_eq_nil_iff.1 hnil)
      have hkinds := Cursor.kinds_advance_of_ne_nil hahead
      have hwhole : c.kinds = (c.current.kind :: used) ++ c'.advance.kinds := by
        rw [← hkinds, Cursor.kinds, hused, List.cons_append]
      have hless := length_of_kinds hkinds
      have hlengths := congrArg List.length hused
      rw [List.length_append] at hlengths
      have hnext : c'.advance.kinds ≠ [] := List.cons_ne_nil _ _
      rw [hwhole] at hfinished heof
      rw [List.dropLast_append_of_ne_nil hnext, List.mem_append, not_or] at heof
      obtain ⟨rounds, hrounds, hread⟩ := statementsToEnd_onto hnm e k c'.advance rest
        hc'.advance.closed
        (by omega) (hfinished.of_append hnext) heof.2 hrest
      refine ⟨rounds + 1, by omega, fun budget => ?_⟩
      have hcurrent' : (c.onto e).current.kind ≠ .eof := by
        rwa [Cursor.current_onto fun hnil => hahead (by
          rw [Cursor.ahead, hnil, List.map_nil, List.nil_eq, List.append_eq_nil_iff] at hused
          exact hused.2)]
      rw [← Nat.add_assoc, statementsToEnd_cons hcurrent' hs', Cursor.advance_onto hne, hread,
        Reply.map_append_map_append]

theorem statementsToEnd_ne_failed : ∀ (n : Nat) (c c' : Cursor) (es : List ParseError),
    statementsToEnd expr n c ≠ .failed es c'
  | 0, _, _, _ => nofun
  | n + 1, c, c', es => by
    intro h
    rw [statementsToEnd, bind_clean (current_apply c)] at h
    split at h
    · cases h
    -- an attempt never fails, and the rest does not by induction
    · cases hs : attempt (statement expr) c with
      | done s fs d =>
        rw [bind_done hs, bind_clean (show advance d = .done () [] d.advance from rfl),
          bind_pure_map] at h
        cases hrest : statementsToEnd expr n d.advance with
        | failed gs e => exact statementsToEnd_ne_failed n d.advance e gs hrest
        | _ =>
          rw [hrest] at h
          cases h
      | failed fs d =>
        rw [attempt] at hs
        split at hs <;> cases hs
      | exhausted =>
        rw [bind_exhausted hs] at h
        cases h

end Parser

/-! ### Tokens in a row -/

section

variable {as bs : List Token} {ts us : List TokenKind}

theorem Cursor.ofTokens_of_kinds (h : as.map Token.kind = ts ++ [.eof]) :
    ∃ t rest, as = t :: rest ∧ Cursor.ofTokens as = ⟨t, rest⟩ := by
  cases as with
  | nil => simp at h
  | cons t rest =>
    refine ⟨t, rest, rfl, ?_⟩
    rw [Cursor.ofTokens, closeTokens_of_kinds h]

theorem Cursor.ofTokens_move (h : bs.map Token.kind = us ++ [.eof]) (f : Span → Span) :
    Cursor.ofTokens (bs.map (Token.move f)) = (Cursor.ofTokens bs).moved f := by
  have h' : (bs.map (Token.move f)).map Token.kind = us ++ [.eof] := by
    rw [Token.map_kind_map_move, h]
  obtain ⟨t, rest, rfl, hbs⟩ := ofTokens_of_kinds h
  obtain ⟨t', rest', hmoved, hbs'⟩ := ofTokens_of_kinds h'
  cases hmoved
  rw [hbs, hbs']
  rfl

theorem Cursor.ofTokens_append (ha : as.map Token.kind = ts ++ [.symbol .semicolon, .eof])
    (hb : bs.map Token.kind = us ++ [.eof]) :
    Cursor.ofTokens (as.dropLast ++ bs) = (Cursor.ofTokens as).onto (Cursor.ofTokens bs) := by
  have hwhole : (as.dropLast ++ bs).map Token.kind =
      as.dropLast.map Token.kind ++ us ++ [.eof] := by
    rw [List.map_append, hb, List.append_assoc]
  rw [List.append_cons ts] at ha
  -- each list begins with its first token, at which its cursor stands
  obtain ⟨t, rest, rfl, has⟩ := ofTokens_of_kinds ha
  obtain ⟨u, more, rfl, hbs⟩ := ofTokens_of_kinds hb
  obtain ⟨v, both, hv, hboth⟩ := ofTokens_of_kinds hwhole
  cases rest with
  | nil =>
    have hlength := congrArg List.length ha
    simp at hlength
  | cons w rest =>
    cases hv
    rw [has, hbs, hboth]
    rfl

/-- Tokens that are read without errors are read as their program. -/
theorem program_of_errors_eq_nil (hclean : (parseTokens as).errors = []) :
    ∃ c, Parser.program (as.length + 2) (Cursor.ofTokens as) =
      .done (parseTokens as).program [] c := by
  have hlength : (Cursor.ofTokens as).ahead.length < as.length + 2 := by
    have hle := Cursor.length_ahead_ofTokens as
    omega
  have haccounts := Parser.program_accounts (Cursor.on_ofTokens as) hlength
  unfold Parser.Accounts at haccounts
  unfold parseTokens at hclean ⊢
  -- a failure would have left an error
  cases hprogram : Parser.program (as.length + 2) (Cursor.ofTokens as) with
  | done body es d =>
    rw [hprogram] at hclean
    have hes : es = [] := hclean
    exact ⟨d, by rw [hes]⟩
  | failed es d =>
    rw [hprogram] at haccounts hclean
    exact absurd hclean haccounts.1
  | exhausted =>
    rw [hprogram] at haccounts
    exact haccounts.elim

/-- Tokens that are read without errors and end with a semicolon are read as before if others follow
them, and so are the others, but for their spans. -/
theorem parseTokens_append (ha : as.map Token.kind = ts ++ [.symbol .semicolon, .eof])
    (hts : .eof ∉ ts) (hb : bs.map Token.kind = us ++ [.eof]) (f : Span → Span)
    (hclean : (parseTokens as).errors = []) :
    parseTokens (as.dropLast ++ bs.map (Token.move f)) =
      ⟨(parseTokens as).program ++ (parseTokens bs).program,
        (parseTokens bs).errors.map (ParseError.move f)⟩ := by
  have hb' : (bs.map (Token.move f)).map Token.kind = us ++ [.eof] := by
    rw [Token.map_kind_map_move, hb]
  have hkinds : (Cursor.ofTokens as).kinds = ts ++ [.symbol .semicolon, .eof] := by
    rw [Cursor.kinds_ofTokens, closeTokens_of_kinds (ha.trans (List.append_cons ts _ _)), ha]
  have heof : .eof ∉ (Cursor.ofTokens as).kinds.dropLast := by
    rw [hkinds, List.append_cons, List.dropLast_concat]
    simpa using hts
  have hahead : (Cursor.ofTokens as).ahead.length + 1 = as.length := by
    rw [← Cursor.length_kinds, hkinds, ← ha, List.length_map]
  generalize hn : (as.dropLast ++ bs.map (Token.move f)).length + 2 = n
  have hlength : n = as.length + bs.length + 1 := by
    rw [← hn, List.length_append, List.length_dropLast, List.length_map]
    omega
  -- the first tokens are read with what follows in place of their end
  obtain ⟨d, hread⟩ := program_of_errors_eq_nil hclean
  have hsmaller : as.length + 2 ≤ n ∧ bs.length + 2 ≤ n := by
    have hpos : bs.length ≠ 0 := by
      rintro hzero
      rw [List.length_eq_zero_iff.1 hzero] at hb
      simp at hb
    omega
  obtain ⟨rounds, hrounds, honto⟩ := Parser.statementsToEnd_onto hsmaller.1
    (Cursor.ofTokens (bs.map (Token.move f))) _ _ _ (Cursor.closed_ofTokens as) (by omega)
    (hkinds ▸ Or.inr ⟨ts, rfl⟩) heof hread
  -- what follows is read as it is on its own
  have hcarries := Transfer.statementsToEnd_carries
    (Transfer.expression_carries (T := Transfer.moved f) hsmaller.2)
    (show bs.length + 2 ≤ n - rounds by omega) (Cursor.ofTokens bs)
  have hwhole := honto (n - rounds)
  rw [Nat.sub_add_cancel (by omega), ← Cursor.ofTokens_append ha hb'] at hwhole
  rw [Cursor.ofTokens_move hb f] at hwhole
  generalize (parseTokens as).program = first at hwhole ⊢
  cases hprogram : Parser.program (bs.length + 2) (Cursor.ofTokens bs) with
  | done second es c =>
    have hsecond : parseTokens bs = ⟨second, es⟩ := by rw [parseTokens, hprogram]
    rw [Parser.program] at hprogram
    rw [hprogram] at hcarries
    obtain ⟨-, hthere⟩ := hcarries.resolve_left id
    have hthere' : Parser.statementsToEnd (Parser.expression n) (n - rounds)
        ((Cursor.ofTokens bs).moved f) = _ := hthere
    rw [hsecond, parseTokens, hn, Parser.program, hwhole, hthere']
    rfl
  | failed es c => exact absurd hprogram (Parser.statementsToEnd_ne_failed _ _ _ _)
  | exhausted => exact absurd hprogram (Parser.program_ne_exhausted bs)

end

/-- The tokens of a source that ends with a semicolon, and of another one after it. -/
theorem lex_append {a b : String} (h : EndsWithSemicolon a) :
    lex (a ++ b) = (lex a).dropLast ++ tokensFrom (byteLength a.toList) b.toList := by
  have hfinished : Finished (kindsOf a.toList) := Or.inr h
  have htokens := tokensFrom_append a.toList b.toList 0 hfinished
  rwa [Nat.zero_add, ← String.toList_append] at htokens

/-- A source that is read without errors and ends with a semicolon is read as before if a text
follows, and so is the text, wherever its tokens then are. -/
theorem parse_append_of_tokens {a b : String} (h : EndsWithSemicolon a)
    (hclean : (parse a).errors = []) {f : Span → Span}
    (hmove : tokensFrom (byteLength a.toList) b.toList = (lex b).map (Token.move f)) :
    parse (a ++ b) = ⟨(parse a).program ++ (parse b).program,
      (parse b).errors.map (ParseError.move f)⟩ := by
  obtain ⟨ts, ha, heof⟩ := h.exists_kinds
  obtain ⟨us, hb, -⟩ := exists_kindsOf_eq b.toList
  have hts : .eof ∉ ts := fun hmem => heof (List.mem_append_left _ hmem)
  rw [← List.append_cons] at ha
  rw [parse, lex_append h, hmove]
  exact parseTokens_append ha hts hb f hclean

/-- Two sources of which the first ends with a semicolon, read without errors as one. -/
theorem parse_append_of_clean {a b : String} (ha : (parse a).errors = [])
    (hb : (parse b).errors = []) (h : EndsWithSemicolon a) :
    parse (a ++ b) = ⟨(parse a).program ++ (parse b).program, []⟩ := by
  have hwhole := parse_append_of_tokens h ha (tokensFrom_push (byteLength a.toList) b.toList)
  rwa [hb] at hwhole

/-- **A finished statement shields the parser from what follows.**  A source that is read without
errors and whose last token is a semicolon may be followed by any text, be it well-formed or not:
the statements of the two together are those of the source and then those of the text, and the
errors are those of the text, with their spans moved on by the length of the source in bytes.  Spans
can be moved on as long as the two together have less than 2³² bytes. -/
theorem parse_append (a b : String) (hsize : (a ++ b).utf8ByteSize < UInt32.size)
    (hclean : (parse a).errors = []) (h : EndsWithSemicolon a) :
    parse (a ++ b) = ⟨(parse a).program ++ (parse b).program,
      (parse b).errors.map (ParseError.shift a.utf8ByteSize)⟩ := by
  have hfits : byteLength a.toList + byteLength b.toList ≤ Span.maxOffset := by
    rw [byteLength_toList, byteLength_toList, ← String.utf8ByteSize_append]
    exact Nat.le_sub_one_of_lt hsize
  rw [parse_append_of_tokens h hclean (tokensFrom_shift hfits), ParseError.move_shift,
    byteLength_toList]

/-- A definition, and after it a text with a parenthesis too many and a `let` without a name. -/
theorem parse_append_broken :
    parse ("let f = fn(x) \x7b x \x7d;\n" ++ "f(1)) let 3; g") =
      ⟨[.letBe "f" (.fn ["x"] [.expr (.ident "x")]), .expr (.call (.ident "f") [.int 1]),
          .expr (.int 3), .expr (.ident "g")],
        [.noPrefixRule (.symbol .rparen) ⟨25, 26⟩, .unexpectedToken .ident .int ⟨31, 32⟩]⟩ := by
  have hsemicolon : EndsWithSemicolon "let f = fn(x) \x7b x \x7d;\n" := by decide +kernel
  have hfirst : (parse "let f = fn(x) \x7b x \x7d;\n").program =
      [.letBe "f" (.fn ["x"] [.expr (.ident "x")])] := by decide +kernel
  have hsecond : (parse "f(1)) let 3; g").program =
      [.expr (.call (.ident "f") [.int 1]), .expr (.int 3), .expr (.ident "g")] := by
    decide +kernel
  have herrors : (parse "f(1)) let 3; g").errors =
      [.noPrefixRule (.symbol .rparen) ⟨4, 5⟩, .unexpectedToken .ident .int ⟨10, 11⟩] := by
    decide +kernel
  rw [parse_append _ _ (by decide +kernel) (by decide +kernel) hsemicolon, hfirst, hsecond, herrors]
  rfl

end Monkey
