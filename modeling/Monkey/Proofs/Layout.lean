import Monkey.Proofs.Blame
import Monkey.Proofs.Shielding

/-!
# Layout

Blanks may be put into a source wherever they cut no token in two: before and after it, where blanks
are already, and between two tokens that touch.  The tokens stay what they are, since what a token
is depends on the characters that it is made of and on whether the next one would go on with it,
which a blank never does.  Only a string that nothing closes would take them in.

Of the tokens, the parser looks at the kinds only.  So the program stays what it is as well, and so
do the errors, but for their spans.

## Main definitions

* `TokenKind.isUnclosed` — a string that nothing closes.
* `Span.makeRoom` — a span after text was put in at some place.

## Main results

* `Tokenizes.exists_insert` — **where no token is cut, blanks can be put in.**
* `parseTokens_move` — the parser does not look at spans.
* `layout_is_irrelevant` — **blanks between tokens change nothing but spans.**
-/

namespace Monkey

/-- The token is a string that nothing closes. -/
def TokenKind.isUnclosed : TokenKind → Bool
  | .illegal text => text.toList.head? = some '"'
  | _ => false

/-- A blank goes on with no other token. -/
theorem TokenKind.goesOn_of_isBlank {kind : TokenKind} {c : Char} (hc : isBlank c = true)
    (h : kind.isUnclosed = false) : kind.goesOn c = false := by
  simp only [isBlank, Bool.or_eq_true, decide_eq_true_eq] at hc
  cases kind with
  | illegal text => exact h
  | str | eof => rfl
  | symbol sign =>
    rw [TokenKind.goesOn, Bool.and_eq_false_imp]
    rcases hc with (((rfl | rfl) | rfl) | rfl) | rfl <;> exact fun _ => rfl
  | _ => rcases hc with (((rfl | rfl) | rfl) | rfl) | rfl <;> rfl

/-- A token that a text does not go on with ends before blanks in that text, too. -/
theorem TokenKind.EndsBefore.insert {kind : TokenKind} {before w after : List Char}
    (h : kind.EndsBefore (before ++ after)) (hw : ∀ c ∈ w, isBlank c = true)
    (hclosed : kind.isUnclosed = false) : kind.EndsBefore (before ++ (w ++ after)) := by
  cases before with
  | cons c before => exact h
  | nil =>
    cases w with
    | nil => exact h
    | cons c w =>
      intro d hd
      cases hd
      exact goesOn_of_isBlank (hw c (List.mem_cons_self ..)) hclosed

/-- A span once `length` bytes have been put in at a place: it is moved on unless it starts before
that place. -/
def Span.makeRoom (place length : Nat) (s : Span) : Span :=
  if place ≤ s.start then s.shift length else s

/-! ### Blanks in a text -/

section

variable {done cs rest w : List Char} {ts : List Token}

/-- Blanks before a text. -/
theorem Tokenizes.blanks (h : Tokenizes (done ++ w) rest ts) (hw : ∀ c ∈ w, isBlank c = true) :
    Tokenizes done (w ++ rest) ts := by
  induction w generalizing done with
  | nil => rwa [List.append_nil] at h
  | cons c w ih =>
    rw [List.forall_mem_cons] at hw
    rw [List.append_cons] at h
    exact .blank hw.1 (ih h hw.2)

/-- The same text after more text. -/
theorem Tokenizes.shift (h : Tokenizes done cs ts) {length : Nat} : ∀ {done' : List Char},
    byteLength done' = byteLength done + length →
    Tokenizes done' cs (ts.map (Token.move (Span.shift · length))) := by
  induction h with
  | nil => exact fun _ => .nil
  | @blank done rest c ts hblank _ ih =>
    intro done' hdone
    refine .blank hblank (ih ?_)
    rw [byteLength_append, byteLength_append, hdone]
    omega
  | @token done text rest kind ts hlongest _ ih =>
    intro done' hdone
    -- the end of the token moves with its beginning
    have hstop : byteLength (done' ++ text) = byteLength (done ++ text) + length := by
      rw [byteLength_append, byteLength_append, hdone]
      omega
    have hread := Tokenizes.token hlongest (ih hstop)
    rw [hdone, hstop] at hread
    exact hread

/-- Blanks put in before all tokens. -/
theorem Tokenizes.insert_before (h : Tokenizes done cs ts) (hw : ∀ c ∈ w, isBlank c = true) :
    Tokenizes done (w ++ cs)
      (ts.map (Token.move (Span.makeRoom (byteLength done) (byteLength w)))) := by
  have hmove : ∀ t ∈ ts, t.move (Span.makeRoom (byteLength done) (byteLength w)) =
      t.move (Span.shift · (byteLength w)) := by
    intro t ht
    obtain ⟨before, text, after, -, hstart, hspan, -⟩ := h.exists_slice t ht
    rw [Token.move, Token.move, hspan, Span.makeRoom, if_pos hstart]
  rw [List.map_congr_left hmove]
  exact (h.shift (byteLength_append done w)).blanks hw

/-- **Where no token is cut, blanks can be put in.**  By induction on reading the text: the place is
before the rest of it, or further on, after the blank or the token in front. -/
theorem Tokenizes.exists_insert (h : Tokenizes done cs ts) (hw : ∀ c ∈ w, isBlank c = true)
    {place : Nat} (hclosed : ∀ t ∈ ts, t.kind.isUnclosed = false) (hstart : byteLength done ≤ place)
    (hstop : place ≤ byteLength (done ++ cs))
    (hcut : ∀ t ∈ ts, ¬ (t.span.start < place ∧ place < t.span.stop)) :
    ∃ before after, cs = before ++ after ∧ byteLength (done ++ before) = place ∧
      Tokenizes done (before ++ (w ++ after))
        (ts.map (Token.move (Span.makeRoom place (byteLength w)))) := by
  induction h with
  | @nil done =>
    rw [List.append_nil] at hstop
    have heq : byteLength done = place := Nat.le_antisymm hstart hstop
    exact ⟨[], [], rfl, by rw [List.append_nil, heq], (Tokenizes.nil).blanks hw⟩
  | @blank done rest c ts hblank hrest ih =>
    -- the place is right here, or a blank further on at least
    rcases Nat.eq_or_lt_of_le hstart with rfl | hlater
    · exact ⟨[], _, rfl, by rw [List.append_nil], (hrest.blank hblank).insert_before hw⟩
    have hone : byteLength (done ++ [c]) ≤ place := by
      rw [byteLength_append, byteLength_cons, utf8Size_of_isBlank hblank, byteLength_nil]
      exact hlater
    rw [List.append_cons] at hstop
    obtain ⟨before, after, rfl, hplace, hread⟩ := ih hclosed hone hstop hcut
    rw [← List.append_cons] at hplace
    exact ⟨c :: before, after, rfl, hplace, hread.blank hblank⟩
  | @token done text rest kind ts hlongest hrest ih =>
    rcases Nat.eq_or_lt_of_le hstart with rfl | hlater
    · exact ⟨[], _, rfl, by rw [List.append_nil], (hrest.token hlongest).insert_before hw⟩
    rw [List.forall_mem_cons] at hclosed hcut
    -- the place does not cut the token, so it is behind it
    have hafter : byteLength (done ++ text) ≤ place := Nat.le_of_not_lt fun h => hcut.1 ⟨hlater, h⟩
    rw [← List.append_assoc] at hstop
    obtain ⟨before, after, rfl, hplace, hread⟩ := ih hclosed.2 hafter hstop hcut.2
    rw [List.append_assoc] at hplace
    have hspan : Span.makeRoom place (byteLength w)
        ⟨byteLength done, byteLength (done ++ text)⟩ =
          ⟨byteLength done, byteLength (done ++ text)⟩ := if_neg (Nat.not_le.2 hlater)
    have hlongest' : IsLongest kind text (before ++ (w ++ after)) :=
      hlongest.isSpelling.isLongest (hlongest.endsBefore.insert hw hclosed.1)
    refine ⟨text ++ before, after, by rw [List.append_assoc], hplace, ?_⟩
    rw [List.map_cons, Token.move, hspan, List.append_assoc]
    exact hread.token hlongest'

end

/-! ### Spans mean nothing to the parser -/

theorem ParseError.message_move (f : Span → Span) (e : ParseError) :
    (e.move f).message = e.message := by
  cases e <;> rfl

/-- Tokens up to an end token are read alike wherever they stand. -/
theorem parseTokens_move {tokens : List Token} {kinds : List TokenKind}
    (hkinds : tokens.map Token.kind = kinds ++ [.eof]) (f : Span → Span) :
    parseTokens (tokens.map (Token.move f)) =
      ⟨(parseTokens tokens).program, (parseTokens tokens).errors.map (ParseError.move f)⟩ := by
  have hcarries := Transfer.statementsToEnd_carries
    (Transfer.expression_carries (T := .moved f) (Nat.le_refl (tokens.length + 2)))
    (Nat.le_refl (tokens.length + 2)) (Cursor.ofTokens tokens)
  -- nothing is lost in the transfer, as the budget is ample
  have hthere : Parser.program (tokens.length + 2) ((Cursor.ofTokens tokens).moved f) =
      (Transfer.moved f).reply (Parser.program (tokens.length + 2) (Cursor.ofTokens tokens)) := by
    refine (hcarries.resolve_left fun hlost => ?_).2
    cases hprogram : Parser.program (tokens.length + 2) (Cursor.ofTokens tokens) with
    | exhausted => exact Parser.program_ne_exhausted tokens hprogram
    | _ =>
      rw [Parser.program] at hprogram
      rw [hprogram] at hlost
      exact hlost
  rw [parseTokens, parseTokens, List.length_map, Cursor.ofTokens_move hkinds, hthere]
  cases Parser.program (tokens.length + 2) (Cursor.ofTokens tokens) <;> rfl

/-! ### Blanks in a source -/

section

variable {source layout : String} {place : Nat}

/-- The end of a source is moved on with what comes before it. -/
theorem move_makeRoom_end (hplace : place ≤ source.utf8ByteSize) (length : Nat) :
    Token.move (Span.makeRoom place length) ⟨.eof, .point source.utf8ByteSize⟩ =
      ⟨.eof, .point (source.utf8ByteSize + length)⟩ := by
  have hmove : Span.makeRoom place length (.point source.utf8ByteSize) =
      .point (source.utf8ByteSize + length) := if_pos hplace
  rw [Token.move, hmove]

/-- The tokens of a source with blanks put in. -/
theorem exists_lex_insert (hclosed : ∀ t ∈ lex source, t.kind.isUnclosed = false)
    (hlayout : ∀ c ∈ layout.toList, isBlank c = true) (hplace : place ≤ source.utf8ByteSize)
    (hcut : ∀ t ∈ lex source, ¬ (t.span.start < place ∧ place < t.span.stop))
    (hsize : source.utf8ByteSize + layout.utf8ByteSize < UInt32.size) :
    ∃ before after : String, source = before ++ after ∧ before.utf8ByteSize = place ∧
      lex (before ++ layout ++ after) =
        (lex source).map (Token.move (Span.makeRoom place layout.utf8ByteSize)) := by
  obtain ⟨tokens, htokens⟩ := exists_tokenizes [] source.toList
  have hlex := htokens.lex_eq (Nat.lt_of_le_of_lt (Nat.le_add_right _ _) hsize)
  rw [hlex, List.forall_mem_append] at hclosed hcut
  obtain ⟨before, after, hsource, hbefore, hread⟩ := htokens.exists_insert hlayout hclosed.1
    (Nat.zero_le place) (by rwa [List.nil_append, byteLength_toList]) hcut.1
  rw [List.nil_append] at hbefore
  have hsplit : source = String.ofList before ++ String.ofList after := by
    rw [← String.ofList_append, ← hsource, String.ofList_toList]
  refine ⟨String.ofList before, String.ofList after, hsplit, ?_, ?_⟩
  · rw [utf8ByteSize_ofList, hbefore]
  -- the end token is moved as well, to where the longer source ends
  have hbytes : (String.ofList before ++ layout ++ String.ofList after).utf8ByteSize =
      source.utf8ByteSize + layout.utf8ByteSize := by
    rw [hsplit]
    simp only [String.utf8ByteSize_append]
    omega
  have hchars : (String.ofList before ++ layout ++ String.ofList after).toList =
      before ++ (layout.toList ++ after) := by
    simp only [String.toList_append, String.toList_ofList, List.append_assoc]
  rw [← hchars] at hread
  rw [hread.lex_eq (hbytes ▸ hsize), hbytes, hlex, List.map_append, List.map_singleton,
    move_makeRoom_end hplace, byteLength_toList]

end

/-- **Blanks between tokens change nothing but spans.**  In a source without a string that nothing
closes, let a place be given that is not inside of a token.  Then it is between two characters, and
if blanks are put in there, the source has the same tokens as before: those that start before the
place are where they were, and the others are moved on by the number of blanks.  It is read as the
same program, with the same errors, worded alike, in the same order. -/
theorem layout_is_irrelevant (source layout : String) (place : Nat)
    (hclosed : ∀ t ∈ lex source, t.kind.isUnclosed = false)
    (hlayout : ∀ c ∈ layout.toList, isBlank c = true) (hplace : place ≤ source.utf8ByteSize)
    (hcut : ∀ t ∈ lex source, ¬ (t.span.start < place ∧ place < t.span.stop))
    (hsize : source.utf8ByteSize + layout.utf8ByteSize < UInt32.size) :
    ∃ before after : String, source = before ++ after ∧ before.utf8ByteSize = place ∧
      lex (before ++ layout ++ after) =
        (lex source).map (Token.move (Span.makeRoom place layout.utf8ByteSize)) ∧
      (parse (before ++ layout ++ after)).program = (parse source).program ∧
      (parse (before ++ layout ++ after)).errors =
        (parse source).errors.map (ParseError.move (Span.makeRoom place layout.utf8ByteSize)) ∧
      (parse (before ++ layout ++ after)).errors.map ParseError.message =
        (parse source).errors.map ParseError.message := by
  obtain ⟨before, after, hsource, hbefore, hlex⟩ :=
    exists_lex_insert hclosed hlayout hplace hcut hsize
  obtain ⟨kinds, hkinds, -⟩ := exists_kindsOf_eq source.toList
  rw [← map_kind_lex] at hkinds
  -- the parser does not look at the spans, but for putting them into errors
  have hparse : parse (before ++ layout ++ after) = ⟨(parse source).program,
      (parse source).errors.map (ParseError.move (Span.makeRoom place layout.utf8ByteSize))⟩ := by
    rw [parse, hlex]
    exact parseTokens_move hkinds _
  refine ⟨before, after, hsource, hbefore, hlex, by rw [hparse], by rw [hparse], ?_⟩
  rw [hparse, List.map_map]
  exact List.map_congr_left fun e _ => e.message_move _

/-- A text is cut in one way at a given place. -/
theorem eq_of_append_eq_append {a b c d : String} (h : a ++ b = c ++ d)
    (hsize : a.utf8ByteSize = c.utf8ByteSize) : a = c ∧ b = d := by
  have hbytes := congrArg String.toByteArray h
  rw [String.toByteArray_append, String.toByteArray_append] at hbytes
  have hfirst : a = c := String.toByteArray_inj.1 (ByteArray.append_inj_left hbytes hsize)
  exact ⟨hfirst, (String.append_right_inj c).1 (hfirst ▸ h)⟩

/-- A line break and a tab between a sign and a parenthesis that touch.  What is missing after the
numeral is missing still. -/
theorem layout_is_irrelevant_broken :
    lex "-\n\t(1 \"b\"" = [⟨.symbol .minus, ⟨0, 1⟩⟩, ⟨.symbol .lparen, ⟨3, 4⟩⟩, ⟨.int 1, ⟨4, 5⟩⟩,
        ⟨.str "b", ⟨6, 9⟩⟩, ⟨.eof, ⟨9, 9⟩⟩] ∧
      (parse "-\n\t(1 \"b\"").program = [.expr (.str "b")] ∧
      (parse "-\n\t(1 \"b\"").errors = [.unexpectedToken (.symbol .rparen) .str ⟨6, 9⟩] := by
  obtain ⟨before, after, hsource, hbefore, hlex, hprogram, herrors, -⟩ :=
    layout_is_irrelevant "-(1 \"b\"" "\n\t" 1 (by decide +kernel) (by simp [isBlank]) (by decide)
      (by decide +kernel) (by decide)
  obtain ⟨rfl, rfl⟩ := eq_of_append_eq_append (c := "-") (d := "(1 \"b\"") hsource.symm hbefore
  have hwhole : "-" ++ "\n\t" ++ "(1 \"b\"" = "-\n\t(1 \"b\"" := by decide +kernel
  rw [hwhole] at hlex hprogram herrors
  exact ⟨hlex.trans (by decide +kernel), hprogram.trans (by decide +kernel),
    herrors.trans (by decide +kernel)⟩

end Monkey
