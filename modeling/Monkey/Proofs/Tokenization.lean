import Monkey.Proofs.Spelling

/-!
# Lexing cuts a text into its longest tokens

Read from left to right, a text is a blank and the rest, or the longest token that it begins with
and the rest.  There is one way only to read it like that, and lexing finds it.  The tokens lie in
the text one after another, and between them there is nothing but blanks.

## Main definitions

* `Tokenizes` — a text is read as a list of tokens.
* `Span.Covers` — a byte belongs to a span.

## Main results

* `Tokenizes.tokensFrom_eq`, `exists_tokenizes` — lexing is the only way to read a text.
* `Tokenizes.exists_slice` — every token is the longest at its place.
* `Tokenizes.exists_blank` — **what no token covers is blank.**
* `lex_longest` — **lexing takes the longest tokens and loses no text.**
-/

namespace Monkey

/-- A text is read as a list of tokens, after what was read before it. -/
inductive Tokenizes : List Char → List Char → List Token → Prop
  | nil {done : List Char} : Tokenizes done [] []
  | blank {done rest : List Char} {c : Char} {ts : List Token} : isBlank c = true →
    Tokenizes (done ++ [c]) rest ts → Tokenizes done (c :: rest) ts
  | token {done text rest : List Char} {kind : TokenKind} {ts : List Token} :
    IsLongest kind text rest → Tokenizes (done ++ text) rest ts →
    Tokenizes done (text ++ rest) (⟨kind, ⟨byteLength done, byteLength (done ++ text)⟩⟩ :: ts)

/-- A byte belongs to a span. -/
def Span.Covers (s : Span) (i : Nat) : Prop := s.start ≤ i ∧ i < s.stop

/-! ### The longest token is the first lexeme -/

section

variable {kind : TokenKind} {text rest done cs : List Char} {ts us : List Token}

/-- There is one longest token only. -/
theorem IsLongest.firstLexeme_eq (h : IsLongest kind text rest) :
    ∃ c cs, text ++ rest = c :: cs ∧ isBlank c = false ∧ firstLexeme c cs = ⟨kind, text, rest⟩ := by
  obtain ⟨c, cs, htext, hblank, -⟩ := h.isSpelling.firstLexeme_eq kind.endsBefore_nil
  have hfirst := isLongest_firstLexeme hblank (cs ++ rest)
  have hwhole := firstLexeme_text_append_rest c (cs ++ rest)
  refine ⟨c, cs ++ rest, by rw [htext, List.cons_append], hblank, ?_⟩
  rw [← List.cons_append, ← htext] at hwhole
  -- each of the two is as long as the other
  have hlength := Nat.le_antisymm (h.length_le hwhole hfirst.isSpelling)
    (hfirst.length_le hwhole.symm h.isSpelling)
  obtain ⟨hsame, hrest⟩ := List.append_inj hwhole hlength
  have hkind : (firstLexeme c (cs ++ rest)).kind = kind :=
    hfirst.isSpelling.kind_unique (hsame ▸ h.isSpelling)
  cases hlexeme : firstLexeme c (cs ++ rest) with
  | mk kind' text' rest' =>
    rw [hlexeme] at hsame hrest hkind
    cases hsame
    cases hrest
    cases hkind
    rfl

theorem IsLongest.endsBefore (h : IsLongest kind text rest) : kind.EndsBefore rest := by
  obtain ⟨c, cs, -, hblank, hlexeme⟩ := h.firstLexeme_eq
  have hends := (isSpelling_firstLexeme hblank cs).2
  rw [hlexeme] at hends
  exact hends

theorem IsLongest.text_ne_nil (h : IsLongest kind text rest) : text ≠ [] := by
  obtain ⟨c, cs, htext, -⟩ := h.isSpelling.firstLexeme_eq kind.endsBefore_nil
  rw [htext]
  exact List.cons_ne_nil c cs

theorem IsLongest.isSpelling_iff (h : IsLongest kind text rest) (kind' : TokenKind) :
    IsSpelling kind' text ↔ kind' = kind := by
  constructor
  · intro hspells
    exact hspells.kind_unique h.isSpelling
  · rintro rfl
    exact h.isSpelling

/-- No token goes on with the text of the longest. -/
theorem IsLongest.not_isSpelling_append {more : List Char} (h : IsLongest kind text (more ++ rest))
    (hne : more ≠ []) (kind' : TokenKind) : ¬ IsSpelling kind' (text ++ more) := by
  intro hspells
  have hle := h.length_le (List.append_assoc text more rest) hspells
  have hmore := List.length_pos_iff.2 hne
  rw [List.length_append] at hle
  omega

/-! ### Lexing is the only way to read a text -/

/-- The tokens that a text is read as are those that lexing gives. -/
theorem Tokenizes.tokensFrom_eq (h : Tokenizes done cs ts)
    (hsize : byteLength (done ++ cs) ≤ Span.maxOffset) :
    tokensFrom (byteLength done) cs = ts ++ [⟨.eof, .point (byteLength (done ++ cs))⟩] := by
  induction h with
  | nil =>
    rw [List.append_nil] at hsize ⊢
    rw [tokensFrom_nil, Span.ofRange_of_le hsize hsize]
    rfl
  | @blank done rest c ts hblank _ ih =>
    rw [List.append_assoc] at ih
    have hread := ih hsize
    rw [byteLength_append] at hread
    rw [tokensFrom_blank _ _ hblank]
    exact hread
  | @token done text rest kind ts hlongest _ ih =>
    -- the lexer takes the longest token that there is, which is this one
    obtain ⟨c, cs, htext, hblank, hlexeme⟩ := hlongest.firstLexeme_eq
    rw [List.append_assoc] at ih
    have hstop : byteLength (done ++ text) ≤ Span.maxOffset := by
      simp only [byteLength_append] at hsize ⊢
      omega
    have hstart : byteLength done ≤ Span.maxOffset := by
      rw [byteLength_append] at hstop
      omega
    rw [htext, tokensFrom_lexeme _ _ hblank, hlexeme, ← byteLength_append,
      Span.ofRange_of_le hstart hstop, ih hsize, ← htext]
    rfl

/-- Every text can be read. -/
theorem exists_tokenizes : ∀ (done cs : List Char), ∃ ts, Tokenizes done cs ts
  | _, [] => ⟨[], .nil⟩
  | done, c :: cs => by
    cases hblank : isBlank c with
    | true =>
      obtain ⟨ts, hts⟩ := exists_tokenizes (done ++ [c]) cs
      exact ⟨ts, .blank hblank hts⟩
    | false =>
      obtain ⟨ts, hts⟩ :=
        exists_tokenizes (done ++ (firstLexeme c cs).text) (firstLexeme c cs).rest
      have hread := Tokenizes.token (isLongest_firstLexeme hblank cs) hts
      rw [firstLexeme_text_append_rest] at hread
      exact ⟨_, hread⟩
  termination_by _ cs => cs.length
  decreasing_by
    all_goals
      have hrest := length_firstLexeme_rest c cs
      simp only [List.length_cons]
      omega

/-! ### Where the tokens lie -/

theorem byteLength_pos : ∀ {cs : List Char}, cs ≠ [] → 0 < byteLength cs
  | [], h => absurd rfl h
  | c :: cs, _ => by
    have hsize := c.utf8Size_pos
    rw [byteLength_cons]
    omega

/-- Every token is the longest at its place in the text. -/
theorem Tokenizes.exists_slice (h : Tokenizes done cs ts) : ∀ t ∈ ts, ∃ before text after,
    done ++ cs = before ++ (text ++ after) ∧ byteLength done ≤ byteLength before ∧
    t.span = ⟨byteLength before, byteLength (before ++ text)⟩ ∧ IsLongest t.kind text after := by
  induction h with
  | nil => simp
  | @blank done rest c ts _ _ ih =>
    intro t ht
    obtain ⟨before, text, after, hwhole, hstart, hspan, hlongest⟩ := ih t ht
    rw [List.append_assoc] at hwhole
    rw [byteLength_append] at hstart
    exact ⟨before, text, after, hwhole, by omega, hspan, hlongest⟩
  | @token done text rest kind ts hlongest _ ih =>
    intro t ht
    -- the token at the front, or one of those behind
    rcases List.mem_cons.1 ht with rfl | ht
    · exact ⟨done, text, rest, rfl, Nat.le_refl _, rfl, hlongest⟩
    · obtain ⟨before, text', after, hwhole, hstart, hspan, hlongest'⟩ := ih t ht
      rw [List.append_assoc] at hwhole
      rw [byteLength_append] at hstart
      exact ⟨before, text', after, hwhole, by omega, hspan, hlongest'⟩

/-- The tokens lie in the text one after another. -/
theorem Tokenizes.pairwise (h : Tokenizes done cs ts) :
    ts.Pairwise fun t u => t.span.stop ≤ u.span.start := by
  induction h with
  | nil => exact .nil
  | blank _ _ ih => exact ih
  | token _ hrest ih =>
    refine List.pairwise_cons.2 ⟨?_, ih⟩
    intro u hu
    obtain ⟨before, text, after, -, hstart, hspan, -⟩ := hrest.exists_slice u hu
    rw [hspan]
    exact hstart

theorem utf8Size_of_isBlank {c : Char} (h : isBlank c = true) : c.utf8Size = 1 := by
  simp only [isBlank, Bool.or_eq_true, decide_eq_true_eq] at h
  rcases h with (((rfl | rfl) | rfl) | rfl) | rfl <;> rfl

/-- **What no token covers is blank.** -/
theorem Tokenizes.exists_blank (h : Tokenizes done cs ts) : ∀ i, byteLength done ≤ i →
    i < byteLength (done ++ cs) → (∀ t ∈ ts, ¬ t.span.Covers i) →
    ∃ before c after, done ++ cs = before ++ c :: after ∧ isBlank c = true ∧
      byteLength before = i := by
  induction h with
  | nil =>
    intro i hstart hstop
    rw [List.append_nil] at hstop
    omega
  | @blank done rest c ts hblank _ ih =>
    intro i hstart hstop hcovers
    rcases Nat.eq_or_lt_of_le hstart with rfl | hlater
    · exact ⟨done, c, rest, rfl, hblank, rfl⟩
    · rw [List.append_assoc, byteLength_append, byteLength_cons, utf8Size_of_isBlank hblank] at ih
      exact ih i hlater hstop hcovers
  | @token done text rest kind ts _ _ ih =>
    intro i hstart hstop hcovers
    rw [List.append_assoc] at ih
    -- a place inside the token is covered, so that it lies behind
    rcases Nat.lt_or_ge i (byteLength (done ++ text)) with hinside | hafter
    · exact absurd ⟨hstart, hinside⟩ (hcovers _ (List.mem_cons_self ..))
    · exact ih i hafter hstop fun t ht => hcovers t (List.mem_cons_of_mem _ ht)

end

/-! ### Bytes -/

theorem utf8ByteSize_ofList (cs : List Char) : (String.ofList cs).utf8ByteSize = byteLength cs := by
  induction cs with
  | nil => rfl
  | cons c cs ih =>
    rw [String.ofList_cons, String.utf8ByteSize_append, String.utf8ByteSize_singleton, ih]
    rfl

theorem byteLength_toList (text : String) : byteLength text.toList = text.utf8ByteSize := by
  rw [← utf8ByteSize_ofList, String.ofList_toList]

/-- The bytes of the blanks. -/
def blankBytes : List UInt8 := [0x20, 0x09, 0x0D, 0x0A, 0x0C]

/-- A blank is one byte. -/
theorem utf8Encode_of_isBlank {c : Char} (h : isBlank c = true) :
    ∃ b ∈ blankBytes, [c].utf8Encode = ⟨#[b]⟩ := by
  simp only [isBlank, Bool.or_eq_true, decide_eq_true_eq] at h
  rcases h with (((rfl | rfl) | rfl) | rfl) | rfl
  · exact ⟨0x20, by decide, by decide⟩
  · exact ⟨0x09, by decide, by decide⟩
  · exact ⟨0x0D, by decide, by decide⟩
  · exact ⟨0x0A, by decide, by decide⟩
  · exact ⟨0x0C, by decide, by decide⟩

theorem getElem_toUTF8_of_isBlank {before after : List Char} {c : Char} (h : isBlank c = true)
    {i : Nat} (hbefore : byteLength before = i)
    (hi : i < (String.ofList (before ++ c :: after)).toUTF8.size) :
    (String.ofList (before ++ c :: after)).toUTF8[i] ∈ blankBytes := by
  obtain ⟨b, hb, hencode⟩ := utf8Encode_of_isBlank h
  have hsize : before.utf8Encode.size = i := by
    rw [← hbefore, ← utf8ByteSize_ofList, ← String.toByteArray_ofList]
    rfl
  -- the byte of the blank stands behind the bytes of what is before it
  have hbytes : (String.ofList (before ++ c :: after)).toUTF8 =
      before.utf8Encode ++ (⟨#[b]⟩ ++ after.utf8Encode) := by
    rw [← hencode, ← List.utf8Encode_cons, ← List.utf8Encode_append]
    exact String.toByteArray_ofList
  have hone : i - before.utf8Encode.size < (⟨#[b]⟩ : ByteArray).size := by
    rw [hsize, Nat.sub_self]
    exact Nat.one_pos
  have hzero : i - before.utf8Encode.size = 0 := by rw [hsize, Nat.sub_self]
  simp only [hbytes]
  rw [ByteArray.getElem_append_right (Nat.le_of_eq hsize), ByteArray.getElem_append_left hone]
  simp only [hzero]
  exact hb

/-! ### The tokens of a source -/

/-- The tokens of a source are those that it is read as, and a last one where it ends. -/
theorem Tokenizes.lex_eq {source : String} {tokens : List Token}
    (h : Tokenizes [] source.toList tokens) (hsize : source.utf8ByteSize < UInt32.size) :
    lex source = tokens ++ [⟨.eof, .point source.utf8ByteSize⟩] := by
  have hmax : byteLength ([] ++ source.toList) ≤ Span.maxOffset := by
    rw [List.nil_append, byteLength_toList]
    exact Nat.le_sub_one_of_lt hsize
  have hread := h.tokensFrom_eq hmax
  rw [List.nil_append, byteLength_toList] at hread
  exact hread

/-- **Lexing takes the longest tokens and loses no text.**  The tokens of a source of less than 2³²
bytes are those that it is read as from left to right, and a last one where it ends.  Each of the
others stands for a slice of the source: it is not empty, spells that token and no other, and
neither the next character nor any more of them would go on with it.  They lie in the source one
after another, and every byte outside them is a blank. -/
theorem lex_longest (source : String) (hsize : source.utf8ByteSize < UInt32.size) :
    ∃ tokens, lex source = tokens ++ [⟨.eof, .point source.utf8ByteSize⟩] ∧
      (∀ ts, Tokenizes [] source.toList ts ↔ ts = tokens) ∧
      (∀ t ∈ tokens, t.kind ≠ .eof ∧ t.span.start < t.span.stop ∧
        ∃ before text after : String, source = before ++ text ++ after ∧
          t.span = ⟨before.utf8ByteSize, (before ++ text).utf8ByteSize⟩ ∧
          (∀ kind, IsSpelling kind text.toList ↔ kind = t.kind) ∧
          (∀ c ∈ after.toList.head?, t.kind.goesOn c = false) ∧
          (∀ more rest kind, after.toList = more ++ rest → more ≠ [] →
            ¬ IsSpelling kind (text.toList ++ more))) ∧
      tokens.Pairwise (fun t u => t.span.stop ≤ u.span.start) ∧
      (∀ (i : Nat) (hi : i < source.toUTF8.size), (∀ t ∈ tokens, ¬ t.span.Covers i) →
        source.toUTF8[i] ∈ blankBytes) := by
  obtain ⟨tokens, htokens⟩ := exists_tokenizes [] source.toList
  have hlength : byteLength source.toList = source.utf8ByteSize := byteLength_toList source
  have hlex := htokens.lex_eq hsize
  refine ⟨tokens, hlex, ?_, ?_, htokens.pairwise, ?_⟩
  · intro ts
    constructor
    · intro hts
      exact List.append_cancel_right ((hts.lex_eq hsize).symm.trans hlex)
    · rintro rfl
      exact htokens
  · intro t ht
    -- a token stands for the longest text that could be read where it starts
    obtain ⟨before, text, after, hsource, -, hspan, hlongest⟩ := htokens.exists_slice t ht
    rw [List.nil_append] at hsource
    have hpos := byteLength_pos hlongest.text_ne_nil
    refine ⟨hlongest.isSpelling.kind_ne_eof, ?_, String.ofList before, String.ofList text,
      String.ofList after, ?_, ?_, ?_⟩
    · rw [hspan, byteLength_append]
      show byteLength before < byteLength before + byteLength text
      omega
    · rw [← String.ofList_append, ← String.ofList_append, List.append_assoc, ← hsource,
        String.ofList_toList]
    · rw [hspan, ← String.ofList_append, utf8ByteSize_ofList, utf8ByteSize_ofList]
    · rw [String.toList_ofList, String.toList_ofList]
      refine ⟨hlongest.isSpelling_iff, hlongest.endsBefore, ?_⟩
      rintro more rest kind rfl hne
      exact hlongest.not_isSpelling_append hne kind
  · intro i hi hcovers
    have hsizes : source.toUTF8.size = byteLength ([] ++ source.toList) := by
      rw [List.nil_append, hlength]
      rfl
    -- a byte that no token covers belongs to a character that was passed over
    obtain ⟨before, c, after, hsource, hblank, hbefore⟩ :=
      htokens.exists_blank i (Nat.zero_le _) (hsizes ▸ hi) hcovers
    have hwhole : source = String.ofList (before ++ c :: after) := by
      rw [← hsource, List.nil_append, String.ofList_toList]
    subst hwhole
    exact getElem_toUTF8_of_isBlank hblank hbefore hi

/-- A name that begins like a reserved word, an assignment, a numeral with zeros in front and, after
a blank, a string that nothing closes, with a character of two bytes. -/
theorem lex_longest_mixed : lex "fnx=007 \"é" = [⟨.ident "fnx", ⟨0, 3⟩⟩,
    ⟨.symbol .assign, ⟨3, 4⟩⟩, ⟨.int 7, ⟨4, 7⟩⟩, ⟨.illegal "\"é", ⟨8, 11⟩⟩, ⟨.eof, ⟨11, 11⟩⟩] := by
  obtain ⟨tokens, hlex, hunique, -⟩ := lex_longest "fnx=007 \"é" (by decide)
  have hname : IsLongest (.ident "fnx") ['f', 'n', 'x'] ['=', '0', '0', '7', ' ', '"', 'é'] :=
    (IsSpelling.ident (by decide)).isLongest fun c hc => by cases hc; rfl
  have hassign : IsLongest (.symbol .assign) ['='] ['0', '0', '7', ' ', '"', 'é'] :=
    (IsSpelling.symbol .assign).isLongest fun c hc => by cases hc; rfl
  have hnumeral : IsLongest (.int 7) ['0', '0', '7'] [' ', '"', 'é'] :=
    (@IsSpelling.int ['0', '0', '7'] (by decide) (List.all_eq_true.1 rfl) (by decide)).isLongest
      fun c hc => by cases hc; rfl
  have hopen : IsLongest (.illegal "\"é") ['"', 'é'] [] :=
    (IsSpelling.unclosed (by decide)).isLongest (TokenKind.endsBefore_nil _)
  have hread : Tokenizes [] "fnx=007 \"é".toList _ :=
    .token hname <| .token hassign <| .token hnumeral <| .blank rfl <| .token hopen .nil
  rw [hlex, ← (hunique _).1 hread]
  rfl

end Monkey
