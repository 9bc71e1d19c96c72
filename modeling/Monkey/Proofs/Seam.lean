import Monkey.Parsing.ParseError
import Monkey.Proofs.Spelling

/-!
# The tokens of two texts, one after the other

Where a text ends with a semicolon, or with blanks after one, no token reaches from it into a text
put after it.  So the tokens of the two together are those of the first, without its end, and those
of the second, with their spans moved on.

## Main definitions

* `Token.move`, `ParseError.move` — the same token or error at another place.
* `Finished` — tokens that end with a semicolon, or none at all.
* `EndsWithSemicolon` — the last token of a source is a semicolon.

## Main results

* `tokensFrom_move` — the tokens of a text do not depend on where it starts, but for their spans.
* `tokensFrom_append` — **no token reaches over a semicolon.**
-/

namespace Monkey

/-- The same token at another place. -/
def Token.move (f : Span → Span) (t : Token) : Token := { t with span := f t.span }

@[simp] theorem Token.kind_move (f : Span → Span) (t : Token) : (t.move f).kind = t.kind := rfl

/-- The same error at another place. -/
def ParseError.move (f : Span → Span) : ParseError → ParseError
  | .unexpectedToken expected found span => .unexpectedToken expected found (f span)
  | .noPrefixRule found span => .noPrefixRule found (f span)
  | .integerTooLarge digits span => .integerTooLarge digits (f span)

theorem ParseError.move_shift (distance : Nat) :
    ParseError.move (Span.shift · distance) = ParseError.shift distance := by
  funext e
  cases e <;> rfl

theorem Token.map_kind_map_move (f : Span → Span) (tokens : List Token) :
    (tokens.map (Token.move f)).map Token.kind = tokens.map Token.kind := by
  rw [List.map_map]
  rfl

/-! ### The same text at another place -/

/-- The tokens of a text that starts further on are the same at other places. -/
theorem tokensFrom_move (f : Span → Span) (offset : Nat) : ∀ (cs : List Char) (start : Nat),
    (∀ a b, a ≤ start + byteLength cs → b ≤ start + byteLength cs →
      f (.ofRange a b) = .ofRange (a + offset) (b + offset)) →
    tokensFrom (start + offset) cs = (tokensFrom start cs).map (Token.move f)
  | [], start, hf => by
    have hspan := hf start start (Nat.le_add_right _ _) (Nat.le_add_right _ _)
    rw [tokensFrom_nil, tokensFrom_nil, List.map_singleton, Token.move, hspan]
  | c :: cs, start, hf => by
    cases hblank : isBlank c with
    | true =>
      rw [byteLength_cons, ← Nat.add_assoc] at hf
      rw [tokensFrom_blank _ _ hblank, tokensFrom_blank _ _ hblank, Nat.add_right_comm]
      exact tokensFrom_move f offset cs _ hf
    | false =>
      -- a token and the rest make up the text, so that both lie where spans are moved
      have hparts := congrArg byteLength (firstLexeme_text_append_rest c cs)
      rw [byteLength_append] at hparts
      rw [← hparts, ← Nat.add_assoc] at hf
      have hspan := hf start (start + byteLength (firstLexeme c cs).text) (by omega) (by omega)
      rw [tokensFrom_lexeme _ _ hblank, tokensFrom_lexeme _ _ hblank, List.map_cons, Token.move,
        hspan, Nat.add_right_comm]
      exact congrArg _ (tokensFrom_move f offset (firstLexeme c cs).rest _ hf)
  termination_by cs => cs.length
  decreasing_by
    all_goals
      have hrest := length_firstLexeme_rest c cs
      simp only [List.length_cons]
      omega

/-- While offsets fit into a span, moving a text on shifts its spans. -/
theorem tokensFrom_shift {offset : Nat} {cs : List Char}
    (hsize : offset + byteLength cs ≤ Span.maxOffset) :
    tokensFrom offset cs = (tokensFrom 0 cs).map (Token.move (Span.shift · offset)) := by
  have hmove := tokensFrom_move (Span.shift · offset) offset cs 0
  rw [Nat.zero_add offset] at hmove
  refine hmove fun a b ha hb => ?_
  rw [Span.ofRange_of_le (by omega) (by omega), Span.ofRange_of_le (by omega) (by omega)]
  rfl

/-- A span moved on, with large offsets clamped. -/
def Span.push (s : Span) (offset : Nat) : Span := .ofRange (s.start + offset) (s.stop + offset)

/-- Offsets that were clamped stay so. -/
theorem Span.push_ofRange (a b offset : Nat) :
    (Span.ofRange a b).push offset = .ofRange (a + offset) (b + offset) := by
  have hclamp : ∀ n, min (min n Span.maxOffset + offset) Span.maxOffset =
      min (n + offset) Span.maxOffset := by
    intro n
    omega
  show Span.mk _ _ = Span.mk _ _
  rw [← hclamp a, ← hclamp b]
  rfl

/-- Whatever its length, a text has the same tokens further on, at other places. -/
theorem tokensFrom_push (offset : Nat) (cs : List Char) :
    tokensFrom offset cs = (tokensFrom 0 cs).map (Token.move (Span.push · offset)) := by
  have hmove := tokensFrom_move (Span.push · offset) offset cs 0
  rw [Nat.zero_add offset] at hmove
  exact hmove fun a b _ _ => Span.push_ofRange a b offset

/-! ### One text after another -/

/-- Tokens that end with a semicolon before the end, or none at all. -/
def Finished (ts : List TokenKind) : Prop :=
  ts = [.eof] ∨ ∃ us, ts = us ++ [.symbol .semicolon, .eof]

/-- The last token of a source is a semicolon. -/
def EndsWithSemicolon (source : String) : Prop :=
  ∃ ts, (lex source).map Token.kind = ts ++ [.symbol .semicolon, .eof]

instance (source : String) : Decidable (EndsWithSemicolon source) :=
  decidable_of_iff ([.symbol .semicolon, .eof] <:+ (lex source).map Token.kind)
    (exists_congr fun _ => eq_comm)

/-- What comes after a token of such a list is such a list, and empty after a semicolon only. -/
theorem Finished.tail {kind : TokenKind} {ts : List TokenKind} (h : Finished (kind :: ts))
    (hne : ts ≠ []) : Finished ts ∧ (ts = [.eof] → kind = .symbol .semicolon) := by
  rcases h with h | ⟨us, h⟩
  · exact absurd (List.cons.inj h).2 hne
  · cases us with
    | nil =>
      cases h
      exact ⟨Or.inl rfl, fun _ => rfl⟩
    | cons first us =>
      cases h
      refine ⟨Or.inr ⟨us, rfl⟩, fun hlast => ?_⟩
      have hlength := congrArg List.length hlast
      simp at hlength

theorem Finished.of_append {us ts : List TokenKind} (h : Finished (us ++ ts)) (hne : ts ≠ []) :
    Finished ts := by
  induction us with
  | nil => exact h
  | cons kind us ih => exact ih (h.tail (List.append_ne_nil_of_right_ne_nil us hne)).1

/-- A text has one end, after all other tokens. -/
theorem exists_kindsOf_eq : ∀ cs : List Char, ∃ ts, kindsOf cs = ts ++ [.eof] ∧ .eof ∉ ts
  | [] => ⟨[], kindsOf_nil, List.not_mem_nil⟩
  | c :: cs => by
    cases hblank : isBlank c with
    | true =>
      rw [kindsOf_of_blank hblank]
      exact exists_kindsOf_eq cs
    | false =>
      -- the lexeme at the front is not the end, and the rest is shorter
      obtain ⟨ts, hts, heof⟩ := exists_kindsOf_eq (firstLexeme c cs).rest
      have hkind := (isSpelling_firstLexeme hblank cs).1.kind_ne_eof
      refine ⟨(firstLexeme c cs).kind :: ts, ?_, ?_⟩
      · rw [kindsOf_lexeme hblank, hts, List.cons_append]
      · rw [List.mem_cons, not_or]
        exact ⟨hkind.symm, heof⟩
  termination_by cs => cs.length
  decreasing_by
    all_goals
      have hrest := length_firstLexeme_rest c cs
      simp only [List.length_cons]
      omega

/-- The end of a source comes after its last semicolon and nowhere before. -/
theorem EndsWithSemicolon.exists_kinds {source : String} (h : EndsWithSemicolon source) :
    ∃ ts, (lex source).map Token.kind = ts ++ [.symbol .semicolon] ++ [.eof] ∧
      .eof ∉ ts ++ [TokenKind.symbol .semicolon] := by
  obtain ⟨ts, hkinds⟩ := h
  rw [List.append_cons] at hkinds
  obtain ⟨us, hus, heof⟩ := exists_kindsOf_eq source.toList
  rw [map_kind_lex, hus] at hkinds
  obtain ⟨rfl, -⟩ := List.append_inj' hkinds rfl
  exact ⟨ts, hus, heof⟩

theorem kindsOf_ne_nil (cs : List Char) : kindsOf cs ≠ [] := by
  obtain ⟨ts, hts, -⟩ := exists_kindsOf_eq cs
  rw [hts]
  exact List.append_ne_nil_of_right_ne_nil ts (List.cons_ne_nil _ _)

/-- The first lexeme of a text stays what it is if the text goes on, unless it reaches up to the end
of the text and what follows goes on with it. -/
theorem firstLexeme_append {c : Char} {cs bs : List Char} (hblank : isBlank c = false)
    (hends : (firstLexeme c cs).rest = [] → (firstLexeme c cs).kind.EndsBefore bs) :
    firstLexeme c (cs ++ bs) =
      ⟨(firstLexeme c cs).kind, (firstLexeme c cs).text, (firstLexeme c cs).rest ++ bs⟩ := by
  obtain ⟨hspells, hrest⟩ := isSpelling_firstLexeme hblank cs
  have hnext : (firstLexeme c cs).kind.EndsBefore ((firstLexeme c cs).rest ++ bs) := by
    cases hcs : (firstLexeme c cs).rest with
    | nil => exact hends hcs
    | cons d ds =>
      rw [hcs] at hrest
      exact hrest
  obtain ⟨d, ds, htext, -, hlexeme⟩ := hspells.firstLexeme_eq hnext
  have hwhole := firstLexeme_text_append_rest c cs
  rw [htext, List.cons_append] at hwhole
  obtain ⟨rfl, hcs⟩ := List.cons.inj hwhole
  rw [← List.append_assoc, hcs] at hlexeme
  exact hlexeme

/-- **No token reaches over a semicolon.** -/
theorem tokensFrom_append : ∀ (cs bs : List Char) (start : Nat), Finished (kindsOf cs) →
    tokensFrom start (cs ++ bs) =
      (tokensFrom start cs).dropLast ++ tokensFrom (start + byteLength cs) bs
  | [], bs, start, _ => by
    rw [tokensFrom_nil]
    rfl
  | c :: cs, bs, start, hfinished => by
    cases hblank : isBlank c with
    | true =>
      rw [kindsOf_of_blank hblank] at hfinished
      rw [List.cons_append, tokensFrom_blank _ _ hblank, tokensFrom_blank _ _ hblank,
        tokensFrom_append cs bs _ hfinished, byteLength_cons, Nat.add_assoc]
    | false =>
      rw [kindsOf_lexeme hblank] at hfinished
      obtain ⟨hrest, hlast⟩ := hfinished.tail (kindsOf_ne_nil _)
      have hends : (firstLexeme c cs).rest = [] → (firstLexeme c cs).kind.EndsBefore bs := by
        -- the last lexeme of the text is the semicolon, with which nothing goes on
        intro hnil
        rw [hlast (by rw [hnil, kindsOf_nil])]
        exact fun d _ => rfl
      have hlexeme := firstLexeme_append hblank hends
      have hparts := congrArg byteLength (firstLexeme_text_append_rest c cs)
      rw [byteLength_append] at hparts
      have hne : tokensFrom (start + byteLength (firstLexeme c cs).text) (firstLexeme c cs).rest ≠
          [] := by
        intro hnil
        refine kindsOf_ne_nil (firstLexeme c cs).rest ?_
        rw [kindsOf, map_kind_tokensFrom _ _ (start + byteLength (firstLexeme c cs).text), hnil]
        rfl
      rw [List.cons_append, tokensFrom_lexeme _ _ hblank, tokensFrom_lexeme _ _ hblank, hlexeme,
        List.dropLast_cons_of_ne_nil hne, List.cons_append,
        tokensFrom_append (firstLexeme c cs).rest bs _ hrest, ← hparts, Nat.add_assoc]
  termination_by cs => cs.length
  decreasing_by
    all_goals
      have hrest := length_firstLexeme_rest c cs
      simp only [List.length_cons]
      omega

end Monkey
