import Monkey.Token.Lexer

/-!
# The tokens of a text

What tokens a text has does not depend on where it starts, and is found from left to right: a word,
a numeral, a string or a symbol at its beginning is the first token, and the others are those of the
text after it, provided that this text does not go on with the word, the numeral or the symbol.

## Main definitions

* `kindsOf` — the tokens of a text without their spans.
* `Boundary` — a text that goes on with no word, numeral or symbol.
* `isName` — the texts of names.

## Main results

* `kindsOf_keyword`, `kindsOf_name`, `kindsOf_numeral`, `kindsOf_string`, `kindsOf_symbol` — **the
  first token of a text.**
-/

namespace Monkey

/-- The kinds of the tokens of a text, the end token included. -/
def kindsOf (cs : List Char) : List TokenKind := (tokensFrom 0 cs).map Token.kind

/-- The kinds do not depend on where the text starts. -/
theorem map_kind_tokensFrom : ∀ (cs : List Char) (offset other : Nat),
    (tokensFrom offset cs).map Token.kind = (tokensFrom other cs).map Token.kind
  | [], offset, other => by simp
  | c :: cs, offset, other => by
    cases hc : isBlank c with
    | true =>
      rw [tokensFrom_blank offset cs hc, tokensFrom_blank other cs hc]
      exact map_kind_tokensFrom cs _ _
    | false =>
      rw [tokensFrom_lexeme offset cs hc, tokensFrom_lexeme other cs hc, List.map_cons,
        List.map_cons, map_kind_tokensFrom (firstLexeme c cs).rest]
  termination_by cs => cs.length
  decreasing_by
    all_goals
      have hrest := length_firstLexeme_rest c cs
      simp only [List.length_cons]
      omega

@[simp] theorem kindsOf_nil : kindsOf [] = [.eof] := by
  rw [kindsOf, tokensFrom_nil]
  rfl

theorem map_kind_lex (source : String) : (lex source).map Token.kind = kindsOf source.toList := rfl

theorem kindsOf_of_blank {c : Char} (h : isBlank c = true) (cs : List Char) :
    kindsOf (c :: cs) = kindsOf cs := by
  rw [kindsOf, tokensFrom_blank 0 cs h]
  exact map_kind_tokensFrom cs _ _

@[simp] theorem kindsOf_space (cs : List Char) : kindsOf (' ' :: cs) = kindsOf cs :=
  kindsOf_of_blank rfl cs

theorem kindsOf_lexeme {c : Char} (h : isBlank c = false) (cs : List Char) :
    kindsOf (c :: cs) = (firstLexeme c cs).kind :: kindsOf (firstLexeme c cs).rest := by
  rw [kindsOf, tokensFrom_lexeme 0 cs h, List.map_cons, kindsOf]
  exact congrArg _ (map_kind_tokensFrom (firstLexeme c cs).rest _ _)

/-! ### Words and numerals -/

/-- A text that does not go on with a word, a numeral or a symbol before it. -/
def Boundary (more : List Char) : Prop := ∀ c ∈ more.head?, isNameChar c = false ∧ c ≠ '='

theorem boundary_nil : Boundary [] := by
  intro c hc
  cases hc

theorem boundary_cons {c : Char} (h : isNameChar c = false) (hc : c ≠ '=') (cs : List Char) :
    Boundary (c :: cs) := by
  intro d hd
  cases hd
  exact ⟨h, hc⟩

/-- The characters of one kind at the beginning of a text end where others begin. -/
theorem takeWhile_dropWhile_append {p : Char → Bool} {cs more : List Char}
    (hcs : ∀ c ∈ cs, p c = true) (hmore : ∀ c ∈ more.head?, p c = false) :
    (cs ++ more).takeWhile p = cs ∧ (cs ++ more).dropWhile p = more := by
  rw [List.takeWhile_append_of_pos hcs, List.dropWhile_append_of_pos hcs]
  cases more with
  | nil => simp
  | cons d more =>
    have hd : p d = false := hmore d rfl
    simp [hd]

/-- No blank is a character of a kind that holds none of the five blanks. -/
theorem isBlank_eq_false {p : Char → Bool} {c : Char}
    (hp : [' ', '\t', '\r', '\n', '\x0c'].any p = false) (h : p c = true) : isBlank c = false := by
  cases hblank : isBlank c with
  | false => rfl
  | true =>
    simp only [isBlank, Bool.or_eq_true, decide_eq_true_eq] at hblank
    rw [List.any_eq_false] at hp
    rcases hblank with (((rfl | rfl) | rfl) | rfl) | rfl <;> exact absurd h (hp _ (by simp))

theorem isBlank_of_isNameStart {c : Char} (h : isNameStart c = true) : isBlank c = false :=
  isBlank_eq_false rfl h

theorem isBlank_of_isDigit {c : Char} (h : c.isDigit = true) : isBlank c = false :=
  isBlank_eq_false rfl h

/-- A word is one token. -/
theorem kindsOf_word {c : Char} {cs more : List Char} (hc : isNameStart c = true)
    (hcs : ∀ d ∈ cs, isNameChar d = true) (hmore : Boundary more) :
    kindsOf (c :: (cs ++ more)) = nameKind (c :: cs) :: kindsOf more := by
  obtain ⟨htake, hdrop⟩ := takeWhile_dropWhile_append hcs fun d hd => (hmore d hd).1
  rw [kindsOf_lexeme (isBlank_of_isNameStart hc), firstLexeme, if_pos hc]
  simp only [htake, hdrop]

theorem kindsOf_keyword (word : Keyword) {more : List Char} (hmore : Boundary more) :
    kindsOf (word.text.toList ++ more) = .keyword word :: kindsOf more := by
  have hkind : nameKind word.text.toList = .keyword word := by
    rw [nameKind, String.ofList_toList, Keyword.ofText?_text]
  have hword : ∃ c cs, word.text.toList = c :: cs ∧ isNameStart c = true ∧
      cs.all isNameChar = true := by
    cases word <;> exact ⟨_, _, rfl, rfl, rfl⟩
  obtain ⟨c, cs, htext, hc, hcs⟩ := hword
  rw [htext] at hkind ⊢
  rw [List.cons_append, kindsOf_word hc (List.all_eq_true.1 hcs) hmore, hkind]

/-- Whether a text is the text of a name: letters, digits and underscores without a digit in front,
and no reserved word. -/
def isName (name : String) : Bool :=
  match name.toList with
  | [] => false
  | c :: cs => isNameStart c && cs.all isNameChar && Keyword.ofText? name == none

theorem isName_iff {name : String} : isName name = true ↔ ∃ c cs, name.toList = c :: cs ∧
    isNameStart c = true ∧ (∀ d ∈ cs, isNameChar d = true) ∧ Keyword.ofText? name = none := by
  unfold isName
  cases name.toList with
  | nil => simp
  | cons c cs => simp [and_assoc]

theorem kindsOf_name {name : String} (h : isName name = true) {more : List Char}
    (hmore : Boundary more) :
    kindsOf (name.toList ++ more) = .ident name :: kindsOf more := by
  obtain ⟨c, cs, htext, hc, hcs, hkeyword⟩ := isName_iff.1 h
  have hkind : nameKind name.toList = .ident name := by
    rw [nameKind, String.ofList_toList, hkeyword]
  rw [htext] at hkind ⊢
  rw [List.cons_append, kindsOf_word hc hcs hmore, hkind]

/-- No numeral begins like a name. -/
theorem isNameStart_of_isDigit {c : Char} (h : c.isDigit = true) : isNameStart c = false := by
  obtain ⟨-, hhigh⟩ := Char.isDigit_iff_toNat.1 h
  change c.val.toNat ≤ 57 at hhigh
  have hupper : ¬ 'A'.val ≤ c.val := by
    rw [UInt32.le_iff_toNat_le]
    change ¬65 ≤ c.val.toNat
    omega
  have hlower : ¬ 'a'.val ≤ c.val := by
    rw [UInt32.le_iff_toNat_le]
    change ¬97 ≤ c.val.toNat
    omega
  have hunderscore : c ≠ '_' := by
    rintro rfl
    cases h
  change (decide ('A'.val ≤ c.val ∧ c.val ≤ 'Z'.val) ||
    decide ('a'.val ≤ c.val) && decide (c.val ≤ 'z'.val) || decide (c = '_')) = false
  rw [decide_eq_false fun h => hupper h.1, decide_eq_false hlower, decide_eq_false hunderscore]
  rfl

/-- A numeral is one token, which stands for the number that it is the decimal numeral of. -/
theorem kindsOf_numeral {n : Nat} (hn : n < Int64.size / 2) {more : List Char}
    (hmore : Boundary more) :
    kindsOf (Nat.toDigits 10 n ++ more) = .int (Int64.ofNat n) :: kindsOf more := by
  have hdigits : ∀ d ∈ Nat.toDigits 10 n, d.isDigit = true :=
    fun d hd => Nat.isDigit_of_mem_toDigits (by decide) (by decide) hd
  have hvalue : decimalValue (Nat.toDigits 10 n) = n := Nat.ofDigitChars_ten_toDigits
  cases htext : Nat.toDigits 10 n with
  | nil => exact absurd htext Nat.toDigits_ne_nil
  | cons c cs =>
    rw [htext] at hdigits hvalue
    rw [List.forall_mem_cons] at hdigits
    -- the numeral ends where its text ends
    have hends : ∀ d ∈ more.head?, d.isDigit = false := by
      intro d hd
      have hname := (hmore d hd).1
      rw [isNameChar, Bool.or_eq_false_iff] at hname
      exact hname.2
    obtain ⟨htake, hdrop⟩ := takeWhile_dropWhile_append hdigits.2 hends
    rw [List.cons_append, kindsOf_lexeme (isBlank_of_isDigit hdigits.1), firstLexeme,
      if_neg (by simp [isNameStart_of_isDigit hdigits.1]), if_pos hdigits.1]
    simp only [htake, hdrop, numeralKind, hvalue]
    rw [if_pos hn]

/-! ### Strings and symbols -/

/-- A string is one token, which holds the text between its quotes. -/
theorem kindsOf_string {text : String} (h : '"' ∉ text.toList) (more : List Char) :
    kindsOf ('"' :: (text.toList ++ '"' :: more)) = .str text :: kindsOf more := by
  have hchars : ∀ c ∈ text.toList, decide (c ≠ '"') = true := by
    intro c hc
    rw [decide_eq_true_eq]
    rintro rfl
    exact h hc
  obtain ⟨htake, hdrop⟩ := takeWhile_dropWhile_append hchars
    (show ∀ c ∈ ('"' :: more).head?, decide (c ≠ '"') = false by simp)
  rw [kindsOf_lexeme rfl, firstLexeme, if_neg (by decide), if_neg (by decide), if_pos rfl,
    stringLexeme]
  simp only [htake, hdrop, String.ofList_toList]

/-- Whether a longer symbol starts with the given one. -/
def Symbol.extends : Symbol → Bool
  | .assign | .bang => true
  | _ => false

/-- Whether a character starts neither a word nor a numeral nor a string. -/
def startsSign (c : Char) : Bool :=
  !isBlank c && !isNameStart c && !c.isDigit && c ≠ '"'

theorem kindsOf_sign {c : Char} (hc : startsSign c = true) (cs : List Char) :
    kindsOf (c :: cs) = (signLexeme c cs).kind :: kindsOf (signLexeme c cs).rest := by
  simp only [startsSign, Bool.and_eq_true, Bool.not_eq_true', decide_eq_true_eq] at hc
  obtain ⟨⟨⟨hblank, hname⟩, hdigit⟩, hquote⟩ := hc
  rw [kindsOf_lexeme hblank, firstLexeme, if_neg (by simp [hname]), if_neg (by simp [hdigit]),
    if_neg hquote]

/-- A symbol is one token, unless the text after it makes it a longer symbol. -/
theorem kindsOf_symbol (sign : Symbol) {more : List Char}
    (hmore : sign.extends = true → more.head? ≠ some '=') :
    kindsOf (sign.text.toList ++ more) = .symbol sign :: kindsOf more := by
  have hsingle : ∀ c, startsSign c = true → Symbol.ofChar? c = some sign →
      kindsOf (c :: more) = .symbol sign :: kindsOf more := by
    intro c hc hsign
    have hlexeme : signLexeme c more = ⟨.symbol sign, [c], more⟩ := by
      unfold signLexeme
      -- the symbols of two characters begin with `=` and `!`, and both end with `=`
      split
      · cases hsign
        exact absurd rfl (hmore rfl)
      · cases hsign
        exact absurd rfl (hmore rfl)
      · rw [hsign]
    rw [kindsOf_sign hc, hlexeme]
  cases sign with
  | eq | notEq => exact kindsOf_sign rfl _
  | _ => exact hsingle _ rfl rfl

/-- A text whose first token can start an expression does not start with an equality sign. -/
theorem head?_ne_of_kindsOf {cs : List Char} {kind : TokenKind} {rest : List TokenKind}
    (h : kindsOf cs = kind :: rest) (hkind : ∀ sign, sign = .assign ∨ sign = .eq →
      kind ≠ .symbol sign) : cs.head? ≠ some '=' := by
  cases cs with
  | nil => simp
  | cons c cs =>
    intro heq
    cases heq
    rw [kindsOf_sign rfl, List.cons.injEq] at h
    -- such a text begins with an assignment or with an equation, and neither is an operand
    have hlexeme : (signLexeme '=' cs).kind = .symbol .assign ∨
        (signLexeme '=' cs).kind = .symbol .eq := by
      unfold signLexeme
      split
      · exact Or.inr rfl
      · contradiction
      · exact Or.inl rfl
    rcases hlexeme with hlexeme | hlexeme
    · exact hkind .assign (Or.inl rfl) (h.1.symm.trans hlexeme)
    · exact hkind .eq (Or.inr rfl) (h.1.symm.trans hlexeme)

section

variable (more : List Char)

@[simp] theorem kindsOf_lparen : kindsOf ('(' :: more) = .symbol .lparen :: kindsOf more :=
  kindsOf_symbol .lparen fun h => nomatch h

@[simp] theorem kindsOf_rparen : kindsOf (')' :: more) = .symbol .rparen :: kindsOf more :=
  kindsOf_symbol .rparen fun h => nomatch h

@[simp] theorem kindsOf_lbracket : kindsOf ('[' :: more) = .symbol .lbracket :: kindsOf more :=
  kindsOf_symbol .lbracket fun h => nomatch h

@[simp] theorem kindsOf_rbracket : kindsOf (']' :: more) = .symbol .rbracket :: kindsOf more :=
  kindsOf_symbol .rbracket fun h => nomatch h

@[simp] theorem kindsOf_lbrace : kindsOf ('\x7b' :: more) = .symbol .lbrace :: kindsOf more :=
  kindsOf_symbol .lbrace fun h => nomatch h

@[simp] theorem kindsOf_rbrace : kindsOf ('\x7d' :: more) = .symbol .rbrace :: kindsOf more :=
  kindsOf_symbol .rbrace fun h => nomatch h

@[simp] theorem kindsOf_comma : kindsOf (',' :: more) = .symbol .comma :: kindsOf more :=
  kindsOf_symbol .comma fun h => nomatch h

@[simp] theorem kindsOf_colon : kindsOf (':' :: more) = .symbol .colon :: kindsOf more :=
  kindsOf_symbol .colon fun h => nomatch h

@[simp] theorem kindsOf_semicolon : kindsOf (';' :: more) = .symbol .semicolon :: kindsOf more :=
  kindsOf_symbol .semicolon fun h => nomatch h

end

end Monkey
