import Mathlib.Data.List.TakeWhile
import Monkey.Proofs.Lexing

/-!
# What spells a token

A token is spelled by a text that stands on its own: by a reserved word, by a name, by digits, by a
quoted text, by a symbol, by a quote that nothing closes or by a stray character.  No text spells
two tokens, although many texts begin with others that spell a token as well.  Lexing takes the
longest beginning that spells one.

Whether a longer one exists can be seen from one character: the one after a token goes on with it or
does not.

## Main definitions

* `IsSpelling` — the texts of the tokens.
* `TokenKind.goesOn` — whether a character after a token would have become part of it.
* `IsLongest` — a token is spelled by the longest beginning of a text that spells any.

## Main results

* `IsSpelling.kind_unique` — **a text spells one token at most.**
* `IsSpelling.firstLexeme_eq` — a text that spells a token is the first lexeme of whatever it stands
  in front of, provided that this does not go on with the token.
* `IsSpelling.replicate_append` — a numeral may have any number of zeros in front.
* `isLongest_firstLexeme` — **the first lexeme of a text is the longest.**
-/

namespace Monkey

/-- The texts of the tokens. -/
inductive IsSpelling : TokenKind → List Char → Prop
  | keyword (word : Keyword) : IsSpelling (.keyword word) word.text.toList
  | ident {name : String} : isName name = true → IsSpelling (.ident name) name.toList
  /-- The number is less than 2⁶³. -/
  | int {digits : List Char} : digits ≠ [] → (∀ d ∈ digits, d.isDigit = true) →
    Nat.ofDigitChars 10 digits 0 < Int64.size / 2 →
    IsSpelling (.int (Int64.ofNat (Nat.ofDigitChars 10 digits 0))) digits
  /-- The number is too large. -/
  | bigInt {digits : List Char} : digits ≠ [] → (∀ d ∈ digits, d.isDigit = true) →
    Int64.size / 2 ≤ Nat.ofDigitChars 10 digits 0 →
    IsSpelling (.bigInt (String.ofList digits)) digits
  | str {content : List Char} : '"' ∉ content →
    IsSpelling (.str (String.ofList content)) ('"' :: (content ++ ['"']))
  | symbol (sign : Symbol) : IsSpelling (.symbol sign) sign.text.toList
  /-- Nothing closes the string. -/
  | unclosed {content : List Char} : '"' ∉ content →
    IsSpelling (.illegal (String.ofList ('"' :: content))) ('"' :: content)
  /-- Nothing else begins with the character. -/
  | stray {c : Char} : startsSign c = true → (∀ sign : Symbol, sign.text.toList ≠ [c]) →
    IsSpelling (.illegal (String.ofList [c])) [c]

/-- Whether a character right after a token would have become part of it. -/
def TokenKind.goesOn : TokenKind → Char → Bool
  | .keyword _, c | .ident _, c => isNameChar c
  | .int _, c | .bigInt _, c => c.isDigit
  | .symbol sign, c => sign.extends && c = '='
  -- a string that nothing closed has no end
  | .illegal text, _ => text.toList.head? = some '"'
  | _, _ => false

/-- A text without a character that goes on with a token. -/
def TokenKind.EndsBefore (kind : TokenKind) (more : List Char) : Prop :=
  ∀ c ∈ more.head?, kind.goesOn c = false

theorem TokenKind.endsBefore_nil (kind : TokenKind) : kind.EndsBefore [] := by
  intro c hc
  cases hc

/-! ### The first lexeme -/

section

variable {c : Char} {cs content more : List Char}

/-- The character after the longest beginning of a kind is of another kind. -/
theorem eq_false_of_mem_head?_dropWhile {p : Char → Bool} (h : c ∈ (cs.dropWhile p).head?) :
    p c = false := by
  have hnot := List.head?_dropWhile_not p cs
  rw [Option.mem_def.1 h] at hnot
  exact hnot

theorem firstLexeme_word (hc : isNameStart c = true) (hcs : ∀ d ∈ cs, isNameChar d = true)
    (hmore : ∀ d ∈ more.head?, isNameChar d = false) :
    firstLexeme c (cs ++ more) = ⟨nameKind (c :: cs), c :: cs, more⟩ := by
  obtain ⟨htake, hdrop⟩ := takeWhile_dropWhile_append hcs hmore
  rw [firstLexeme, if_pos hc]
  simp only [htake, hdrop]

theorem firstLexeme_numeral (hc : c.isDigit = true) (hcs : ∀ d ∈ cs, d.isDigit = true)
    (hmore : ∀ d ∈ more.head?, d.isDigit = false) :
    firstLexeme c (cs ++ more) = ⟨numeralKind (c :: cs), c :: cs, more⟩ := by
  obtain ⟨htake, hdrop⟩ := takeWhile_dropWhile_append hcs hmore
  rw [firstLexeme, if_neg (by simp [isNameStart_of_isDigit hc]), if_pos hc]
  simp only [htake, hdrop]

theorem firstLexeme_quote (cs : List Char) : firstLexeme '"' cs = stringLexeme cs := by
  rw [firstLexeme, if_neg (by decide), if_neg (by decide), if_pos rfl]

/-- The characters up to a quote. -/
theorem takeWhile_dropWhile_quote (h : '"' ∉ content) (hmore : ∀ d ∈ more.head?, d = '"') :
    (content ++ more).takeWhile (· ≠ '"') = content ∧
      (content ++ more).dropWhile (· ≠ '"') = more := by
  apply takeWhile_dropWhile_append
  · intro d hd
    rw [decide_eq_true_eq]
    rintro rfl
    exact h hd
  · intro d hd
    rw [hmore d hd]
    rfl

theorem firstLexeme_str (h : '"' ∉ content) (more : List Char) :
    firstLexeme '"' (content ++ '"' :: more) =
      ⟨.str (String.ofList content), '"' :: (content ++ ['"']), more⟩ := by
  have hquote : ∀ d ∈ ('"' :: more).head?, d = '"' := fun d hd => (Option.some.inj hd).symm
  obtain ⟨htake, hdrop⟩ := takeWhile_dropWhile_quote h hquote
  rw [firstLexeme_quote, stringLexeme]
  simp only [htake, hdrop, List.cons_append]

theorem firstLexeme_unclosed (h : '"' ∉ content) :
    firstLexeme '"' content =
      ⟨.illegal (String.ofList ('"' :: content)), '"' :: content, []⟩ := by
  have hnone : ∀ d ∈ ([] : List Char).head?, d = '"' := nofun
  obtain ⟨htake, hdrop⟩ := takeWhile_dropWhile_quote h hnone
  rw [List.append_nil] at htake hdrop
  rw [firstLexeme_quote, stringLexeme]
  simp only [htake, hdrop]

theorem firstLexeme_sign (h : startsSign c = true) (cs : List Char) :
    firstLexeme c cs = signLexeme c cs := by
  simp only [startsSign, Bool.and_eq_true, Bool.not_eq_true', decide_eq_true_eq] at h
  obtain ⟨⟨⟨-, hname⟩, hdigit⟩, hquote⟩ := h
  rw [firstLexeme, if_neg (by simp [hname]), if_neg (by simp [hdigit]), if_neg hquote]

/-- A character that is no blank begins a name, a numeral, a string or a sign. -/
theorem startsSign_of (hblank : isBlank c = false) (hname : isNameStart c = false)
    (hdigit : c.isDigit = false) (hquote : c ≠ '"') : startsSign c = true := by
  rw [startsSign, hblank, hname, hdigit, decide_eq_true hquote]
  rfl

/-- A symbol of one character is found by it. -/
theorem Symbol.ofChar?_eq_some_iff {sign : Symbol} :
    Symbol.ofChar? c = some sign ↔ sign.text.toList = [c] := by
  constructor
  · intro h
    unfold Symbol.ofChar? at h
    split at h <;> cases h <;> rfl
  · intro h
    cases sign with
    | eq | notEq => cases h
    | _ => cases h; rfl

theorem signLexeme_of_ne (cs : List Char) (h : (c = '=' ∨ c = '!') → cs.head? ≠ some '=') :
    signLexeme c cs = match Symbol.ofChar? c with
      | some sign => ⟨.symbol sign, [c], cs⟩
      | none => ⟨.illegal (String.ofList [c]), [c], cs⟩ := by
  unfold signLexeme
  split
  · exact absurd rfl (h (Or.inl rfl))
  · exact absurd rfl (h (Or.inr rfl))
  · rfl

/-! ### A text that spells a token is its first lexeme -/

theorem nameKind_text (word : Keyword) : nameKind word.text.toList = .keyword word := by
  rw [nameKind, String.ofList_toList, Keyword.ofText?_text]

theorem Keyword.exists_text (word : Keyword) : ∃ c cs, word.text.toList = c :: cs ∧
    isNameStart c = true ∧ ∀ d ∈ cs, isNameChar d = true := by
  have hword : ∃ c cs, word.text.toList = c :: cs ∧ isNameStart c = true ∧
      cs.all isNameChar = true := by
    cases word <;> exact ⟨_, _, rfl, rfl, rfl⟩
  obtain ⟨c, cs, htext, hc, hcs⟩ := hword
  exact ⟨c, cs, htext, hc, List.all_eq_true.1 hcs⟩

theorem numeralKind_of_lt (h : Nat.ofDigitChars 10 cs 0 < Int64.size / 2) :
    numeralKind cs = .int (Int64.ofNat (Nat.ofDigitChars 10 cs 0)) := if_pos h

theorem numeralKind_of_le (h : Int64.size / 2 ≤ Nat.ofDigitChars 10 cs 0) :
    numeralKind cs = .bigInt (String.ofList cs) := if_neg (Nat.not_lt.2 h)

theorem firstLexeme_symbol (sign : Symbol) (hmore : (TokenKind.symbol sign).EndsBefore more) :
    ∃ c cs, sign.text.toList = c :: cs ∧ isBlank c = false ∧
      firstLexeme c (cs ++ more) = ⟨.symbol sign, c :: cs, more⟩ := by
  have hsingle : ∀ c, startsSign c = true → isBlank c = false → sign.text.toList = [c] →
      ((c = '=' ∨ c = '!') → sign.extends = true) →
      ∃ d cs, sign.text.toList = d :: cs ∧ isBlank d = false ∧
        firstLexeme d (cs ++ more) = ⟨.symbol sign, d :: cs, more⟩ := by
    intro c hstarts hblank htext hextends
    refine ⟨c, [], htext, hblank, ?_⟩
    -- a sign that could go on with `=` is not followed by it
    have hnext : (c = '=' ∨ c = '!') → more.head? ≠ some '=' := by
      intro hc hhead
      have hends := hmore '=' hhead
      rw [TokenKind.goesOn, hextends hc] at hends
      cases hends
    rw [List.nil_append, firstLexeme_sign hstarts, signLexeme_of_ne more hnext,
      Symbol.ofChar?_eq_some_iff.2 htext]
  cases sign with
  | eq => exact ⟨'=', ['='], rfl, rfl, firstLexeme_sign rfl _⟩
  | notEq => exact ⟨'!', ['='], rfl, rfl, firstLexeme_sign rfl _⟩
  | assign | bang => exact hsingle _ rfl rfl rfl fun _ => rfl
  | _ => exact hsingle _ rfl rfl rfl (by decide)

/-- **A text that spells a token is the first lexeme** of itself and of every longer text that does
not go on with the token. -/
theorem IsSpelling.firstLexeme_eq {kind : TokenKind} {text : List Char} (h : IsSpelling kind text)
    (hmore : kind.EndsBefore more) :
    ∃ c cs, text = c :: cs ∧ isBlank c = false ∧
      firstLexeme c (cs ++ more) = ⟨kind, text, more⟩ := by
  cases h with
  -- the first character decides how the lexeme goes on: words, numerals, strings, and then signs;
  -- words are told apart once they are read
  | keyword word =>
    obtain ⟨c, cs, htext, hc, hcs⟩ := word.exists_text
    have hlexeme := firstLexeme_word hc hcs hmore
    rw [← htext, nameKind_text] at hlexeme
    exact ⟨c, cs, htext, isBlank_of_isNameStart hc, hlexeme⟩
  | @ident name hname =>
    obtain ⟨c, cs, htext, hc, hcs, hkeyword⟩ := isName_iff.1 hname
    have hkind : nameKind name.toList = .ident name := by
      rw [nameKind, String.ofList_toList, hkeyword]
    have hlexeme := firstLexeme_word hc hcs hmore
    rw [← htext, hkind] at hlexeme
    exact ⟨c, cs, htext, isBlank_of_isNameStart hc, hlexeme⟩
  -- all digits are taken, and their value decides between the two kinds of numerals
  | int hne hdigits hvalue =>
    obtain ⟨c, cs, rfl⟩ := List.exists_cons_of_ne_nil hne
    rw [List.forall_mem_cons] at hdigits
    have hlexeme := firstLexeme_numeral hdigits.1 hdigits.2 hmore
    rw [numeralKind_of_lt hvalue] at hlexeme
    exact ⟨c, cs, rfl, isBlank_of_isDigit hdigits.1, hlexeme⟩
  | bigInt hne hdigits hvalue =>
    obtain ⟨c, cs, rfl⟩ := List.exists_cons_of_ne_nil hne
    rw [List.forall_mem_cons] at hdigits
    have hlexeme := firstLexeme_numeral hdigits.1 hdigits.2 hmore
    rw [numeralKind_of_le hvalue] at hlexeme
    exact ⟨c, cs, rfl, isBlank_of_isDigit hdigits.1, hlexeme⟩
  | @str content hcontent =>
    refine ⟨'"', content ++ ['"'], rfl, rfl, ?_⟩
    rw [List.append_assoc]
    exact firstLexeme_str hcontent more
  | symbol sign =>
    obtain ⟨c, cs, htext, hblank, hlexeme⟩ := firstLexeme_symbol sign hmore
    exact ⟨c, cs, htext, hblank, by rw [hlexeme, htext]⟩
  | @unclosed content hcontent =>
    -- a string that nothing closes would go on with whatever follows
    have hend : more = [] := by
      cases more with
      | nil => rfl
      | cons d more =>
        have hd := hmore d rfl
        simp [TokenKind.goesOn] at hd
    subst hend
    refine ⟨'"', content, rfl, rfl, ?_⟩
    rw [List.append_nil]
    exact firstLexeme_unclosed hcontent
  | @stray c hc hsign =>
    have hnone : Symbol.ofChar? c = none := by
      cases hfound : Symbol.ofChar? c with
      | none => rfl
      | some sign => exact absurd (Symbol.ofChar?_eq_some_iff.1 hfound) (hsign sign)
    -- `=` and `!` are signs by themselves, so that a stray character makes no sign of two
    have hother : (c = '=' ∨ c = '!') → more.head? ≠ some '=' := by
      rintro (rfl | rfl)
      · exact absurd rfl (hsign .assign)
      · exact absurd rfl (hsign .bang)
    have hblank : isBlank c = false := by
      simp only [startsSign, Bool.and_eq_true, Bool.not_eq_true'] at hc
      exact hc.1.1.1
    refine ⟨c, [], rfl, hblank, ?_⟩
    rw [List.nil_append, firstLexeme_sign hc, signLexeme_of_ne more hother, hnone]

/-- **A text spells one token at most.** -/
theorem IsSpelling.kind_unique {kind kind' : TokenKind} {text : List Char}
    (h : IsSpelling kind text) (h' : IsSpelling kind' text) : kind = kind' := by
  obtain ⟨c, cs, rfl, -, hlexeme⟩ := h.firstLexeme_eq kind.endsBefore_nil
  obtain ⟨d, ds, htext, -, hlexeme'⟩ := h'.firstLexeme_eq kind'.endsBefore_nil
  cases htext
  rw [hlexeme] at hlexeme'
  cases hlexeme'
  rfl

/-- The end of a source is spelled by nothing. -/
theorem IsSpelling.kind_ne_eof {kind : TokenKind} {text : List Char} (h : IsSpelling kind text) :
    kind ≠ .eof := by
  rintro rfl
  cases h

/-- Zeros in front of a numeral leave its value as it is. -/
theorem ofDigitChars_replicate_append (n : Nat) (digits : List Char) :
    Nat.ofDigitChars 10 (List.replicate n '0' ++ digits) 0 = Nat.ofDigitChars 10 digits 0 := by
  induction n with
  | zero => rfl
  | succ n ih => exact ih

/-- A numeral may have any number of zeros in front. -/
theorem IsSpelling.replicate_append {value : Int64} {digits : List Char}
    (h : IsSpelling (.int value) digits) (n : Nat) :
    IsSpelling (.int value) (List.replicate n '0' ++ digits) := by
  generalize hkind : TokenKind.int value = kind at h
  cases h with
  | int hne hdigits hvalue =>
    rw [← ofDigitChars_replicate_append n digits] at hvalue ⊢
    refine .int (List.append_ne_nil_of_right_ne_nil _ hne) ?_ hvalue
    intro d hd
    rcases List.mem_append.1 hd with hzero | hd
    · rw [List.eq_of_mem_replicate hzero]
      rfl
    · exact hdigits d hd
  | _ => cases hkind

/-! ### The first lexeme spells a token, and nothing after it goes on with it -/

theorem nameKind_of_some {word : Keyword} (h : Keyword.ofText? (String.ofList cs) = some word) :
    nameKind cs = .keyword word := by
  rw [nameKind, h]

theorem nameKind_of_none (h : Keyword.ofText? (String.ofList cs) = none) :
    nameKind cs = .ident (String.ofList cs) := by
  rw [nameKind, h]

theorem isSpelling_nameKind (hc : isNameStart c = true) (hcs : ∀ d ∈ cs, isNameChar d = true) :
    IsSpelling (nameKind (c :: cs)) (c :: cs) := by
  cases hword : Keyword.ofText? (String.ofList (c :: cs)) with
  | some word =>
    have htext := congrArg String.toList (Keyword.text_eq_of_ofText? hword)
    rw [String.toList_ofList] at htext
    rw [nameKind_of_some hword, ← htext]
    exact .keyword word
  | none =>
    have hname : isName (String.ofList (c :: cs)) = true :=
      isName_iff.2 ⟨c, cs, String.toList_ofList, hc, hcs, hword⟩
    have hspells := IsSpelling.ident hname
    rw [String.toList_ofList] at hspells
    rw [nameKind_of_none hword]
    exact hspells

theorem goesOn_nameKind (text : List Char) (d : Char) :
    (nameKind text).goesOn d = isNameChar d := by
  cases hword : Keyword.ofText? (String.ofList text) with
  | some word => rw [nameKind_of_some hword, TokenKind.goesOn]
  | none => rw [nameKind_of_none hword, TokenKind.goesOn]

theorem isSpelling_numeralKind (hne : cs ≠ []) (hcs : ∀ d ∈ cs, d.isDigit = true) :
    IsSpelling (numeralKind cs) cs := by
  by_cases hvalue : Nat.ofDigitChars 10 cs 0 < Int64.size / 2
  · rw [numeralKind_of_lt hvalue]
    exact .int hne hcs hvalue
  · rw [numeralKind_of_le (Nat.not_lt.1 hvalue)]
    exact .bigInt hne hcs (Nat.not_lt.1 hvalue)

theorem goesOn_numeralKind (digits : List Char) (d : Char) :
    (numeralKind digits).goesOn d = d.isDigit := by
  by_cases hvalue : Nat.ofDigitChars 10 digits 0 < Int64.size / 2
  · rw [numeralKind_of_lt hvalue]
    rfl
  · rw [numeralKind_of_le (Nat.not_lt.1 hvalue)]
    rfl

/-- A text is free of quotes, or has a first one. -/
theorem quote_cases (cs : List Char) :
    '"' ∉ cs ∨ ∃ content rest, cs = content ++ '"' :: rest ∧ '"' ∉ content := by
  by_cases h : '"' ∈ cs
  · obtain ⟨content, rest, hcs, hcontent⟩ := List.eq_append_cons_of_mem h
    exact Or.inr ⟨content, rest, hcs, hcontent⟩
  · exact Or.inl h

theorem isSpelling_signLexeme (hc : startsSign c = true) (cs : List Char) :
    IsSpelling (signLexeme c cs).kind (signLexeme c cs).text ∧
      (signLexeme c cs).kind.EndsBefore (signLexeme c cs).rest := by
  by_cases hnext : (c = '=' ∨ c = '!') ∧ cs.head? = some '='
  · obtain ⟨hc, hhead⟩ := hnext
    obtain ⟨rest, rfl⟩ := List.head?_eq_some_iff.1 hhead
    rcases hc with rfl | rfl
    -- signs of two characters go on with nothing
    · exact ⟨.symbol .eq, fun d _ => rfl⟩
    · exact ⟨.symbol .notEq, fun d _ => rfl⟩
  · have hne : (c = '=' ∨ c = '!') → cs.head? ≠ some '=' := fun hc hhead => hnext ⟨hc, hhead⟩
    rw [signLexeme_of_ne cs hne]
    cases hsign : Symbol.ofChar? c with
    | some sign =>
      have htext := Symbol.ofChar?_eq_some_iff.1 hsign
      have hspells := IsSpelling.symbol sign
      rw [htext] at hspells
      refine ⟨hspells, ?_⟩
      intro d hd
      show (sign.extends && decide (d = '=')) = false
      rw [Bool.and_eq_false_imp]
      intro hextends
      rw [decide_eq_false_iff_not]
      rintro rfl
      -- only these two could go on, and they do not, as no `=` follows
      cases sign with
      | assign => exact hne (Or.inl (List.cons.inj htext).1.symm) hd
      | bang => exact hne (Or.inr (List.cons.inj htext).1.symm) hd
      | _ => cases hextends
    | none =>
      have hstray : ∀ sign : Symbol, sign.text.toList ≠ [c] := by
        intro sign htext
        rw [Symbol.ofChar?_eq_some_iff.2 htext] at hsign
        cases hsign
      refine ⟨.stray hc hstray, ?_⟩
      intro d _
      have hquote : c ≠ '"' := by
        rintro rfl
        cases hc
      simp [TokenKind.goesOn, hquote]

theorem isSpelling_firstLexeme (hblank : isBlank c = false) (cs : List Char) :
    IsSpelling (firstLexeme c cs).kind (firstLexeme c cs).text ∧
      (firstLexeme c cs).kind.EndsBefore (firstLexeme c cs).rest := by
  by_cases hname : isNameStart c = true
  · rw [firstLexeme, if_pos hname]
    refine ⟨isSpelling_nameKind hname fun d hd => List.mem_takeWhile_imp hd, ?_⟩
    intro d hd
    rw [goesOn_nameKind]
    exact eq_false_of_mem_head?_dropWhile hd
  by_cases hdigit : c.isDigit = true
  · rw [firstLexeme, if_neg hname, if_pos hdigit]
    have hdigits : ∀ d ∈ c :: cs.takeWhile Char.isDigit, d.isDigit = true :=
      List.forall_mem_cons.2 ⟨hdigit, fun d hd => List.mem_takeWhile_imp hd⟩
    refine ⟨isSpelling_numeralKind (List.cons_ne_nil _ _) hdigits, ?_⟩
    intro d hd
    rw [goesOn_numeralKind]
    exact eq_false_of_mem_head?_dropWhile hd
  by_cases hquote : c = '"'
  · subst hquote
    -- the string is closed by the next quote, or goes on to the end
    rcases quote_cases cs with hcs | ⟨content, rest, rfl, hcontent⟩
    · rw [firstLexeme_unclosed hcs]
      exact ⟨.unclosed hcs, TokenKind.endsBefore_nil _⟩
    · rw [firstLexeme_str hcontent]
      exact ⟨.str hcontent, fun d _ => rfl⟩
  · have hsign :=
      startsSign_of hblank (Bool.eq_false_iff.2 hname) (Bool.eq_false_iff.2 hdigit) hquote
    rw [firstLexeme_sign hsign]
    exact isSpelling_signLexeme hsign cs

end

/-! ### The longest token -/

/-- A token is spelled by the longest beginning of a text that spells one. -/
structure IsLongest (kind : TokenKind) (text rest : List Char) : Prop where
  isSpelling : IsSpelling kind text
  length_le : ∀ {kind' : TokenKind} {text' rest' : List Char}, text' ++ rest' = text ++ rest →
    IsSpelling kind' text' → text'.length ≤ text.length

section

variable {kind : TokenKind} {text rest : List Char} {c : Char} {cs : List Char}

/-- Nothing that begins with the text of a token and goes on with none of its characters spells a
token. -/
theorem IsSpelling.not_isSpelling_append (h : IsSpelling kind text) (hrest : kind.EndsBefore rest)
    (hne : rest ≠ []) (kind' : TokenKind) : ¬ IsSpelling kind' (text ++ rest) := by
  intro h'
  obtain ⟨c, cs, rfl, -, hlexeme⟩ := h.firstLexeme_eq hrest
  obtain ⟨d, ds, htext, -, hwhole⟩ := h'.firstLexeme_eq kind'.endsBefore_nil
  rw [List.cons_append] at htext
  obtain ⟨rfl, rfl⟩ := List.cons.inj htext
  rw [List.append_nil, hlexeme] at hwhole
  exact hne (congrArg Lexeme.rest hwhole)

theorem TokenKind.EndsBefore.of_append {more : List Char} (h : kind.EndsBefore (more ++ rest))
    (hne : more ≠ []) : kind.EndsBefore more := by
  obtain ⟨d, more, rfl⟩ := List.exists_cons_of_ne_nil hne
  exact h

/-- A token that the next character does not go on with is the longest. -/
theorem IsSpelling.isLongest (h : IsSpelling kind text) (hrest : kind.EndsBefore rest) :
    IsLongest kind text rest := by
  refine ⟨h, ?_⟩
  intro kind' text' rest' htext h'
  rcases List.append_eq_append_iff.1 htext with ⟨more, rfl, -⟩ | ⟨more, rfl, rfl⟩
  · rw [List.length_append]
    omega
  · by_cases hne : more = []
    · rw [hne, List.append_nil]
    · exact absurd h' (h.not_isSpelling_append (hrest.of_append hne) hne kind')

/-- **The first lexeme of a text is the longest.** -/
theorem isLongest_firstLexeme (hblank : isBlank c = false) (cs : List Char) :
    IsLongest (firstLexeme c cs).kind (firstLexeme c cs).text (firstLexeme c cs).rest := by
  obtain ⟨hspells, hrest⟩ := isSpelling_firstLexeme hblank cs
  exact hspells.isLongest hrest

end

end Monkey
