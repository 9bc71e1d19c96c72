import Monkey.Token

/-!
# Lexing

A source text is cut into lexemes from left to right.  Each lexeme is the longest one that can
start where it starts, blanks between lexemes are dropped, and one end token closes the list.

Nothing is lost: the characters of a lexeme followed by the rest of the text are the text
(`firstLexeme_text_append_rest`).

## Main definitions

* `Lexeme`, `firstLexeme` — the first lexeme of a text and what follows it.
* `tokensFrom` — the tokens of a text that starts at a given byte offset.
* `lex` — the tokens of a source.
-/

namespace Monkey

/-- The characters that separate lexemes: blank, tab, carriage return, line feed, form feed. -/
def isBlank (c : Char) : Bool :=
  c = ' ' || c = '\t' || c = '\r' || c = '\n' || c = '\x0c'

/-- The characters that a name can start with. -/
def isNameStart (c : Char) : Bool := c.isAlpha || c = '_'

/-- The characters that a name can go on with. -/
def isNameChar (c : Char) : Bool := isNameStart c || c.isDigit

/-- The length in bytes of a text in UTF-8. -/
def byteLength (cs : List Char) : Nat := cs.foldr (fun c n => c.utf8Size + n) 0

/-- The value of a numeral. -/
def decimalValue (digits : List Char) : Nat :=
  digits.foldl (fun n d => 10 * n + (d.toNat - '0'.toNat)) 0

/-- A name is a reserved word if it spells one, and else an identifier. -/
def nameKind (text : List Char) : TokenKind :=
  let name := String.ofList text
  match Keyword.ofText? name with
  | some word => .keyword word
  | none => .ident name

/-- A numeral stands for its value where that fits in sixty-four signed bits. -/
def numeralKind (digits : List Char) : TokenKind :=
  let value := decimalValue digits
  if value < Int64.size / 2 then .int (Int64.ofNat value) else .bigInt (String.ofList digits)

/-- The beginning of a text, seen as one token. -/
structure Lexeme where
  kind : TokenKind
  /-- The characters that make up the token. -/
  text : List Char
  /-- The characters after it. -/
  rest : List Char

/-- The lexeme that a string literal makes, given the text after its opening quote.  Without a
closing quote the whole text is illegal. -/
def stringLexeme (cs : List Char) : Lexeme :=
  let content := cs.takeWhile (· ≠ '"')
  match cs.dropWhile (· ≠ '"') with
  | [] => ⟨.illegal (String.ofList ('"' :: content)), '"' :: content, []⟩
  | quote :: rest => ⟨.str (String.ofList content), '"' :: content ++ [quote], rest⟩

/-- The lexeme of a text that starts with no name, numeral or quote: a symbol, of two characters
where possible, or else one illegal character. -/
def signLexeme : Char → List Char → Lexeme
  | '=', '=' :: rest => ⟨.symbol .eq, ['=', '='], rest⟩
  | '!', '=' :: rest => ⟨.symbol .notEq, ['!', '='], rest⟩
  | c, rest =>
    match Symbol.ofChar? c with
    | some sign => ⟨.symbol sign, [c], rest⟩
    | none => ⟨.illegal (String.ofList [c]), [c], rest⟩

/-- The longest lexeme that a text starting with `c`, no blank, can begin with. -/
def firstLexeme (c : Char) (cs : List Char) : Lexeme :=
  if isNameStart c then
    let text := c :: cs.takeWhile isNameChar
    ⟨nameKind text, text, cs.dropWhile isNameChar⟩
  else if c.isDigit then
    let text := c :: cs.takeWhile Char.isDigit
    ⟨numeralKind text, text, cs.dropWhile Char.isDigit⟩
  else if c = '"' then stringLexeme cs
  else signLexeme c cs

theorem stringLexeme_text_append_rest (cs : List Char) :
    (stringLexeme cs).text ++ (stringLexeme cs).rest = '"' :: cs := by
  have split := List.takeWhile_append_dropWhile (p := fun c => decide (c ≠ '"')) (l := cs)
  unfold stringLexeme
  cases rest : cs.dropWhile (fun c => decide (c ≠ '"')) with
  | nil => simp only [rest, List.append_nil] at split ⊢; rw [split]
  | cons q r =>
    simp only [rest, List.cons_append, List.append_assoc, List.nil_append] at split ⊢
    rw [split]

theorem signLexeme_text_append_rest (c : Char) (cs : List Char) :
    (signLexeme c cs).text ++ (signLexeme c cs).rest = c :: cs := by
  unfold signLexeme
  split
  · rfl
  · rfl
  · split <;> rfl

/-- The characters of the first lexeme and the text after it make up the text. -/
theorem firstLexeme_text_append_rest (c : Char) (cs : List Char) :
    (firstLexeme c cs).text ++ (firstLexeme c cs).rest = c :: cs := by
  unfold firstLexeme
  split
  · simp
  · split
    · simp
    · split
      · subst_vars; exact stringLexeme_text_append_rest cs
      · exact signLexeme_text_append_rest c cs

theorem firstLexeme_text_ne_nil (c : Char) (cs : List Char) : (firstLexeme c cs).text ≠ [] := by
  unfold firstLexeme
  split
  · simp
  · split
    · simp
    · split
      · unfold stringLexeme; split <;> simp
      · unfold signLexeme
        split
        · simp
        · simp
        · split <;> simp

theorem length_firstLexeme_rest (c : Char) (cs : List Char) :
    (firstLexeme c cs).rest.length ≤ cs.length := by
  have parts := congrArg List.length (firstLexeme_text_append_rest c cs)
  have nonempty := List.length_pos_iff.2 (firstLexeme_text_ne_nil c cs)
  simp only [List.length_append, List.length_cons] at parts
  omega

/-- The tokens of a text that starts at byte `offset` of its source, the end token included. -/
def tokensFrom (offset : Nat) (cs : List Char) : List Token :=
  match cs with
  | [] => [⟨.eof, .ofRange offset offset⟩]
  | c :: cs =>
    if isBlank c then tokensFrom (offset + c.utf8Size) cs
    else
      let lexeme := firstLexeme c cs
      let stop := offset + byteLength lexeme.text
      ⟨lexeme.kind, .ofRange offset stop⟩ :: tokensFrom stop lexeme.rest
termination_by cs.length
decreasing_by
  · simp
  · have := length_firstLexeme_rest c cs
    simp only [List.length_cons]
    omega

/-- The tokens of a source text, closed by one end token. -/
def lex (source : String) : List Token := tokensFrom 0 source.toList

@[simp] theorem tokensFrom_nil (offset : Nat) :
    tokensFrom offset [] = [⟨.eof, .ofRange offset offset⟩] := by
  rw [tokensFrom]

theorem tokensFrom_blank (offset : Nat) {c : Char} (cs : List Char) (h : isBlank c = true) :
    tokensFrom offset (c :: cs) = tokensFrom (offset + c.utf8Size) cs := by
  rw [tokensFrom, if_pos h]

theorem tokensFrom_lexeme (offset : Nat) {c : Char} (cs : List Char) (h : isBlank c = false) :
    tokensFrom offset (c :: cs) =
      ⟨(firstLexeme c cs).kind, .ofRange offset (offset + byteLength (firstLexeme c cs).text)⟩ ::
        tokensFrom (offset + byteLength (firstLexeme c cs).text) (firstLexeme c cs).rest := by
  rw [tokensFrom, if_neg (by simp [h])]

@[simp] theorem byteLength_nil : byteLength [] = 0 := rfl

@[simp] theorem byteLength_cons (c : Char) (cs : List Char) :
    byteLength (c :: cs) = c.utf8Size + byteLength cs := rfl

@[simp] theorem byteLength_append (as bs : List Char) :
    byteLength (as ++ bs) = byteLength as + byteLength bs := by
  induction as with
  | nil => simp
  | cons c cs ih => rw [List.cons_append, byteLength_cons, byteLength_cons, ih, Nat.add_assoc]

end Monkey
