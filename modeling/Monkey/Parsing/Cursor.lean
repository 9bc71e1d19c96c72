import Monkey.Token

/-!
# Cursors

A place in a list of tokens that ends with an end token: the current token and those after it.  A
cursor moves towards the end only, and stays at the last token once it is there.

## Main definitions

* `closeTokens` — a list of tokens with an end token last.
* `Cursor`, `Cursor.ofTokens` — a place in such a list, and the first place.
* `Cursor.tokens` — the tokens from a place on.
* `Cursor.next`, `Cursor.advance` — the token after the current one, and the step to it.
-/

namespace Monkey

/-- The tokens, with an end token put after them unless they end with one.  It stands where the
last of them ends. -/
def closeTokens (tokens : List Token) : List Token :=
  match tokens.getLast? with
  | none => [⟨.eof, .point 0⟩]
  | some last =>
    if last.kind = .eof then tokens else tokens ++ [⟨.eof, .point last.span.stop⟩]

theorem closeTokens_ne_nil (tokens : List Token) : closeTokens tokens ≠ [] := by
  unfold closeTokens
  split
  · exact List.cons_ne_nil _ _
  · split
    · next last hlast _ =>
      rintro rfl
      cases hlast
    · exact List.append_ne_nil_of_right_ne_nil _ (List.cons_ne_nil _ _)

/-- A place in a list of tokens. -/
structure Cursor where
  current : Token
  /-- The tokens after the current one. -/
  rest : List Token
  deriving DecidableEq, Repr, Inhabited

namespace Cursor

/-- The tokens from the current one on. -/
def tokens (c : Cursor) : List Token := c.current :: c.rest

/-- The cursor at the first token. -/
def ofTokens (tokens : List Token) : Cursor :=
  match closeTokens tokens with
  | [] => ⟨⟨.eof, .point 0⟩, []⟩
  | token :: rest => ⟨token, rest⟩

/-- The token after the current one; after the last token, the last token again. -/
def next (c : Cursor) : Token := c.rest.headD c.current

/-- The cursor one token further on, unless it is at the last token. -/
def advance (c : Cursor) : Cursor :=
  match c.rest with
  | [] => c
  | token :: rest => ⟨token, rest⟩

@[simp] theorem next_nil (t : Token) : (Cursor.mk t []).next = t := rfl

@[simp] theorem next_cons (t u : Token) (rest : List Token) :
    (Cursor.mk t (u :: rest)).next = u := rfl

@[simp] theorem advance_nil (t : Token) : (Cursor.mk t []).advance = ⟨t, []⟩ := rfl

@[simp] theorem advance_cons (t u : Token) (rest : List Token) :
    (Cursor.mk t (u :: rest)).advance = ⟨u, rest⟩ := rfl

@[simp] theorem current_advance (c : Cursor) : c.advance.current = c.next := by
  obtain ⟨t, rest⟩ := c
  cases rest <;> rfl

theorem length_rest_advance (c : Cursor) : c.advance.rest.length = c.rest.length - 1 := by
  obtain ⟨t, rest⟩ := c
  cases rest <;> simp

/-- From the first place on there are all the tokens. -/
theorem tokens_ofTokens (ts : List Token) : (ofTokens ts).tokens = closeTokens ts := by
  unfold ofTokens
  cases hclosed : closeTokens ts with
  | nil => exact absurd hclosed (closeTokens_ne_nil ts)
  | cons token rest => rfl

end Cursor

end Monkey
