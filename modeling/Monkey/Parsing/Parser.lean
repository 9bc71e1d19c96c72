import Monkey.Parsing.Cursor
import Monkey.Parsing.ParseError

/-!
# Parsers

A parser starts at a cursor.  It answers with a value or with failure, in both cases with the
errors that it met, in order, and with the cursor at which it stopped.  A third answer says that
the budget for nesting and repetition was too small.

## Main definitions

* `Reply` — the three answers.
* `Parser` — parsers, which form a monad whose steps collect their errors.
* `Parser.expect`, `Parser.expectName` — the step to a token of a given class.
* `Parser.attempt` — a parser whose failure is an answer.
-/

namespace Monkey

/-- What a parser answers. -/
inductive Reply (α : Type)
  | done (value : α) (errors : List ParseError) (cursor : Cursor)
  | failed (errors : List ParseError) (cursor : Cursor)
  /-- The budget was used up. -/
  | exhausted

namespace Reply

variable {α : Type}

/-- The reply of a parser that went on after the given errors. -/
def after (before : List ParseError) : Reply α → Reply α
  | .done value errors cursor => .done value (before ++ errors) cursor
  | .failed errors cursor => .failed (before ++ errors) cursor
  | .exhausted => .exhausted

@[simp] theorem after_nil (r : Reply α) : r.after [] = r := by cases r <;> rfl

@[simp] theorem after_done (es : List ParseError) (a : α) (fs : List ParseError) (c : Cursor) :
    (Reply.done a fs c).after es = .done a (es ++ fs) c := rfl

@[simp] theorem after_failed (es fs : List ParseError) (c : Cursor) :
    (Reply.failed fs c : Reply α).after es = .failed (es ++ fs) c := rfl

@[simp] theorem after_exhausted (es : List ParseError) :
    (Reply.exhausted : Reply α).after es = .exhausted := rfl

theorem after_after (es fs : List ParseError) (r : Reply α) :
    (r.after fs).after es = r.after (es ++ fs) := by
  cases r <;> simp

end Reply

/-- A parser of values of type `α`. -/
def Parser (α : Type) : Type := Cursor → Reply α

namespace Parser

variable {α β : Type}

/-- Answers with a value and stays where it is. -/
@[always_inline, inline] protected def pure (a : α) : Parser α := fun c => .done a [] c

/-- Runs one parser and then, unless it failed, another one. -/
@[always_inline, inline] protected def bind (p : Parser α) (k : α → Parser β) : Parser β :=
  fun c =>
    match p c with
    | .done a [] c => k a c
    | .done a (e :: es) c => (k a c).after (e :: es)
    | .failed es c => .failed es c
    | .exhausted => .exhausted

instance : Monad Parser where
  pure := Parser.pure
  bind := Parser.bind

theorem pure_apply (a : α) (c : Cursor) : (pure a : Parser α) c = .done a [] c := rfl

theorem bind_done {p : Parser α} {c c' : Cursor} {a : α} {es : List ParseError}
    (h : p c = .done a es c') (k : α → Parser β) : (p >>= k) c = (k a c').after es := by
  change Parser.bind p k c = _
  unfold Parser.bind
  cases es <;> simp [h]

theorem bind_failed {p : Parser α} {c c' : Cursor} {es : List ParseError}
    (h : p c = .failed es c') (k : α → Parser β) : (p >>= k) c = .failed es c' := by
  change Parser.bind p k c = _
  simp [Parser.bind, h]

theorem bind_exhausted {p : Parser α} {c : Cursor} (h : p c = .exhausted) (k : α → Parser β) :
    (p >>= k) c = .exhausted := by
  change Parser.bind p k c = _
  simp [Parser.bind, h]

instance : LawfulMonad Parser := by
  refine LawfulMonad.mk' Parser ?_ ?_ ?_
  · intro α p
    funext c
    change (p >>= pure) c = p c
    cases hp : p c with
    | done a es d => rw [bind_done hp, pure_apply, Reply.after_done, List.append_nil]
    | failed es d => rw [bind_failed hp]
    | exhausted => rw [bind_exhausted hp]
  · intro α β a k
    rfl
  · intro α β γ p k l
    funext c
    cases hp : p c with
    | done a es d =>
      rw [bind_done hp]
      cases hk : k a d with
      | done b fs e =>
        have hpk : (p >>= k) c = .done b (es ++ fs) e := by rw [bind_done hp, hk, Reply.after_done]
        rw [bind_done hpk, bind_done hk, Reply.after_after]
      | failed fs e =>
        have hpk : (p >>= k) c = .failed (es ++ fs) e := by
          rw [bind_done hp, hk, Reply.after_failed]
        rw [bind_failed hpk, bind_failed hk, Reply.after_failed]
      | exhausted =>
        have hpk : (p >>= k) c = .exhausted := by rw [bind_done hp, hk, Reply.after_exhausted]
        rw [bind_exhausted hpk, bind_exhausted hk, Reply.after_exhausted]
    | failed es d => rw [bind_failed hp, bind_failed (bind_failed hp k)]
    | exhausted => rw [bind_exhausted hp, bind_exhausted (bind_exhausted hp k)]

/-- The answer of a parser without budget. -/
def exhausted : Parser α := fun _ => .exhausted

/-- Fails with an error. -/
def reject (e : ParseError) : Parser α := fun c => .failed [e] c

/-- The current token. -/
def current : Parser Token := fun c => .done c.current [] c

/-- The token after the current one. -/
def next : Parser Token := fun c => .done c.next [] c

/-- Moves to the next token. -/
def advance : Parser Unit := fun c => .done () [] c.advance

/-- Whether the next token is the given symbol. -/
def nextIs (sign : Symbol) : Parser Bool := fun c =>
  .done (c.next.kind = .symbol sign) [] c

/-- Fails because the next token is none of the expected class. -/
def rejectNext (expected : TokenClass) : Parser α := fun c =>
  .failed [.unexpectedToken expected c.next.kind.toClass c.next.span] c

/-- Moves to the next token, which has to be the given symbol. -/
def expect (sign : Symbol) : Parser Unit := fun c =>
  if c.next.kind = .symbol sign then advance c else rejectNext (.symbol sign) c

/-- Moves to the next token, which has to be a name, and answers with that name. -/
def expectName : Parser String := fun c =>
  match c.next.kind with
  | .ident name => .done name [] c.advance
  | _ => rejectNext .ident c

/-- Moves to the next token if it is the given symbol. -/
def skip (sign : Symbol) : Parser Unit := fun c =>
  if c.next.kind = .symbol sign then advance c else .done () [] c

/-- Answers `none` where the parser fails. -/
def attempt (p : Parser α) : Parser (Option α) := fun c =>
  match p c with
  | .done a es c => .done (some a) es c
  | .failed es c => .done none es c
  | .exhausted => .exhausted

end Parser

end Monkey
