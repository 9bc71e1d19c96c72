import Monkey.Proofs.Laws

/-!
# Statements that are dropped

A statement that cannot be read is dropped, be it at top level or in a block however deep inside of
other statements.  It never goes without a trace: wherever a production fails it has met an error,
and no errors are lost on the way from a part of a run to the whole of it.

## Main definitions

* `Parser.Runs` — a run of one parser that happens in the course of a run of another one.
* `Parser.Explains` — parsers that fail with errors only.

## Main results

* `Parser.Runs.errors_sublist` — **the errors of a part of a run are errors of the run.**
* `Parser.statement_explains` — **a statement that fails has met an error.**
-/

namespace Monkey

/-- The errors that a reply reports. -/
def Reply.errors {α : Type} : Reply α → List ParseError
  | .done _ errors _ => errors
  | .failed errors _ => errors
  | .exhausted => []

theorem Reply.errors_after {α : Type} {r : Reply α} (h : r ≠ .exhausted) (es : List ParseError) :
    (r.after es).errors = es ++ r.errors := by
  cases r with
  | exhausted => exact absurd rfl h
  | _ => rfl

/-- The errors of reading a list of tokens. -/
theorem errors_parseTokens (tokens : List Token) :
    (parseTokens tokens).errors =
      (Parser.program (tokens.length + 2) (Cursor.ofTokens tokens)).errors := by
  unfold parseTokens
  cases Parser.program (tokens.length + 2) (Cursor.ofTokens tokens) <;> rfl

namespace Parser

/-! ### Parts of a run -/

/-- Running the last parser from its cursor involves running `q` from `d`. -/
inductive Runs {β : Type} (q : Parser β) (d : Cursor) : {α : Type} → Parser α → Cursor → Prop
  | here : Runs q d q d
  | first {α γ : Type} {p : Parser α} {k : α → Parser γ} {c : Cursor} :
      Runs q d p c → Runs q d (p >>= k) c
  | second {α γ : Type} {p : Parser α} {k : α → Parser γ} {c c' : Cursor} {a : α}
      {es : List ParseError} : p c = .done a es c' → Runs q d (k a) c' → Runs q d (p >>= k) c
  | attempt {α : Type} {p : Parser α} {c : Cursor} : Runs q d p c → Runs q d (attempt p) c

section

variable {α β γ : Type} {p : Parser α} {q : Parser β} {c d : Cursor}

theorem bind_ne_exhausted {k : α → Parser γ} {c' : Cursor} {a : α} {es : List ParseError}
    (hp : p c = .done a es c') (h : (p >>= k) c ≠ .exhausted) : k a c' ≠ .exhausted := by
  intro hk
  rw [bind_done hp, hk] at h
  exact h rfl

/-- **The errors of a part of a run are errors of the run.** -/
theorem Runs.errors_sublist (h : Runs q d p c) (hp : p c ≠ .exhausted) :
    (q d).errors.Sublist (p c).errors := by
  induction h with
  | here => exact List.Sublist.refl _
  -- the part lies in what is done first, whose errors come first
  | @first _ _ p k c _ ih =>
    cases hpc : p c with
    | done a es c' =>
      have hk := bind_ne_exhausted hpc hp
      rw [hpc] at ih
      rw [bind_done hpc, Reply.errors_after hk]
      exact (ih (by simp)).trans (List.sublist_append_left _ _)
    | failed es c' =>
      rw [hpc] at ih
      rw [bind_failed hpc]
      exact ih (by simp)
    | exhausted =>
      rw [bind_exhausted hpc] at hp
      exact absurd rfl hp
  -- the part lies in what is done afterwards
  | second hpc _ ih =>
    have hk := bind_ne_exhausted hpc hp
    rw [bind_done hpc, Reply.errors_after hk]
    exact (ih hk).trans (List.sublist_append_right _ _)
  -- an attempt that fails keeps the errors, too
  | @attempt _ p c _ ih =>
    unfold Parser.attempt at hp ⊢
    cases hpc : p c with
    | exhausted =>
      rw [hpc] at hp
      exact absurd rfl hp
    | _ =>
      rw [hpc] at ih
      exact ih (by simp)

/-- A part of a part of a run. -/
theorem Runs.trans {r : Parser γ} {e : Cursor} (hq : Runs r e q d) (hp : Runs q d p c) :
    Runs r e p c := by
  induction hp with
  | here => exact hq
  | first _ ih => exact .first ih
  | second hpc _ ih => exact .second hpc ih
  | attempt _ ih => exact .attempt ih

end

/-! ### Parts of the loops over statements -/

section

variable (expr : Precedence → Parser Expr)

/-- The loop over a program reads a statement wherever it has not met the end. -/
theorem runs_statementsToEnd {c : Cursor} (h : c.current.kind ≠ .eof) (n : Nat) :
    Runs (statement expr) c (statementsToEnd expr (n + 1)) c := by
  refine .second (p := current) rfl ?_
  rw [if_neg h]
  exact .first (.attempt .here)

/-- The loop over a block reads a statement wherever it has not met the end. -/
theorem runs_blockStatements {c : Cursor} (h : c.current.kind ≠ .eof)
    (hbrace : c.current.kind ≠ .symbol .rbrace) (n : Nat) :
    Runs (statement expr) c (blockStatements expr (n + 1)) c := by
  refine .second (p := current) rfl ?_
  rw [if_neg hbrace, if_neg h]
  exact .first (.attempt .here)

end

/-! ### Failing with errors -/

/-- Wherever the parser fails, it gives an error. -/
def Explains {α : Type} (p : Parser α) : Prop :=
  ∀ c es c', p c = .failed es c' → es ≠ []

/-- Nothing fails without an error. -/
def Law.explained : Law where
  Done _ _ _ := True
  Failed _ es _ := es ≠ []
  stay _ := trivial
  move _ := trivial
  trans _ _ := trivial
  fail _ h := List.append_ne_nil_of_right_ne_nil _ h
  blameCurrent _ := List.cons_ne_nil _ _
  blameNext _ := List.cons_ne_nil _ _
  recover _ := trivial

theorem explains_iff {α : Type} {p : Parser α} : Explains p ↔ Law.explained.Keeps p := by
  constructor
  · intro h c
    cases hpc : p c with
    | failed es d => exact h c es d hpc
    | _ => trivial
  · intro h c es d hfailed
    have hc := h c
    rw [hfailed] at hc
    exact hc

/-- **A statement that fails has met an error.** -/
theorem statement_explains {expr : Precedence → Parser Expr} (h : ∀ level, Explains (expr level)) :
    Explains (statement expr) :=
  explains_iff.2 (Law.statement_keeps fun level => explains_iff.1 (h level))

theorem expression_explains (n : Nat) (level : Precedence) : Explains (expression n level) :=
  explains_iff.2 (Law.expression_keeps n level)

end Parser

end Monkey
