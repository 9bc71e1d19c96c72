import Mathlib.Data.List.Basic
import Monkey.Expr.Equality
import Monkey.Proofs.Runs
import Monkey.Session

/-!
# Evaluation without end

The limit on active calls is a limit on calls of functions.  Running a text with `eval` is no call
of a function, and neither is evaluating a part of a quote.  So a text that evaluates itself never
ends, whatever the limit, and neither does quoted syntax that is pasted into a quote which evaluates
it.

## Main definitions

* `evalOf`, `quoteOf` — the expressions that go round.
* `selfEvaluating` — the program that binds a text to a name and evaluates the text.

## Main results

* `evaluate_evalOf_self` — **a text that evaluates itself never ends.**
* `evaluate_quoteOf_self` — **quoted syntax that unquotes itself never ends.**
* `runProgram_selfEvaluating` — **there is a program that ends in no state, whatever the limit on
  active calls is.**
-/

namespace Monkey

open Eval

/-- The expression `eval(name)`. -/
def evalOf (name : String) : Expr := .call (.ident "eval") [.ident name]

/-- The expression `quote(unquote(unquote(name)))`. -/
def quoteOf (name : String) : Expr :=
  .call (.ident "quote") [.call (.ident "unquote") [.call (.ident "unquote") [.ident name]]]

section

variable {name source : String} (hname : Intrinsic.ofName? name = none)

include hname

/-- **A text that evaluates itself never ends.** -/
theorem evaluate_evalOf_self (hparse : (parse source).toExcept = .ok [.expr (evalOf name)])
    (budget : Nat) : ∀ {scope addr : Nat} {s : State}, scope < s.scopes.size →
      s.scopes.find? scope name = some (.string addr source) →
      evaluate budget (evalOf name) scope s = none := by
  induction budget with
  | zero => exact fun _ _ => rfl
  | succ m ih =>
    intro scope addr s hscope hfound
    cases m with
    | zero => rfl
    | succ n =>
      -- the text is run in a new scope, where the name stands for it as well
      have hinner : (s.scopes.add (some scope)).find? s.scopes.size name =
          some (.string addr source) := by rw [s.scopes.find?_add_self name hscope, hfound]
      have hagain : evaluate (n + 1) (evalOf name) s.scopes.size
          { s with scopes := s.scopes.add (some scope) } = none :=
        ih (by rw [Scopes.size_add]; exact Nat.lt_succ_self _) hinner
      rw [evalOf, show "eval" = Intrinsic.eval.name from rfl, evaluate_call_intrinsic]
      change (evaluate (n + 1) (.ident name) scope s).bind _ = none
      rw [evaluate_ident hname hfound, Option.bind_some]
      change evalText (evaluate (n + 1)) (.string addr source) scope s = none
      simp only [evalText, hparse]
      change ((evaluate (n + 1) (evalOf name) s.scopes.size
        { s with scopes := s.scopes.add (some scope) }).bind _).bind _ = none
      rw [hagain]
      rfl

/-- **Quoted syntax that unquotes itself never ends.** -/
theorem evaluate_quoteOf_self (budget : Nat) : ∀ {scope addr : Nat} {s : State},
    s.scopes.find? scope name = some (.quote addr (quoteOf name)) →
      evaluate budget (quoteOf name) scope s = none := by
  induction budget with
  | zero => exact fun _ => rfl
  | succ n ih =>
    intro scope addr s hfound
    have hvisit : ((Expr.call (.ident "unquote") [.call (.ident "unquote") [.ident name]]).rewriteM
        (unquoteVisit (evaluate n) scope)).run none s = none := by
      simp only [Expr.rewriteM, rewriteExprsM, StateT.run_bind, run_unquoteVisit_none,
        Expr.unquoted?, Expr.name?, pure_bind, bind_assoc, if_true]
      cases n with
      | zero => rfl
      | succ m =>
        change (evaluate (m + 1) (.ident name) scope s).bind _ = none
        rw [evaluate_ident hname hfound, Option.bind_some]
        -- the syntax takes the place of the inner call, and the outer call evaluates it
        change (unquoteVisit (evaluate (m + 1)) scope
          (.call (.ident "unquote") [quoteOf name])).run none s = none
        rw [run_unquoteVisit_none]
        change (evaluate (m + 1) (quoteOf name) scope s).bind _ = none
        rw [ih hfound, Option.bind_none]
    change (((Expr.call (.ident "unquote") [.call (.ident "unquote") [.ident name]]).rewriteM
        (unquoteVisit (evaluate n) scope)).run none s).bind _ = none
    rw [hvisit, Option.bind_none]

end

/-- The program `let name = "…"; eval(name)`. -/
def selfEvaluating (name source : String) : Program :=
  [.letBe name (.str source), .expr (evalOf name)]

/-- **There is a program that ends in no state, whatever the limit on active calls is.** -/
theorem runProgram_selfEvaluating {name source : String} (hname : Intrinsic.ofName? name = none)
    (hparse : (parse source).toExcept = .ok [.expr (evalOf name)]) {s : State} {scope : Nat}
    (hscope : scope < s.scopes.size) (budget : Nat) :
    runProgram budget (selfEvaluating name source) scope s = none := by
  cases budget with
  | zero => rfl
  | succ n =>
    -- once the name is bound to its own source, evaluating it never ends
    have hend : evaluate (n + 1) (evalOf name) scope
        { s with
          nextAddress := s.nextAddress + 1
          scopes := s.scopes.set scope name (.string s.nextAddress source) } = none :=
      evaluate_evalOf_self hname hparse (n + 1) (by rwa [Scopes.size_set])
        (s.scopes.find?_set_self name _ hscope)
    change ((evaluate (n + 1) (evalOf name) scope
        { s with
          nextAddress := s.nextAddress + 1
          scopes := s.scopes.set scope name (.string s.nextAddress source) }).bind _).bind _ = none
    rw [hend]
    rfl

/-- The text `let s = "eval(s)"; eval(s)` is a program that never ends in a new session, which
allows twenty active calls. -/
theorem runProgram_selfEvaluating_session :
    (parse "let s = \"eval(s)\"; eval(s)").toExcept = .ok (selfEvaluating "s" "eval(s)") ∧
      ∀ budget, runProgram budget (selfEvaluating "s" "eval(s)") (Session.start 20 .empty).globals
        (Session.start 20 .empty).state = none := by
  have hparse : (parse "eval(s)").toExcept = .ok [.expr (evalOf "s")] := by decide +kernel
  exact ⟨by decide +kernel, runProgram_selfEvaluating (by decide) hparse (by decide)⟩

end Monkey
