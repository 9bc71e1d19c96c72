import Mathlib.Algebra.Group.Nat.Defs
import Monkey.Proofs.Lexing
import Monkey.Proofs.Settling
import Monkey.Proofs.Shielding

/-!
# The limit on nested calls

A function that calls itself once for every number down to zero needs one more call than the number
that it starts from.  It comes to zero if that many calls may be active, and otherwise to the error
of the call that is one too many.  That error passes through all the calls that wait for it, and
each of them ends as it would with a value; so afterwards as many calls may be nested as before.

The program is read from source text, with its number as a numeral.

## Main definitions

* `countdownSource` — the text of the program.
* `down` — the function that it binds.
* `CountsDown` — what the function comes to, under a limit.

## Main results

* `down_gives` — **what counting down comes to, from any number of active calls.**
* `call_depth_limit_is_exact` — **counting down from a number comes to zero exactly if the number is
  below the limit**, and spoils nothing for later runs.
-/

namespace Monkey

open Eval

/-! ### The program and its text -/

/-- The statement that binds the function, as text. -/
def countdownDefinition : String :=
  "let down = fn(n) \x7b if (n == 0) \x7b 0 \x7d else \x7b down(n - 1) \x7d \x7d;"

/-- The program that counts down from a number, as text. -/
def countdownSource (n : Nat) : String := countdownDefinition ++ " down(" ++ toString n ++ ")"

example : countdownSource 50 =
    "let down = fn(n) \x7b if (n == 0) \x7b 0 \x7d else \x7b down(n - 1) \x7d \x7d; down(50)" := by
  decide

/-- What the function does where the number is not yet zero. -/
def nextCall : Block := [.expr (.call (.ident "down") [.binary .sub (.ident "n") (.int 1)])]

/-- The body of the function. -/
def downBody : Block :=
  [.expr (.cond (.binary .eq (.ident "n") (.int 0)) [.expr (.int 0)] (some nextCall))]

/-- The function, written in a scope. -/
def down (scope : Nat) : Closure := ⟨["n"], downBody, scope⟩

/-- The program that counts down. -/
def countdown (n : Int64) : Program :=
  [.letBe "down" (.fn ["n"] downBody), .expr (.call (.ident "down") [.int n])]

theorem program_parse_countdownDefinition :
    (parse countdownDefinition).program = [.letBe "down" (.fn ["n"] downBody)] := by
  decide +kernel

/-- The call is read whatever the number is that it begins with. -/
theorem parse_countdownCall {n : Nat} (hn : n < Int64.size / 2) :
    parse (" down(" ++ toString n ++ ")") =
      ⟨[.expr (.call (.ident "down") [.int (Int64.ofNat n)])], []⟩ := by
  have hname := kindsOf_name (show isName "down" = true by decide +kernel)
    (boundary_cons (c := '(') rfl (by decide) (Nat.toDigits 10 n ++ [')']))
  have hnumeral := kindsOf_numeral hn (boundary_cons (c := ')') rfl (by decide) [])
  have htext : (" down(" ++ toString n ++ ")").toList =
      ' ' :: ("down".toList ++ '(' :: (Nat.toDigits 10 n ++ [')'])) := by
    simp
  -- first the tokens, then the sentence that they are
  have hkinds : (lex (" down(" ++ toString n ++ ")")).map Token.kind =
      ([.ident "down"] ++ parenthesised [.int (Int64.ofNat n)]) ++ [.eof] := by
    rw [map_kind_lex, htext, kindsOf_space, hname, kindsOf_lparen, hnumeral, kindsOf_rparen,
      kindsOf_nil]
    rfl
  have hargument : Derives (.expr .equality (.int (Int64.ofNat n))) [.int (Int64.ofNat n)] :=
    (Derives.int _).loosen (by decide)
  have hcall := (Derives.ident "down").call (.exprs hargument .noMoreExprs)
  have hstmts := Derives.unclosed (.expr (hcall.loosen (by decide))) .noStmts nofun
  rw [List.append_nil] at hstmts
  exact parseTokens_of_kinds hkinds hstmts

theorem parse_countdownSource {n : Nat} (hn : n < Int64.size / 2) :
    parse (countdownSource n) = ⟨countdown (Int64.ofNat n), []⟩ := by
  have hcall := parse_countdownCall hn
  have hboth := parse_append_of_clean (a := countdownDefinition)
    (b := " down(" ++ toString n ++ ")") (by decide +kernel) (by rw [hcall]) (by decide +kernel)
  rw [program_parse_countdownDefinition, hcall] at hboth
  have htext : countdownSource n = countdownDefinition ++ (" down(" ++ toString n ++ ")") := by
    simp only [countdownSource, String.append_assoc]
  rw [htext, hboth]
  rfl

/-! ### Counting down -/

/-- What counting down from a number comes to where so many calls are active already. -/
inductive CountsDown (limit depth n : Nat) : Value → Prop
  | zero : depth + n < limit → CountsDown limit depth n (.integer 0)
  | tooDeep (addr : Nat) : limit ≤ depth + n →
    CountsDown limit depth n ((EvalError.stackOverflow limit).toValue addr)

namespace CountsDown

variable {limit depth n : Nat} {v : Value}

/-- One call more is active while counting down from one less. -/
theorem succ (h : CountsDown limit (depth + 1) n v) : CountsDown limit depth (n + 1) v := by
  cases h with
  | zero hlt => exact .zero (by omega)
  | tooDeep addr hle => exact .tooDeep addr (by omega)

/-- Nothing is returned by a `return`. -/
theorem unwrapReturn_eq (h : CountsDown limit depth n v) : v.unwrapReturn = v := by
  cases h <;> rfl

theorem eq_zero (h : CountsDown limit depth n v) (hlt : depth + n < limit) : v = .integer 0 := by
  cases h with
  | zero => rfl
  | tooDeep _ hle => omega

theorem exists_eq_error (h : CountsDown limit depth n v) (hle : limit ≤ depth + n) :
    ∃ addr, v = (EvalError.stackOverflow limit).toValue addr := by
  cases h with
  | zero hlt => omega
  | tooDeep addr => exact ⟨addr, rfl⟩

end CountsDown

theorem ofNat_succ_sub_one (n : Nat) : Int64.ofNat (n + 1) - 1 = Int64.ofNat n := by
  rw [Int64.ofNat_add]
  exact Int64.add_sub_cancel _ 1

section

variable {s t : State} {scope : Nat} {x : Int64} {f v : Value}

theorem isZero_yields (hx : s.scopes.find? scope "n" = some (.integer x)) :
    Expr.Yields (.binary .eq (.ident "n") (.int 0)) scope s (.boolean (x == 0)) s.afterFresh :=
  .binary .eq (.ident "n" s rfl hx) rfl (.int 0) rfl

/-- From zero there is nothing to count. -/
theorem downBody_yields_zero (hx : s.scopes.find? scope "n" = some (.integer 0)) :
    downBody.Yields scope s (.integer 0) s.afterFresh :=
  .single (.cond (isZero_yields hx) rfl (.single (.int 0)))

/-- From another number the function goes on with the one before. -/
theorem downBody_yields_succ (hx : s.scopes.find? scope "n" = some (.integer x)) (hne : x ≠ 0)
    (hdown : s.scopes.find? scope "down" = some f) (hf : f.isAbrupt = false)
    (hnext : f.Gives [.integer (x - 1)] scope s.afterFresh.afterFresh v t) :
    downBody.Yields scope s v t := by
  have hcallee := Expr.Yields.ident "down" s.afterFresh rfl hdown
  have hfound := Expr.Yields.ident "n" s.afterFresh rfl hx
  have hminus := Expr.Yields.binary .sub hfound rfl (.int 1) rfl
  have hcall := Expr.Yields.call (by decide) hcallee hf (.cons hminus rfl .nil) hnext
  refine .single (.cond (isZero_yields hx) rfl ?_)
  rw [beq_eq_false_iff_ne.2 hne]
  exact .single hcall

end

/-- **What counting down comes to, from any number of active calls.**  The induction is on the
number, for all states: what a call leaves to the next one has one call more. -/
theorem down_gives {σ : String → Option Value} {g addr : Nat}
    (hdown : σ "down" = some (.function addr (down g))) {n : Nat} (hn : n < Int64.size / 2)
    (scope : Nat) {s : State} (hsees : s.scopes.Sees g σ) :
    ∃ v t, (Value.function addr (down g)).Gives [.integer (Int64.ofNat n)] scope s v t ∧
      CountsDown s.maxCallDepth s.callDepth n v ∧ s.Extends noScope t := by
  induction n generalizing scope s with
  | zero =>
    rcases Nat.lt_or_ge s.callDepth s.maxCallDepth with hallowed | hlimit
    · have hinner := hsees.enter (c := down g) [.integer 0]
      have hbody := downBody_yields_zero (hinner.find?_eq "n")
      obtain ⟨t, hcall, hextends⟩ := Value.Gives.exists_extends addr scope (c := down g) hbody
        (Nat.le_refl 1) hallowed rfl (.afterFresh _ _)
      exact ⟨_, t, hcall, .zero hallowed, hextends⟩
    · exact ⟨_, _, .refused (Nat.le_refl 1) hlimit, .tooDeep _ hlimit, .afterFresh _ s⟩
  | succ n ih =>
    rcases Nat.lt_or_ge s.callDepth s.maxCallDepth with hallowed | hlimit
    · let e := s.enter (down g) [.integer (Int64.ofNat (n + 1))]
      have hinner : e.scopes.Sees s.scopes.size _ := hsees.enter _
      -- the test and the subtraction take an address each
      have htwice : e.Extends (· = s.scopes.size) e.afterFresh.afterFresh :=
        (State.Extends.afterFresh _ e).trans (.afterFresh _ _)
      obtain ⟨v, t, hnext, hv, hlater⟩ := ih (by omega) s.scopes.size
        (s := e.afterFresh.afterFresh) (hsees.entered _ _)
      rw [← ofNat_succ_sub_one] at hnext
      have hbody := downBody_yields_succ (hinner.find?_eq "n") (ofNat_ne_zero n.succ_pos hn)
        ((hinner.find?_eq "down").trans hdown) rfl hnext
      obtain ⟨t', hcall, hextends⟩ := Value.Gives.exists_extends addr scope (c := down g) hbody
        (Nat.le_refl 1) hallowed hv.unwrapReturn_eq (htwice.trans hlater.weaken)
      exact ⟨v, t', hcall, hv.succ, hextends⟩
    · exact ⟨_, _, .refused (Nat.le_refl 1) hlimit, .tooDeep _ (by omega), .afterFresh _ s⟩

/-! ### Running the program -/

/-- The program binds the function, and changes nothing else that was there. -/
theorem countdown_yields {s : State} {g : Nat} (hg : g < s.scopes.size) {n : Nat}
    (hn : n < Int64.size / 2) :
    ∃ v t, Block.Yields (countdown (Int64.ofNat n)) g s v t ∧
      CountsDown s.maxCallDepth s.callDepth n v ∧ (s.define "down" (down g)).Extends noScope t := by
  have hsees := (Scopes.Sees.refl hg).set "down" (.function s.nextAddress (down g))
  have hdown : Function.update (s.scopes.find? g) "down"
      (some (.function s.nextAddress (down g))) "down" = _ := Function.update_self ..
  obtain ⟨v, t, hgives, hv, hextends⟩ := down_gives hdown hn g (s := s.define "down" (down g)) hsees
  have hcallee := hsees.ident (s.define "down" (down g)) "down" rfl hdown
  have hcall := Expr.Yields.call (by decide) hcallee rfl (.cons (.int _) rfl .nil) hgives
  exact ⟨v, t, .define "down" (down g) (.single hcall), hv, hextends⟩

/-- What a session answers to the text of the program. -/
theorem countdown_answers {σ : Session} (hmacros : σ.BindsNoMacro)
    (hglobals : σ.globals < σ.state.scopes.size) {n : Nat} (hn : n < Int64.size / 2) :
    ∃ v t, σ.Answers (countdownSource n) v { σ with state := t } ∧
      CountsDown σ.state.maxCallDepth σ.state.callDepth n v ∧
      (σ.state.define "down" (down σ.globals)).Extends noScope t := by
  obtain ⟨v, t, hyields, hv, hextends⟩ := countdown_yields hglobals hn
  have hanswers := Session.answers_of_yields hmacros (parse_countdownSource hn) nofun rfl hyields
  rw [hv.unwrapReturn_eq] at hanswers
  exact ⟨v, t, hanswers, hv, hextends⟩

/-- A session that counts down from less than the limit comes to zero. -/
theorem countdown_answers_zero {σ : Session} (hmacros : σ.BindsNoMacro)
    (hglobals : σ.globals < σ.state.scopes.size) {n : Nat} (hn : n < Int64.size / 2)
    (hidle : σ.state.callDepth = 0) (hlt : n < σ.state.maxCallDepth) :
    ∃ τ, σ.Answers (countdownSource n) (.integer 0) τ := by
  obtain ⟨v, t, hanswers, hv, -⟩ := countdown_answers hmacros hglobals hn
  rw [hv.eq_zero (by omega)] at hanswers
  exact ⟨_, hanswers⟩

/-- What a new environment binds after the program. -/
theorem get?_session_define (s : State) :
    (s.session.state.define "down" (down s.session.globals)).scopes.get? s.session.globals =
      some ⟨[("down", .function s.nextAddress (down s.session.globals))], none⟩ := by
  have hnew : s.session.state.scopes.get? s.session.globals = some ⟨[], none⟩ := by
    have hlt : s.scopes.size < (s.scopes.add none).size := by simp
    have hlater := (s.scopes.add none).get?_add_of_lt none hlt
    exact hlater.trans (s.scopes.get?_add_self none)
  exact (Scopes.get?_set_self ..).trans (congrArg (Option.map _) hnew)

/-- **The limit is exact.**  Let no call be active.  Run in a fresh environment, the program that
counts down from a number comes to zero if the number is below the limit, and otherwise to the error
that names the limit.  In both cases the environment afterwards binds the function and nothing else,
nothing has been printed, and the program run after it comes to zero from every number below the
limit, in the same environment and in a fresh one. -/
theorem call_depth_limit_is_exact {s : State} (hidle : s.callDepth = 0) {n : Nat}
    (hn : n < 2 ^ 63) :
    ∃ v t, s.session.Answers (countdownSource n) v { s.session with state := t } ∧
      (n < s.maxCallDepth → v = .integer 0) ∧
      (s.maxCallDepth ≤ n → ∃ addr, v = .error addr
        ("stack overflow: maximum call depth " ++ toString s.maxCallDepth ++ " exceeded")) ∧
      (∃ addr, t.scopes.get? s.session.globals =
        some ⟨[("down", .function addr (down s.session.globals))], none⟩) ∧
      t.output = s.output ∧
      ∀ later < s.maxCallDepth, later < 2 ^ 63 →
        (∃ τ, Session.Answers { s.session with state := t } (countdownSource later)
          (.integer 0) τ) ∧
        ∃ τ, t.session.Answers (countdownSource later) (.integer 0) τ := by
  have hmacros := Session.bindsNoMacro_session s
  have hnew := (Session.sees_session s).lt_size
  obtain ⟨v, t, hanswers, hv, hextends⟩ := countdown_answers hmacros hnew hn
  -- what the run leaves behind: no call active, the limit as it was, and one name more
  have hall := (State.Extends.define _ _ _).trans hextends.weaken
  have hidle' : t.callDepth = 0 := hall.callDepth_eq.trans hidle
  have hlimit : t.maxCallDepth = s.maxCallDepth := hall.maxCallDepth_eq
  have hcalls : s.session.state.callDepth + n = n := by
    rw [show s.session.state.callDepth = 0 from hidle, Nat.zero_add]
  refine ⟨v, t, hanswers, fun hbelow => hv.eq_zero (hcalls.trans_lt hbelow),
    fun habove => hv.exists_eq_error (habove.trans_eq hcalls.symm), ⟨s.nextAddress, ?_⟩,
    hall.output_eq, fun later hbelow hlater => ⟨?_, ?_⟩⟩
  · rw [hextends.grown.get?_eq (hnew.trans_le (State.Extends.define _ _ _).grown.size_le) id]
    exact get?_session_define s
  -- the later program finds a session in which nothing stands in its way
  · have hmacros' := hmacros.grown (Session.separate_session s) hall.grown
    exact countdown_answers_zero hmacros' (hnew.trans_le hall.grown.size_le) hlater hidle'
      (hbelow.trans_eq hlimit.symm)
  · exact countdown_answers_zero (Session.bindsNoMacro_session t) (Session.sees_session t).lt_size
      hlater hidle' (hbelow.trans_eq hlimit.symm)

/-- With ten calls allowed, counting down from fifty fails, and afterwards counting down from five
does not. -/
theorem call_depth_limit_is_exact_ten :
    let σ := Session.start 10 .empty
    ∃ v τ, σ.Answers (countdownSource 50) v τ ∧
      (∃ addr, v = .error addr "stack overflow: maximum call depth 10 exceeded") ∧
      τ.printed = "" ∧ ∃ ρ, τ.Answers (countdownSource 5) (.integer 0) ρ := by
  intro σ
  obtain ⟨v, t, hanswers, -, hfails, -, houtput, hlater⟩ :=
    call_depth_limit_is_exact (s := .start 10 .empty) rfl (n := 50) (by decide)
  refine ⟨v, _, hanswers, hfails (by decide), ?_, (hlater 5 (by decide) (by decide)).1⟩
  rw [Session.printed, houtput]
  rfl

end Monkey
