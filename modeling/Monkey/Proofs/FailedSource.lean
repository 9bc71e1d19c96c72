import Monkey.Proofs.ActiveCalls
import Monkey.Proofs.MacroFree

/-!
# Sources that fail

A source that does not parse leaves a session as it is.  If the macros of a source cannot be
expanded, its definitions of macros have been made by then, and macros have been run; but they write
to scopes of their own only, so all scopes that were there before are as they were, save the scope
of macros, and there only the definitions count.  The program has not been run at all: whatever
would run it, the outcome is the same.

## Main definitions

* `lastDefinition?`, `Overwritten` — the last definition of a name, and bindings that definitions
  overwrite.
* `Session.ExpansionFailed` — what is left of a session by a source that cannot be expanded.

## Main results

* `bindMacros_overwritten` — the last definition of a name wins.
* `Session.run_of_error` — **a source that fails leaves the session as it should.**
-/

namespace Monkey

open Eval (bind_eq_some_iff)

/-! ### The last definition -/

/-- The last definition of a name. -/
def lastDefinition? (name : String) (definitions : List MacroDefinition) : Option MacroDefinition :=
  definitions.reverse.find? fun d => d.name = name

theorem lastDefinition?_cons (name : String) (d : MacroDefinition) (rest : List MacroDefinition) :
    lastDefinition? name (d :: rest) =
      (lastDefinition? name rest).or (if d.name = name then some d else none) := by
  simp only [lastDefinition?, List.reverse_cons, List.find?_append, List.find?_singleton,
    decide_eq_true_eq]

/-- The second bindings are the first ones, overwritten by definitions of macros that are closed
over the scope of macros; the last definition of a name wins. -/
structure Overwritten (macros : Nat) (definitions : List MacroDefinition)
    (before after : Bindings) : Prop where
  kept : ∀ name, lastDefinition? name definitions = none → after.find? name = before.find? name
  defined : ∀ name d, lastDefinition? name definitions = some d →
    ∃ addr, after.find? name = some (.macroFn addr ⟨d.params, d.body, macros⟩)

section

variable {macros : Nat} {s t : State}

/-- What a scope binds after it has bound a name. -/
theorem Scopes.bindings_set_self (s : Scopes) {id : Nat} (h : id < s.size) (name : String)
    (value : Value) : (s.set id name value).bindings id = (s.bindings id).set name value := by
  rw [bindings_set, if_pos ⟨rfl, h⟩]

/-- Definitions of macros overwrite what was bound before. -/
theorem bindMacros_overwritten {definitions : List MacroDefinition}
    (hmacros : macros < s.scopes.size)
    (h : bindMacros (m := Eval) macros definitions s = some ((), t)) :
    Overwritten macros definitions (s.scopes.bindings macros) (t.scopes.bindings macros) ∧
      t.callDepth = s.callDepth := by
  induction definitions generalizing s with
  | nil =>
    cases h
    exact ⟨⟨fun _ _ => rfl, fun _ _ hd => nomatch hd⟩, rfl⟩
  | cons d rest ih =>
    obtain ⟨addr, u, hfresh, h⟩ := bind_eq_some_iff.1 h
    obtain ⟨_, u', hset, hrest⟩ := bind_eq_some_iff.1 h
    cases hfresh
    cases hset
    obtain ⟨⟨hkept, hdefined⟩, hdepth⟩ := ih (by rwa [Scopes.size_set]) hrest
    rw [Scopes.bindings_set_self _ hmacros] at hkept
    refine ⟨⟨fun name hlast => ?_, fun name e hlast => ?_⟩, hdepth⟩
    -- a name that no definition has is kept by the first one and by the rest
    · rw [lastDefinition?_cons, Option.or_eq_none_iff] at hlast
      have hne : name ≠ d.name := by
        rintro rfl
        simp at hlast
      rw [hkept name hlast.1, Bindings.find?_set, if_neg hne]
    · rw [lastDefinition?_cons] at hlast
      -- a name that is defined again later has the later definition
      cases hlater : lastDefinition? name rest with
      | some later =>
        rw [hlater] at hlast
        cases hlast
        exact hdefined name _ hlater
      | none =>
        rw [hlater, Option.none_or] at hlast
        split at hlast
        · next heq =>
          cases hlast
          subst heq
          exact ⟨_, by rw [hkept d.name hlater, Bindings.find?_set_self]⟩
        · cases hlast

end

/-! ### Sessions -/

namespace Session

/-- From the session `σ` a source that cannot be expanded, because of the error `e`, leads to the
session `τ`. -/
structure ExpansionFailed (budget : Nat) (source : String) (e : ExpansionError) (σ τ : Session) :
    Prop where
  /-- No statement was evaluated: the outcome is the same whatever would evaluate the program. -/
  unevaluated : ∀ run, evalSourceWith budget σ.macros run source σ.state =
    some (.error (.expansion e), τ.state)
  session_eq : τ = { σ with state := τ.state }
  /-- All scopes that were there before, save the scope of macros, are as they were, -/
  get?_eq : ∀ id, id < σ.state.scopes.size → id ≠ σ.macros →
    τ.state.scopes.get? id = σ.state.scopes.get? id
  /-- and so is the scope of names. -/
  globals_eq : τ.state.scopes.get? σ.globals = σ.state.scopes.get? σ.globals
  callDepth_eq : τ.state.callDepth = σ.state.callDepth
  /-- The scope of macros binds what it bound before, overwritten by the definitions of the
  source. -/
  overwritten : Overwritten σ.macros (definedMacros source) (σ.state.scopes.bindings σ.macros)
    (τ.state.scopes.bindings σ.macros)
  outer?_eq : τ.state.scopes.outer? σ.macros = σ.state.scopes.outer? σ.macros

variable {σ τ : Session} {budget : Nat} {source : String}

/-- **A source that cannot be expanded** defines its macros, and changes no other scope. -/
theorem ExpansionFailed.of_run (hne : σ.globals ≠ σ.macros)
    (hglobals : σ.globals < σ.state.scopes.size) (hmacros : σ.macros < σ.state.scopes.size)
    {e : ExpansionError} (h : σ.run budget source = some (.error (.expansion e), τ)) :
    ExpansionFailed budget source e σ τ := by
  obtain ⟨hreading, hτ⟩ := reading_of_run h
  generalize τ.state = t at hreading hτ
  subst hτ
  cases hreading with
  | @unexpanded program u t e hsource =>
    have hdefined : definedMacros source = macroDefinitions program := by
      rw [definedMacros, hsource.parsed]
    -- definitions write to the scope of macros, and expansion to none that was there before
    have hbound := bindMacros_writesOnly σ.macros (macroDefinitions program) _ _ _ hsource.defined
    have hexpanded := expandMacros_writesOnly (evaluate_writesOnly budget) σ.macros
      (withoutMacroDefinitions program) _ _ _ hsource.expanded
    have hmacros' := Nat.lt_of_lt_of_le hmacros hbound.size_le
    have hothers : ∀ id, id < σ.state.scopes.size → id ≠ σ.macros →
        t.scopes.get? id = σ.state.scopes.get? id := fun id hid hne =>
      (hexpanded.get?_eq (Nat.lt_of_lt_of_le hid hbound.size_le) not_false).trans
        (hbound.get?_eq hid hne)
    obtain ⟨hover, hdepth⟩ := bindMacros_overwritten hmacros hsource.defined
    have hbindings : t.scopes.bindings σ.macros = u.scopes.bindings σ.macros := by
      rw [Scopes.bindings, Scopes.bindings, hexpanded.get?_eq hmacros' not_false]
    refine ⟨fun run => ?_, rfl, hothers, hothers _ hglobals hne, ?_, ?_, ?_⟩
    · exact evalSourceWith_eq_some_iff.2 (.unexpanded hsource)
    · exact (expandMacros_callDepth hsource.expanded).1.trans hdepth
    · rwa [hdefined, hbindings]
    · exact (hexpanded.outer?_eq hmacros').trans (hbound.outer?_eq hmacros)

/-- **A source that fails leaves the session as it should.**  Let the two scopes of the session be
there, and not be the same one.  If the source does not parse, nothing has changed at all.  If its
macros cannot be expanded, nothing of it was evaluated, as many calls count as active as before, and
nothing is bound in any scope that was there before but the macros that it defines. -/
theorem run_of_error (hne : σ.globals ≠ σ.macros) (hglobals : σ.globals < σ.state.scopes.size)
    (hmacros : σ.macros < σ.state.scopes.size) (budget : Nat) (source : String) (τ : Session) :
    (∀ errors, σ.run budget source = some (.error (.parse errors), τ) → τ = σ) ∧
    ∀ e, σ.run budget source = some (.error (.expansion e), τ) →
      ExpansionFailed budget source e σ τ := by
  refine ⟨fun errors h => ?_, fun e h => .of_run hne hglobals hmacros h⟩
  obtain ⟨hreading, hτ⟩ := reading_of_run h
  generalize τ.state = t at hreading hτ
  subst hτ
  cases hreading
  rfl

/-- The macro
`macro(x) { let h = launch(fn() { puts(x); 1 }); quote(unquote(x) + unquote(await(h))) }`, which
starts a task and awaits it. -/
def launchingMacro : MacroDefinition where
  name := "plusOne"
  params := ["x"]
  body := [
    .letBe "h" (.call (.ident "launch")
      [.fn [] [.expr (.call (.ident "puts") [.ident "x"]), .expr (.int 1)]]),
    .expr (.call (.ident "quote") [.binary .add (.call (.ident "unquote") [.ident "x"])
      (.call (.ident "unquote") [.call (.ident "await") [.ident "h"]])])]

/-- The session that has defined this macro and done nothing else. -/
def launchingSession : Session :=
  let new := Session.start 10 .empty
  { new with state := { new.state with
    nextAddress := 1
    scopes := new.state.scopes.set 1 "plusOne"
      (.macroFn 0 ⟨launchingMacro.params, launchingMacro.body, 1⟩) } }

/-- Why the macros of a source could not be expanded, if that is what its outcome says. -/
def expansionFailure? : Except SessionError (Option Value) → Option ExpansionError
  | .error (.expansion e) => some e
  | _ => none

theorem eq_of_expansionFailure? {reply : Except SessionError (Option Value)} {e : ExpansionError}
    (h : expansionFailure? reply = some e) : reply = .error (.expansion e) := by
  rcases reply with (errors | e') | v
  · cases h
  · cases h
    rfl
  · cases h

/-- In a session with a macro, a source that does not parse changes nothing; and a source that
defines a macro twice and calls it, where the second definition prints and yields no syntax, defines
it and prints. -/
theorem run_of_error_launching :
    let unread := "let = 1"
    let source :=
      "let m = macro() \x7b quote(2) \x7d; let m = macro() \x7b puts(3); 4 \x7d; puts(m());"
    (∃ errors τ, launchingSession.run 9 unread = some (.error (.parse errors), τ) ∧
      τ = launchingSession) ∧
    ∃ τ, launchingSession.run 9 source = some (.error (.expansion (.notQuoted "m" .integer)), τ) ∧
      ExpansionFailed 9 source (.notQuoted "m" .integer) launchingSession τ ∧
      τ.printed = "3\n" := by
  intro unread source
  have herror := @run_of_error launchingSession (by decide) (by decide) (by decide) 9
  constructor
  · have hparse : (parse unread).errors.isEmpty = false := by decide +kernel
    have hrun : launchingSession.run 9 unread =
        some (.error (.parse (parse unread).errors), launchingSession) := by
      unfold Session.run evalSource evalSourceOn Parsed.toExcept
      rw [hparse]
      rfl
    exact ⟨_, _, hrun, (herror unread _).1 _ hrun⟩
  -- the second definition of the macro counts, and what it gives is no quote
  · have hfails : (launchingSession.run 9 source).map
        (fun r => (expansionFailure? r.1, r.2.printed)) =
          some (some (.notQuoted "m" .integer), "3\n") := by decide +kernel
    obtain ⟨⟨reply, τ⟩, hrun, hreply⟩ := Option.map_eq_some_iff.1 hfails
    obtain ⟨hfailure, hprinted⟩ := Prod.mk.inj hreply
    obtain rfl := eq_of_expansionFailure? hfailure
    exact ⟨τ, hrun, (herror source τ).2 _ hrun, hprinted⟩

end Session

end Monkey
