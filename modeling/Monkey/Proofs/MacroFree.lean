import Monkey.Expr.Equality
import Monkey.Proofs.MacroCalls
import Monkey.Proofs.SourceReading

/-!
# Sessions that know no macros

Where no macro is bound in the scope of macros, and the source that is read defines none, expansion
leaves the statements of the source as they are.  Reading it is parsing it and running its program.

## Main definitions

* `Session.Separate` — macros are bound in a scope of their own.
* `Session.BindsNoMacro` — no macro is bound there.

## Main results

* `expandMacros_of_bindsNoMacro` — **without macros expansion changes nothing.**
* `Session.run_of_bindsNoMacro` — reading a source without macros.
-/

namespace Monkey

open Eval

/-! ### Expansion without macros -/

/-- **Without macros expansion changes nothing.** -/
theorem expandMacros_of_bindsNoMacro (eval : Expr → Nat → Eval Value) {macros : Nat} {st : State}
    (h : ∀ name addr mac, st.scopes.find? macros name ≠ some (.macroFn addr mac)) (p : Program) :
    expandMacros eval macros p st = some (.ok p, st) := by
  refine expandMacros_of_expanded fun s _ e _ => ?_
  rintro ⟨name, args, addr, mac, -, hfound⟩
  exact h name addr mac hfound

/-- A program without definitions of macros stays as it is. -/
theorem withoutMacroDefinitions_of_eq_nil {p : Program} (h : macroDefinitions p = []) :
    withoutMacroDefinitions p = p := by
  rw [withoutMacroDefinitions, List.filter_eq_self]
  intro s hs
  rw [List.filterMap_eq_nil_iff.1 h s hs]
  rfl

/-! ### Sessions without macros -/

namespace Session

/-- The macros of a session are bound in a scope of their own, which lies inside no other one. -/
structure Separate (σ : Session) : Prop where
  globals_ne : σ.globals ≠ σ.macros
  macros_lt : σ.macros < σ.state.scopes.size
  outer?_eq : σ.state.scopes.outer? σ.macros = none

/-- No macro is bound in the scope of macros. -/
def BindsNoMacro (σ : Session) : Prop :=
  ∀ name addr mac, σ.state.scopes.find? σ.macros name ≠ some (.macroFn addr mac)

theorem bindsNoMacro_start (maxCallDepth : Nat) (output : Output) :
    (start maxCallDepth output).BindsNoMacro := by
  intro name addr mac hfound
  rw [Scopes.find?_eq_or] at hfound
  cases hfound

end Session

/-- Definitions of macros bind names in the scope of macros. -/
theorem bindMacros_writesOnly (macros : Nat) (defs : List MacroDefinition) :
    WritesOnly (· = macros) (bindMacros macros defs) := by
  induction defs with
  | nil => exact .pure _
  | cons d rest ih =>
    exact .bind .fresh fun addr => .bind (.setName (by rfl) d.name _) fun _ => ih

namespace Session

variable {σ : Session} {source : String}

/-- What changes in the scope of names binds no macro. -/
theorem BindsNoMacro.grown (hσ : σ.Separate) (hmacros : σ.BindsNoMacro) {t : State}
    (hgrown : σ.state.scopes.Grown (· = σ.globals) t.scopes) :
    BindsNoMacro { σ with state := t } := by
  have hget := hgrown.get?_eq hσ.macros_lt (Ne.symm hσ.globals_ne)
  intro name
  have hfind : t.scopes.find? σ.macros name = σ.state.scopes.find? σ.macros name := by
    have houter := (hgrown.outer?_eq hσ.macros_lt).trans hσ.outer?_eq
    rw [Scopes.find?_eq_or, Scopes.find?_eq_or, houter, hσ.outer?_eq, Scopes.bindings,
      Scopes.bindings, hget]
    rfl
  show ∀ addr mac, t.scopes.find? σ.macros name ≠ _
  rw [hfind]
  exact hmacros name

/-- Where there are no macros, reading a source is parsing it and running its program. -/
theorem run_of_bindsNoMacro (budget : Nat) (hmacros : σ.BindsNoMacro)
    (hdefs : macroDefinitions (parse source).program = []) :
    σ.run budget source =
      match (parse source).errors, (parse source).program with
      | [], [] => some (.ok none, σ)
      | [], s :: rest =>
        (Monkey.runProgram budget (s :: rest) σ.globals σ.state).map fun r =>
          (.ok (some r.1), { σ with state := r.2 })
      | errors, _ => some (.error (.parse errors), σ) := by
  unfold run
  rw [evalSource_eq_evalSourceWith]
  unfold evalSourceWith
  generalize parse source = parsed at hdefs ⊢
  obtain ⟨p, errors⟩ := parsed
  cases errors with
  | cons e more => rfl
  | nil =>
    -- nothing is defined, and nothing is expanded
    have hdefine : defineMacros (m := Eval) σ.macros p σ.state = some (p, σ.state) := by
      rw [defineMacros, hdefs, withoutMacroDefinitions_of_eq_nil hdefs]
      rfl
    have hexpand := expandMacros_of_bindsNoMacro (evaluate budget) hmacros p
    have hexcept : Parsed.toExcept ⟨p, []⟩ = .ok p := rfl
    rw [hexcept]
    dsimp only
    rw [bind_apply, hdefine, Option.bind_some, bind_apply, hexpand, Option.bind_some]
    cases p with
    | nil => rfl
    | cons s rest =>
      dsimp only
      simp only [evalExpanded, bind_apply]
      cases Monkey.runProgram budget (s :: rest) σ.globals σ.state <;> rfl

/-- A source with statements and without errors. -/
theorem run_eq_runProgram (budget : Nat) (hmacros : σ.BindsNoMacro) {p : Program} (hp : p ≠ [])
    (hdefs : macroDefinitions p = []) (hparse : parse source = ⟨p, []⟩) :
    σ.run budget source = (Monkey.runProgram budget p σ.globals σ.state).map fun r =>
      (.ok (some r.1), { σ with state := r.2 }) := by
  obtain ⟨s, rest, rfl⟩ := List.exists_cons_of_ne_nil hp
  rw [run_of_bindsNoMacro budget hmacros (by rw [hparse]; exact hdefs), hparse]

end Session

end Monkey
