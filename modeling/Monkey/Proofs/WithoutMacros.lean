import Monkey.Proofs.ExpandedPrograms
import Monkey.Proofs.MacroFree

/-!
# Programs without macros

Every source goes through the macro pass before it is evaluated, though most of them use no macros.
The pass takes definitions of macros out of the program, and looks for calls of macros in all the
rest.  Where it finds neither, the program that is evaluated is the one that was parsed, and the
pass leaves no trace in the state.

## Main definitions

* `Stmt.DefinesMacro` — definitions of macros.

## Main results

* `defineMacros_eq_filter` — the definitions of macros are taken out, and nothing else.
* `unused_macros_change_nothing` — **where no macro is used, the macro pass changes nothing.**
-/

namespace Monkey

open Eval (bind_eq_some_iff)

/-- The statement binds a macro literal to a name. -/
def Stmt.DefinesMacro (st : Stmt) : Prop :=
  ∃ name params body, st = .letBe name (.macroFn params body)

theorem Stmt.isSome_macroDefinition?_iff {st : Stmt} :
    st.macroDefinition?.isSome = true ↔ st.DefinesMacro := by
  unfold Stmt.macroDefinition? Stmt.DefinesMacro
  split
  · next name params body => exact iff_of_true rfl ⟨name, params, body, rfl⟩
  · next hother =>
    refine iff_of_false Bool.false_ne_true ?_
    rintro ⟨name, params, body, rfl⟩
    exact hother name params body rfl

instance : DecidablePred Stmt.DefinesMacro := fun _ =>
  decidable_of_iff _ Stmt.isSome_macroDefinition?_iff

theorem withoutMacroDefinitions_eq_filter (p : Program) :
    withoutMacroDefinitions p = p.filter fun st => ¬st.DefinesMacro := by
  refine List.filter_congr fun st _ => ?_
  rw [← Option.not_isSome, Bool.eq_iff_iff, decide_eq_true_iff, Bool.not_eq_true',
    ← Bool.not_eq_true, Stmt.isSome_macroDefinition?_iff]

theorem macroDefinitions_eq_nil {p : Program} (h : ∀ st ∈ p, ¬st.DefinesMacro) :
    macroDefinitions p = [] := by
  refine List.filterMap_eq_nil_iff.2 fun st hst => ?_
  rw [← Option.not_isSome_iff_eq_none, Stmt.isSome_macroDefinition?_iff]
  exact h st hst

theorem exists_run_bindMacros (macros : Nat) (defs : List MacroDefinition) (s : State) :
    ∃ t, bindMacros (m := Eval) macros defs s = some ((), t) := by
  induction defs generalizing s with
  | nil => exact ⟨s, rfl⟩
  | cons d rest ih => exact ih _

/-- The definitions of macros are taken out of a program, and nothing else is.  The other statements
keep their order. -/
theorem defineMacros_eq_filter (macros : Nat) (p : Program) (s : State) :
    ∃ t, defineMacros (m := Eval) macros p s = some (p.filter fun st => ¬st.DefinesMacro, t) ∧
      ((∀ st ∈ p, ¬st.DefinesMacro) → t = s) := by
  obtain ⟨t, hbind⟩ := exists_run_bindMacros macros (macroDefinitions p) s
  refine ⟨t, bind_eq_some_iff.2 ⟨(), t, hbind, ?_⟩, fun hnone => ?_⟩
  · rw [withoutMacroDefinitions_eq_filter]
    rfl
  · rw [macroDefinitions_eq_nil hnone] at hbind
    cases hbind
    rfl

/-- **Where no macro is used, the macro pass changes nothing.**  Of a program it keeps all the
statements but the definitions of macros, in order; without definitions it binds nothing.  If no
expression of a program, at any place, calls a name that is bound to a macro, expansion succeeds
with that program and leaves the state as it is.  So, in a session that knows no macros, reading a
source without errors that defines none, and that has a statement, is the same as evaluating the
parsed program in the scope of names: it has the same value and leaves the same state, or does not
end either. -/
theorem unused_macros_change_nothing :
    (∀ macros (p : Program) s,
      ∃ t, defineMacros (m := Eval) macros p s = some (p.filter fun st => ¬st.DefinesMacro, t) ∧
        ((∀ st ∈ p, ¬st.DefinesMacro) → t = s)) ∧
    (∀ (eval : Expr → Nat → Eval Value) macros (p : Program) s,
      (∀ st ∈ p, s.scopes.Expanded macros st.value) →
      expandMacros eval macros p s = some (.ok p, s)) ∧
    ∀ (σ : Session) budget source, σ.BindsNoMacro → (parse source).errors = [] →
      (parse source).program ≠ [] → (∀ st ∈ (parse source).program, ¬st.DefinesMacro) →
      σ.run budget source =
        (runProgram budget (parse source).program σ.globals σ.state).map fun r =>
          (.ok (some r.1), { σ with state := r.2 }) := by
  refine ⟨defineMacros_eq_filter, fun _ _ _ _ => expandMacros_of_expanded, ?_⟩
  intro σ budget source hmacros herrors hprogram hdefs
  have hparse : parse source = ⟨(parse source).program, []⟩ := by rw [← herrors]
  exact Session.run_eq_runProgram budget hmacros hprogram (macroDefinitions_eq_nil hdefs) hparse

/-- A function with a branch for every case, given the name of a macro that it does not call. -/
def branchingProgram : Program :=
  [.letBe "f" (.fn ["x"] [.expr (.cond (.ident "x") [.ret (.array [.ident "double"])]
      (some [.expr (.hash [(.int 2, .ident "x"), (.int 1, .macroFn [] [])])]))]),
    .expr (.index (.call (.ident "f") [.ident "double"]) (.int 0))]

/-- A macro that is bound but not called, and a session that reads its first source. -/
theorem unused_macros_change_nothing_branching :
    expandMacros (evaluate 5) 0 branchingProgram doublingMacros =
        some (.ok branchingProgram, doublingMacros) ∧
      let σ := Session.start 10 .empty
      let source := "let f = fn(x) \x7b if (x) \x7b 1 \x7d else \x7b " ++
        "puts(\x7b2: x, 1: 3\x7d) \x7d \x7d; f(false)"
      σ.run 9 source = (runProgram 9 (parse source).program σ.globals σ.state).map (fun r =>
          (.ok (some r.1), { σ with state := r.2 })) ∧
        (σ.run 9 source).map (fun r => r.2.printed) = some "\x7b1: 3, 2: false\x7d\n" := by
  obtain ⟨-, hexpand, hrun⟩ := unused_macros_change_nothing
  refine ⟨hexpand _ _ _ _ (by decide +kernel), ?_⟩
  intro σ source
  refine ⟨hrun σ 9 source (Session.bindsNoMacro_start 10 .empty) ?_ ?_ ?_, ?_⟩
  all_goals decide +kernel

end Monkey
