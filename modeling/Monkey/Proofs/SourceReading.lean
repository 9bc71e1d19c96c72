import Monkey.Proofs.Runs
import Monkey.Session

/-!
# How reading a source goes

Reading a source goes one of four ways: it does not parse; its macros cannot be expanded; nothing is
left of it after expansion; or what is left is evaluated.  What evaluates it is left to an argument,
so that it can be said that it has no part in the first three.

## Main definitions

* `definedMacros` — the macros that a source defines.
* `evalSourceWith` — reading a source, with anything for the evaluation of its program.
* `SourceExpansion`, `SourceReading` — how a source is expanded, and the four ways.

## Main results

* `evalSourceWith_eq_some_iff` — **reading a source goes one of these ways.**
-/

namespace Monkey

open Eval (bind_eq_some_iff)

/-- The macros that a source defines; there are none if it does not parse. -/
def definedMacros (source : String) : List MacroDefinition :=
  match (parse source).toExcept with
  | .ok program => macroDefinitions program
  | .error _ => []

/-- What comes after the expansion of a program, where `run` is what evaluates it. -/
def evalExpanded (run : Program → Eval Value) :
    Except ExpansionError Program → Eval (Except SessionError (Option Value))
  | .error err => return .error (.expansion err)
  | .ok [] => return .ok none
  | .ok program => do
    let v ← run program
    return .ok (some v)

/-- Reads a source, where `run` is what evaluates its program. -/
def evalSourceWith (budget macros : Nat) (run : Program → Eval Value) (source : String) :
    Eval (Except SessionError (Option Value)) :=
  match (parse source).toExcept with
  | .error errors => return .error (.parse errors)
  | .ok program => do
    let program ← defineMacros macros program
    let expanded ← expandMacros (evaluate budget) macros program
    evalExpanded run expanded

theorem evalSource_eq_evalSourceWith (budget globals macros : Nat) (source : String) :
    evalSource budget globals macros source =
      evalSourceWith budget macros (fun program => runProgram budget program globals) source := rfl

/-- From the state `s` on, a source is parsed, the macros that it defines are bound, leading to the
state `u`, and the macros in the rest are expanded, leading to the state `t`. -/
structure SourceExpansion (budget macros : Nat) (source : String) (s : State)
    (reply : Except ExpansionError Program) (t : State) (program : Program) (u : State) : Prop where
  parsed : (parse source).toExcept = .ok program
  defined : bindMacros (m := Eval) macros (macroDefinitions program) s = some ((), u)
  expanded : expandMacros (evaluate budget) macros (withoutMacroDefinitions program) u =
    some (reply, t)

/-- How reading a source goes, from a state on. -/
inductive SourceReading (budget macros : Nat) (run : Program → Eval Value) (source : String)
    (s : State) : Except SessionError (Option Value) → State → Prop
  | unread {errors : List ParseError} : (parse source).toExcept = .error errors →
    SourceReading budget macros run source s (.error (.parse errors)) s
  | unexpanded {program : Program} {u t : State} {e : ExpansionError} :
    SourceExpansion budget macros source s (.error e) t program u →
    SourceReading budget macros run source s (.error (.expansion e)) t
  | empty {program : Program} {u t : State} :
    SourceExpansion budget macros source s (.ok []) t program u →
    SourceReading budget macros run source s (.ok none) t
  | evaluated {program rest : Program} {u u' t : State} {v : Value} :
    SourceExpansion budget macros source s (.ok rest) u' program u → rest ≠ [] →
    run rest u' = some (v, t) → SourceReading budget macros run source s (.ok (some v)) t

section

variable {budget macros : Nat} {run : Program → Eval Value} {source : String} {s t : State}
  {reply : Except SessionError (Option Value)}

/-- What has been parsed, defined and expanded is what reading goes on with. -/
theorem SourceExpansion.evalSourceWith_eq {expanded : Except ExpansionError Program}
    {program : Program} {u v : State}
    (h : SourceExpansion budget macros source s expanded v program u) :
    evalSourceWith budget macros run source s = evalExpanded run expanded v := by
  have hdefine : defineMacros (m := Eval) macros program s =
      some (withoutMacroDefinitions program, u) :=
    bind_eq_some_iff.2 ⟨(), u, h.defined, rfl⟩
  rw [evalSourceWith, h.parsed]
  dsimp only
  rw [Eval.bind_apply, hdefine, Option.bind_some, Eval.bind_apply, h.expanded, Option.bind_some]

/-- A source that parses is expanded before anything else is done. -/
theorem exists_sourceExpansion {program : Program} (hparse : (parse source).toExcept = .ok program)
    (h : evalSourceWith budget macros run source s = some (reply, t)) :
    ∃ expanded u v, SourceExpansion budget macros source s expanded v program u ∧
      evalExpanded run expanded v = some (reply, t) := by
  rw [evalSourceWith, hparse] at h
  obtain ⟨rest, u, hdefine, h⟩ := bind_eq_some_iff.1 h
  obtain ⟨_, u', hbind, hrest⟩ := bind_eq_some_iff.1 hdefine
  cases hrest
  obtain ⟨expanded, v, hexpand, hend⟩ := bind_eq_some_iff.1 h
  exact ⟨expanded, u, v, ⟨hparse, hbind, hexpand⟩, hend⟩

/-- **Reading a source goes one of four ways.** -/
theorem evalSourceWith_eq_some_iff :
    evalSourceWith budget macros run source s = some (reply, t) ↔
      SourceReading budget macros run source s reply t := by
  constructor
  · intro h
    cases hparse : (parse source).toExcept with
    | error errors =>
      rw [evalSourceWith, hparse] at h
      cases h
      exact .unread hparse
    | ok program =>
      obtain ⟨expanded, u, v, hexpansion, hend⟩ := exists_sourceExpansion hparse h
      -- the expansion fails, or leaves nothing, or a program with statements
      rcases expanded with err | (_ | ⟨st, more⟩)
      · cases hend
        exact .unexpanded hexpansion
      · cases hend
        exact .empty hexpansion
      · obtain ⟨w, u', hrun, hreply⟩ := bind_eq_some_iff.1 hend
        cases hreply
        exact .evaluated hexpansion (List.cons_ne_nil st more) hrun
  · intro h
    cases h with
    | unread hparse =>
      rw [evalSourceWith, hparse]
      rfl
    | unexpanded hexpansion | empty hexpansion =>
      rw [hexpansion.evalSourceWith_eq]
      rfl
    | evaluated hexpansion hne hrun =>
      obtain ⟨st, more, rfl⟩ := List.exists_cons_of_ne_nil hne
      rw [hexpansion.evalSourceWith_eq]
      exact bind_eq_some_iff.2 ⟨_, _, hrun, rfl⟩

end

namespace Session

variable {σ τ : Session} {budget : Nat} {source : String}

/-- What a session was before, and what it is after a source. -/
theorem evalSource_of_run {reply : Except SessionError (Option Value)}
    (h : σ.run budget source = some (reply, τ)) :
    evalSource budget σ.globals σ.macros source σ.state = some (reply, τ.state) ∧
      τ = { σ with state := τ.state } := by
  unfold run at h
  cases heval : evalSource budget σ.globals σ.macros source σ.state with
  | none =>
    rw [heval] at h
    cases h
  | some r =>
    rw [heval] at h
    cases h
    exact ⟨rfl, rfl⟩

/-- A session reads a source in one of the four ways. -/
theorem reading_of_run {reply : Except SessionError (Option Value)}
    (h : σ.run budget source = some (reply, τ)) :
    SourceReading budget σ.macros (fun program => runProgram budget program σ.globals) source
      σ.state reply τ.state ∧ τ = { σ with state := τ.state } := by
  obtain ⟨heval, hτ⟩ := evalSource_of_run h
  rw [evalSource_eq_evalSourceWith] at heval
  exact ⟨evalSourceWith_eq_some_iff.1 heval, hτ⟩

end Session

end Monkey
