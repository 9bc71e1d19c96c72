import Monkey.Proofs.EarlyExit

/-!
# Calls of macros

Expansion looks at every expression of a program, and does something only where it finds the call of
a name that is bound to a macro.  It takes the program apart and puts it together again all the
same.  A program in which there is no such call comes out as it went in, and nothing else changes
either.

## Main definitions

* `Scopes.CallsMacro`, `Scopes.Expanded` — calls of macros, and expressions without any.

## Main results

* `expandMacros_of_expanded` — **without calls of macros expansion changes nothing.**
-/

namespace Monkey

open Eval

/-! ### Calls of macros -/

namespace Scopes

/-- The expression is a call of a name that has a macro for its value. -/
def CallsMacro (s : Scopes) (macros : Nat) (e : Expr) : Prop :=
  ∃ name args addr mac, e = .call (.ident name) args ∧
    s.find? macros name = some (.macroFn addr mac)

/-- There is no call of a macro at any place in the expression. -/
def Expanded (s : Scopes) (macros : Nat) (e : Expr) : Prop := e.All fun p => ¬s.CallsMacro macros p

variable {s t : Scopes} {macros : Nat} {e : Expr}

theorem callsMacro_iff : s.CallsMacro macros e ↔
    (e.namedCall?.bind fun call => s.find? macros call.1).map Value.type = some .macroFn := by
  unfold CallsMacro Expr.namedCall?
  split
  · next name args =>
    simp only [Expr.call.injEq, Expr.ident.injEq, Option.bind_some, Option.map_eq_some_iff]
    constructor
    · rintro ⟨_, _, addr, mac, ⟨rfl, rfl⟩, hfound⟩
      exact ⟨_, hfound, rfl⟩
    · rintro ⟨v, hfound, htype⟩
      cases v with
      | macroFn addr mac => exact ⟨_, _, addr, mac, ⟨rfl, rfl⟩, hfound⟩
      | _ => cases htype
  · next hcall =>
    refine ⟨?_, nofun⟩
    rintro ⟨name, args, addr, mac, rfl, -⟩
    exact absurd rfl (hcall name args)

instance (s : Scopes) (macros : Nat) : DecidablePred (s.CallsMacro macros) := fun _ =>
  decidable_of_iff _ callsMacro_iff.symm

instance (s : Scopes) (macros : Nat) : DecidablePred (s.Expanded macros) := fun e =>
  inferInstanceAs (Decidable (e.All fun p => ¬s.CallsMacro macros p))

/-- The same calls are calls of macros later on. -/
theorem Grown.callsMacro_iff (h : s.Grown noScope t) (hmacros : macros < s.size) :
    t.CallsMacro macros e ↔ s.CallsMacro macros e := by
  simp only [CallsMacro, h.find?_eq _ hmacros]

end Scopes

/-! ### Expansion without calls of macros -/

section

variable {eval : Expr → Nat → Eval Value} {macros : Nat} {s : State}

/-- What is no call of a macro is not answered. -/
theorem expansion_of_not_callsMacro {e : Expr} (h : ¬s.scopes.CallsMacro macros e) :
    expansion eval macros e s = some (none, s) := by
  unfold expansion
  cases hcall : e.namedCall? with
  | none => rfl
  | some call =>
    obtain ⟨name, args⟩ := call
    refine bind_eq_some_iff.2 ⟨s.scopes.find? macros name, s, rfl, ?_⟩
    rw [Scopes.callsMacro_iff, hcall, Option.bind_some] at h
    -- the name is bound to nothing, or to what is no macro
    cases hfound : s.scopes.find? macros name with
    | none => rfl
    | some v =>
      cases v with
      | macroFn addr mac => exact absurd (congrArg (Option.map Value.type) hfound) h
      | _ => rfl

/-- A walk through an expression without calls of macros gives the expression. -/
theorem run_walkM_of_expanded (e : Expr) (h : s.scopes.Expanded macros e) :
    (e.walkM (abortingVisit (expansion eval macros))).run s = some (.ok e, s) := by
  obtain ⟨he, hparts⟩ := Expr.all_iff.1 h
  have hwalks := run_mapM_eq (g := id) fun p hp => run_walkM_of_expanded p (hparts p hp)
  rw [Expr.walkM_eq, run_bind_of_ok hwalks, List.map_id, Expr.withParts_parts, run_abortingVisit]
  exact bind_eq_some_iff.2 ⟨none, s, expansion_of_not_callsMacro he, rfl⟩
termination_by sizeOf e
decreasing_by exact Expr.sizeOf_lt_of_mem_parts hp

/-- **Without calls of macros expansion changes nothing.** -/
theorem expandMacros_of_expanded {p : Program}
    (h : ∀ st ∈ p, s.scopes.Expanded macros st.value) :
    expandMacros eval macros p s = some (.ok p, s) := by
  have hvalue : ∀ e ∈ p.map Stmt.value,
      (e.walkM (abortingVisit (expansion eval macros))).run s = some (.ok e, s) := by
    intro e he
    obtain ⟨st, hst, rfl⟩ := List.mem_map.1 he
    exact run_walkM_of_expanded st.value (h st hst)
  have hwalks := run_mapM_eq (g := id) hvalue
  rw [expandMacros_eq, Block.rewriteM_flagged, Block.walkM, run_bind_of_ok hwalks, List.map_id,
    Block.withValues_values]
  rfl

end

end Monkey
