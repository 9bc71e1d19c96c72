import Monkey.Evaluation

/-!
# Macros

Macros are known before a program is evaluated.  The definitions at the top level of a program are
taken out of it and bound in a scope of their own; then every call of a macro is replaced by the
syntax that the body of the macro yields.  The arguments reach the body as quoted syntax.  Calls are
expanded in the order in which rewriting meets them, and none after the first failure.

## Main definitions

* `ExpansionError` — why a call cannot be expanded.
* `Stmt.macroDefinition?`, `defineMacros` — the definitions of a program.
* `expandCall`, `expandMacros` — the expansion of a call and of a program.
-/

namespace Monkey

open Machine

universe u

/-- Why a call of a macro cannot be expanded. -/
inductive ExpansionError
  /-- The body yielded a value that is no syntax. -/
  | notQuoted (name : String) (type : ValueType)
  /-- The body yielded an error. -/
  | failed (name message : String)
  /-- There are fewer arguments than parameters. -/
  | wrongArity (name : String) (want got : Nat)
  deriving DecidableEq, Repr, Inhabited

/-- The wording of an expansion error. -/
def ExpansionError.message : ExpansionError → String
  | .notQuoted name type =>
    "macro `" ++ name ++ "` must return quoted code, got " ++ type.name
  | .failed name message => "macro `" ++ name ++ "` failed: " ++ message
  | .wrongArity name want got =>
    "macro `" ++ name ++ "` expects " ++ toString want ++ " arguments, got " ++ toString got

/-- The definition of a macro: its name, its parameters and its body. -/
structure MacroDefinition where
  name : String
  params : List String
  body : Block
  deriving Inhabited

/-- The definition that a statement makes, if it binds a macro literal. -/
def Stmt.macroDefinition? : Stmt → Option MacroDefinition
  | .letBe name (.macroFn params body) => some ⟨name, params, body⟩
  | _ => none

/-- The macros that a program defines at its top level, in order. -/
def macroDefinitions (p : Program) : List MacroDefinition := p.filterMap Stmt.macroDefinition?

/-- The statements of a program that define no macro. -/
def withoutMacroDefinitions (p : Program) : Program :=
  p.filter fun s => s.macroDefinition?.isNone

section

variable {m : Type → Type u} [Monad m] [Machine m]

/-- Binds macros in the scope of macros, which they are closed over. -/
@[specialize] def bindMacros (macros : Nat) : List MacroDefinition → m Unit
  | [] => return ()
  | d :: rest => do
    let addr ← act .fresh
    act (.setName macros d.name (.macroFn addr ⟨d.params, d.body, macros⟩))
    bindMacros macros rest

/-- Binds the macros of a program, and gives the rest of the program. -/
@[specialize] def defineMacros (macros : Nat) (p : Program) : m Program := do
  bindMacros macros (macroDefinitions p)
  return withoutMacroDefinitions p

end

/-- The name and the arguments of a call of a name. -/
def Expr.namedCall? : Expr → Option (String × List Expr)
  | .call (.ident name) args => some (name, args)
  | _ => none

section

variable {m : Type → Type u} [Monad m] [Machine m]

/-- Gives each parameter the syntax of its argument. -/
@[specialize] def bindQuoted (scope : Nat) : List (String × Expr) → m Unit
  | [] => return ()
  | (name, e) :: rest => do
    let addr ← act .fresh
    act (.setName scope name (.quote addr e))
    bindQuoted scope rest

variable (eval : Expr → Nat → m Value)

/-- The syntax that a macro makes of its arguments. -/
@[specialize] def expandCall (name : String) (mac : Closure) (args : List Expr) :
    m (Except ExpansionError Expr) := do
  if args.length < mac.params.length then
    return .error (.wrongArity name mac.params.length args.length)
  else
    let scope ← act (.newScope (some mac.scope))
    bindQuoted scope (mac.params.zip args)
    let v ← evalBody eval mac.body scope
    match v.unwrapReturn with
    | .quote _ e => return .ok e
    | .error _ message => return .error (.failed name message)
    | other => return .error (.notQuoted name other.type)

/-- Replaces a call of a macro by its expansion.  The state holds the first failure; after it every
expression stays as it is. -/
@[specialize] def expandVisit (macros : Nat) (e : Expr) :
    StateT (Option ExpansionError) m Expr := do
  match ← get with
  | some _ => return e
  | none =>
    match e.namedCall? with
    | none => return e
    | some (name, args) =>
      match ← (find macros name : m (Option Value)) with
      | some (.macroFn _ mac) =>
        match ← (expandCall eval name mac args : m (Except ExpansionError Expr)) with
        | .ok node => return node
        | .error err =>
          set (some err)
          return e
      | _ => return e

/-- Expands every call of a macro in a program. -/
@[specialize] def expandMacros (macros : Nat) (p : Program) :
    m (Except ExpansionError Program) := do
  let (expanded, failure) ← (Block.rewriteM (expandVisit eval macros) p).run none
  match failure with
  | some err => return .error err
  | none => return .ok expanded

end

end Monkey
