import Monkey.Proofs.Expanding
import Monkey.Proofs.Traversal

/-!
# Traversals that stop early

Expansion and `quote` rewrite a whole tree, also after something has failed: a flag then keeps their
visits from doing anything more.  That comes to the same as a walk in a monad of exceptions, which
goes no further than the first failure.  It has the same result and leaves the same state, and up to
the failure the same has been tried in the same order.

## Main definitions

* `expansion`, `unquotation` — what becomes of one expression.
* `flaggedVisit`, `abortingVisit` — visits that set a flag, and visits that raise an exception.
* `Attempt`, `Noting`, `noted` — attempts to replace an expression, and evaluations that note them.
* `expandMacrosNoting`, `expandMacrosAborting` — the expansion of a program with its attempts, as it
  is and as an aborting walk.
* `substituteNoting`, `substituteAborting` — the same for what `quote` does to its argument.

## Main results

* `Block.rewriteM_flagged` — **a traversal with a flag ends as the walk that aborts.**
* `traversals_stop_early` — **so do expansion and `quote`.**
-/

namespace Monkey

open Eval

/-! ### Flags and exceptions -/

section

variable {m : Type → Type} [Monad m] {ε : Type} (answer : Expr → m (Option (Except ε Expr)))

/-- Replaces an expression as it is answered.  The state holds the first failure; after it every
expression stays as it is. -/
def flaggedVisit (e : Expr) : StateT (Option ε) m Expr := do
  match ← get with
  | some _ => return e
  | none =>
    match ← answer e with
    | none => return e
    | some (.ok node) => return node
    | some (.error err) =>
      set (some err)
      return e

/-- Replaces an expression as it is answered, and aborts where that fails. -/
def abortingVisit (e : Expr) : ExceptT ε m Expr := do
  match ← answer e with
  | none => return e
  | some (.ok node) => return node
  | some (.error err) => throw err

/-- How a traversal with a flag ends: what it gives counts only if the flag is not set. -/
def flaggedResult {α : Type} : α × Option ε → Except ε α
  | (a, none) => .ok a
  | (_, some err) => .error err

variable [LawfulMonad m]

/-- A traversal with a flag that ends as one with exceptions, and does nothing once the flag is
set. -/
def earlyExit (m : Type → Type) [Monad m] [LawfulMonad m] (ε : Type) :
    EffectRelation (StateT (Option ε) m) (ExceptT ε m) where
  Related x y := flaggedResult <$> x.run none = y.run ∧
    ∀ err, ∃ a, x.run (some err) = pure (a, some err)
  pure a := ⟨by simp [flaggedResult], fun err => ⟨a, rfl⟩⟩
  bind {α β x y k l} hx hk := by
    obtain ⟨hxy, hflagged⟩ := hx
    refine ⟨?_, fun err => ?_⟩
    · rw [StateT.run_bind, ExceptT.run_bind, ← hxy, map_bind, bind_map_left]
      refine bind_congr fun p => ?_
      obtain ⟨a, _ | err⟩ := p
      · exact (hk a).1
      · -- from the failure on nothing is done any more
        obtain ⟨b, hb⟩ := (hk a).2 err
        change flaggedResult <$> (k a).run (some err) = _
        rw [hb, map_pure]
        rfl
    · obtain ⟨a, ha⟩ := hflagged err
      obtain ⟨b, hb⟩ := (hk a).2 err
      exact ⟨b, by rw [StateT.run_bind, ha, pure_bind, hb]⟩

theorem run_flaggedVisit_some (e : Expr) (err : ε) :
    (flaggedVisit answer e).run (some err) = pure (e, some err) := by
  simp only [flaggedVisit, StateT.run_bind, StateT.run_get, pure_bind, StateT.run_pure]

theorem run_flaggedVisit_none (e : Expr) :
    (flaggedVisit answer e).run none = answer e >>= fun reply =>
      pure (match reply with
        | none => (e, none)
        | some (.ok node) => (node, none)
        | some (.error err) => (e, some err)) := by
  simp only [flaggedVisit, StateT.run_bind, StateT.run_get, pure_bind, StateT.run_monadLift,
    monadLift_self, bind_assoc]
  refine bind_congr fun reply => ?_
  rcases reply with _ | err | node
  · rfl
  · simp only [StateT.run_bind, StateT.run_set, pure_bind, StateT.run_pure]
  · rfl

theorem run_abortingVisit (e : Expr) :
    (abortingVisit answer e).run = answer e >>= fun reply =>
      pure (match reply with
        | none => .ok e
        | some reply => reply) := by
  simp only [abortingVisit, ExceptT.run_bind, ExceptT.run_liftM, bind_map_left]
  refine bind_congr fun reply => ?_
  rcases reply with _ | err | node <;> rfl

theorem flaggedVisit_earlyExit (e : Expr) :
    (earlyExit m ε).Related (flaggedVisit answer e) (abortingVisit answer e) := by
  refine ⟨?_, fun err => ⟨e, run_flaggedVisit_some answer e err⟩⟩
  rw [run_flaggedVisit_none, run_abortingVisit, map_bind]
  refine bind_congr fun reply => ?_
  rw [map_pure]
  rcases reply with _ | node | err <;> rfl

/-- **A traversal of an expression with a flag ends as the walk that aborts.** -/
theorem Expr.rewriteM_flagged (e : Expr) :
    flaggedResult <$> (e.rewriteM (flaggedVisit answer)).run none =
      (e.walkM (abortingVisit answer)).run := by
  rw [← Expr.rewriteM_eq_walkM]
  exact (Expr.rewriteM_related (earlyExit m ε) (flaggedVisit_earlyExit answer) e).1

/-- **A traversal of statements with a flag ends as the walk that aborts.** -/
theorem Block.rewriteM_flagged (body : Block) :
    flaggedResult <$> (body.rewriteM (flaggedVisit answer)).run none =
      (body.walkM (abortingVisit answer)).run := by
  rw [← Block.rewriteM_eq_walkM]
  exact (rewriteStmtsM_related (earlyExit m ε) (flaggedVisit_earlyExit answer) body).1

end

/-! ### Evaluations with exceptions -/

section

variable {α β ε : Type} {s t : State}

/-- After a part that raises nothing, the rest runs from where that part ends. -/
theorem run_bind_of_ok {x : ExceptT ε Eval α} {k : α → ExceptT ε Eval β} {a : α}
    (h : x.run s = some (.ok a, t)) : (x >>= k).run s = (k a).run t := by
  rw [ExceptT.run_bind, Eval.bind_apply, h]
  rfl

/-- Where nothing is raised for any entry of a list, and the state stays as it is, so it is for the
whole list. -/
theorem run_mapM_eq {f : α → ExceptT ε Eval β} {g : α → β} {as : List α}
    (h : ∀ a ∈ as, (f a).run s = some (.ok (g a), s)) :
    (as.mapM f).run s = some (.ok (as.map g), s) := by
  induction as with
  | nil =>
    rw [List.mapM_nil]
    rfl
  | cons a as ih =>
    obtain ⟨ha, has⟩ := List.forall_mem_cons.1 h
    rw [List.mapM_cons, run_bind_of_ok ha, run_bind_of_ok (ih has)]
    rfl

end

/-! ### What becomes of an expression -/

section

variable (eval : Expr → Nat → Eval Value)

/-- What expansion makes of an expression: a call of a macro gives way to what the macro makes of
it, and nothing else does. -/
def expansion (macros : Nat) (e : Expr) : Eval (Option (Except ExpansionError Expr)) :=
  match e.namedCall? with
  | none => return none
  | some (name, args) => do
    match ← findName macros name with
    | some (.macroFn _ mac) =>
      let reply ← expandCall eval name mac args
      return some reply
    | _ => return none

/-- What `quote` makes of an expression: a call of `unquote` gives way to the literal of the value
of its argument, if the value has one, and nothing else does. -/
def unquotation (scope : Nat) (e : Expr) : Eval (Option (Except Value Expr)) :=
  match e.unquoted? with
  | none => return none
  | some argument => do
    let v ← eval argument scope
    let value := v.unwrapReturn
    if value.isError then return some (.error value)
    else return some (.ok (value.toExpr?.getD e))

theorem expandVisit_eq (macros : Nat) :
    expandVisit eval macros = flaggedVisit (expansion eval macros) := by
  refine funext fun e => StateT.ext fun failure => ?_
  cases failure with
  | some err => rw [run_expandVisit_some, run_flaggedVisit_some]
  | none =>
    rw [run_expandVisit_none, run_flaggedVisit_none, expansion]
    -- all of this is an expansion of a macro, unless something else stands in the way
    cases e.namedCall? with
    | none => rfl
    | some named =>
      obtain ⟨name, args⟩ := named
      simp only [bind_assoc]
      refine bind_congr fun found => ?_
      cases found with
      | none => rfl
      | some v =>
        cases v with
        | macroFn addr mac =>
          simp only [bind_assoc, pure_bind]
          refine bind_congr fun reply => ?_
          cases reply <;> rfl
        | _ => rfl

theorem unquoteVisit_eq (scope : Nat) :
    unquoteVisit eval scope = flaggedVisit (unquotation eval scope) := by
  refine funext fun e => StateT.ext fun failure => ?_
  cases failure with
  | some err => rw [run_unquoteVisit_some, run_flaggedVisit_some]
  | none =>
    rw [run_unquoteVisit_none, run_flaggedVisit_none, unquotation]
    cases e.unquoted? with
    | none => rfl
    | some argument =>
      simp only [bind_assoc]
      refine bind_congr fun v => ?_
      split <;> rfl

/-- Expansion is a traversal with a flag. -/
theorem expandMacros_eq (macros : Nat) (p : Program) :
    expandMacros eval macros p =
      flaggedResult <$> (Block.rewriteM (flaggedVisit (expansion eval macros)) p).run none := by
  rw [expandMacros, expandVisit_eq, map_eq_pure_bind]
  refine bind_congr fun q => ?_
  obtain ⟨expanded, _ | err⟩ := q <;> rfl

/-- So is what `quote` does to its argument. -/
theorem quoteArgs_eq (e : Expr) (rest : List Expr) (scope : Nat) :
    quoteArgs eval (e :: rest) scope = do
      match ← flaggedResult <$> (e.rewriteM (flaggedVisit (unquotation eval scope))).run none with
      | .error err => return err
      | .ok node =>
        let addr ← fresh
        return .quote addr node := by
  rw [quoteArgs, unquoteVisit_eq, bind_map_left]
  refine bind_congr fun q => ?_
  obtain ⟨node, _ | err⟩ := q <;> rfl

end

/-! ### Attempts -/

/-- An attempt to replace an expression. -/
structure Attempt (ε : Type) where
  /-- The expression, with what its parts have become. -/
  node : Expr
  /-- What takes its place, or the failure. -/
  reply : Except ε Expr

/-- Evaluations that note the attempts to replace expressions, in order. -/
abbrev Noting (ε : Type) := StateT (List (Attempt ε)) Eval

section

variable {ε : Type} (answer : Expr → Eval (Option (Except ε Expr)))

/-- Answers, and notes the answer if there is one. -/
def noted (e : Expr) : Noting ε (Option (Except ε Expr)) := do
  let reply ← answer e
  modify (· ++ (reply.map (Attempt.mk e)).toList)
  return reply

theorem run_noted (e : Expr) (attempts : List (Attempt ε)) :
    (noted answer e).run attempts = answer e >>= fun reply =>
      pure (reply, attempts ++ (reply.map (Attempt.mk e)).toList) := by
  simp only [noted, StateT.run_bind, StateT.run_monadLift, monadLift_self, bind_assoc, pure_bind]
  rfl

/-- A traversal that notes its attempts, and the same one without notes. -/
def withoutNotes (ε : Type) :
    EffectRelation (StateT (Option ε) (Noting ε)) (StateT (Option ε) Eval) where
  Related x y := ∀ failure attempts, Prod.fst <$> (x.run failure).run attempts = y.run failure
  pure _ _ _ := rfl
  bind hx hk failure attempts := by
    rw [StateT.run_bind, StateT.run_bind, StateT.run_bind, ← hx failure attempts, map_bind,
      bind_map_left]
    exact bind_congr fun r => hk r.1.1 r.1.2 r.2

theorem flaggedVisit_noted (e : Expr) :
    (withoutNotes ε).Related (flaggedVisit (noted answer) e) (flaggedVisit answer e) := by
  intro failure attempts
  cases failure with
  | some err =>
    rw [run_flaggedVisit_some, run_flaggedVisit_some]
    rfl
  | none =>
    rw [run_flaggedVisit_none, run_flaggedVisit_none, StateT.run_bind, run_noted]
    simp only [bind_assoc, pure_bind, map_bind]
    rfl

end

section

variable (eval : Expr → Nat → Eval Value)

/-- The expansion of a program, with its attempts. -/
def expandMacrosNoting (macros : Nat) (p : Program) :
    Noting ExpansionError (Except ExpansionError Program) :=
  flaggedResult <$> (Block.rewriteM (flaggedVisit (noted (expansion eval macros))) p).run none

/-- The expansion of a program as a walk that aborts, with its attempts. -/
def expandMacrosAborting (macros : Nat) (p : Program) :
    ExceptT ExpansionError (Noting ExpansionError) Program :=
  Block.walkM (abortingVisit (noted (expansion eval macros))) p

/-- What `quote` does to its argument, with its attempts. -/
def substituteNoting (scope : Nat) (e : Expr) : Noting Value (Except Value Expr) :=
  flaggedResult <$> (e.rewriteM (flaggedVisit (noted (unquotation eval scope)))).run none

/-- What `quote` does to its argument, as a walk that aborts, with its attempts. -/
def substituteAborting (scope : Nat) (e : Expr) : ExceptT Value (Noting Value) Expr :=
  e.walkM (abortingVisit (noted (unquotation eval scope)))

/-- Noting the attempts changes nothing about expansion. -/
theorem fst_expandMacrosNoting (macros : Nat) (p : Program) (attempts : List _) :
    Prod.fst <$> (expandMacrosNoting eval macros p).run attempts = expandMacros eval macros p := by
  have herased := rewriteStmtsM_related (withoutNotes ExpansionError)
    (flaggedVisit_noted (expansion eval macros)) p none attempts
  rw [expandMacros_eq, Block.rewriteM, ← herased]
  simp only [expandMacrosNoting, StateT.run_map, Functor.map_map]
  rfl

/-- Noting the attempts changes nothing about `quote`. -/
theorem fst_substituteNoting (scope : Nat) (e : Expr) (attempts : List _) :
    Prod.fst <$> (substituteNoting eval scope e).run attempts =
      flaggedResult <$> (e.rewriteM (flaggedVisit (unquotation eval scope))).run none := by
  rw [← Expr.rewriteM_related (withoutNotes Value) (flaggedVisit_noted (unquotation eval scope)) e
    none attempts]
  simp only [substituteNoting, StateT.run_map, Functor.map_map]

end

/-- **Expansion ends as the walk that aborts**, after the same attempts. -/
theorem expandMacrosNoting_eq (eval : Expr → Nat → Eval Value) (macros : Nat) (p : Program) :
    expandMacrosNoting eval macros p = (expandMacrosAborting eval macros p).run :=
  Block.rewriteM_flagged _ p

/-- **Traversals stop early.**  Expansion, and what `quote` does to its argument, go through a whole
tree, whatever fails on the way.  Each of them is the same as a walk through the parts, from left to
right and from the leaves up, that aborts at the first failure: it has the same result, it makes the
same attempts in the same order and equally often, and it leaves the same state.  To note the
attempts changes nothing, and it makes no difference what evaluates the bodies of macros and the
arguments of `unquote`. -/
theorem traversals_stop_early (eval : Expr → Nat → Eval Value) :
    (∀ macros p,
      Prod.fst <$> (expandMacrosNoting eval macros p).run [] = expandMacros eval macros p ∧
      expandMacrosNoting eval macros p = (expandMacrosAborting eval macros p).run) ∧
    ∀ scope e rest,
      (evalStep eval (.call (.ident "quote") (e :: rest)) scope = do
        match ← Prod.fst <$> (substituteNoting eval scope e).run [] with
        | .error err => return err
        | .ok node =>
          let addr ← fresh
          return .quote addr node) ∧
      substituteNoting eval scope e = (substituteAborting eval scope e).run := by
  constructor
  · intro macros p
    exact ⟨fst_expandMacrosNoting eval macros p [], expandMacrosNoting_eq eval macros p⟩
  · intro scope e rest
    refine ⟨?_, Expr.rewriteM_flagged _ e⟩
    -- without its notes the traversal is the one that quoting does
    rw [fst_substituteNoting, ← quoteArgs_eq eval e rest]
    rfl

end Monkey
