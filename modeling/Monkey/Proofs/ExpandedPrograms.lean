import Monkey.Expr.Equality
import Monkey.Proofs.MacroCalls

/-!
# Expanded programs

Expansion comes to every expression of a program, wherever it stands, and it comes to an expression
when its parts have become what they are to be.  A call of a macro that is left in the expanded
program was therefore not seen as one: it has come with the syntax that a macro made.

## Main definitions

* `macroAttempts` — what was tried in an expansion.

## Main results

* `no_macro_call_left` — **no call of a macro is left, unless a macro made one.**
-/

namespace Monkey

open Eval (bind_eq_some_iff WritesOnly)

/-- What was tried in the expansion of a program from a state. -/
def macroAttempts (eval : Expr → Nat → Eval Value) (macros : Nat) (p : Program) (s : State) :
    List (Attempt ExpansionError) :=
  match (expandMacrosNoting eval macros p).run [] s with
  | some ((_, attempts), _) => attempts
  | none => []

/-- An attempt that puts, if anything, an expression without calls of macros in place. -/
def Attempt.YieldsExpanded (s : Scopes) (macros : Nat) (a : Attempt ExpansionError) : Prop :=
  ∀ node, a.reply = .ok node → s.Expanded macros node

instance (s : Scopes) (macros : Nat) : DecidablePred (Attempt.YieldsExpanded s macros) := fun a =>
  decidable_of_iff (∀ node ∈ a.reply.toOption, s.Expanded macros node) (by
    rw [Attempt.YieldsExpanded]
    cases a.reply <;> simp [Except.toOption])

/-! ### What a visit leaves -/

section

variable {eval : Expr → Nat → Eval Value} {macros : Nat} {e : Expr} {s t : State}

theorem expansion_writesOnly (h : WritesOwnScope eval) (macros : Nat) (e : Expr) :
    WritesOnly noScope (expansion eval macros e) := by
  unfold expansion
  split
  · exact .pure _
  · refine .bind (.of_step fun _ => rfl) fun found => ?_
    split
    · exact .bind (expandCall_writesOnly h _ _ _) fun _ => .pure _
    · exact .pure _

/-- What is not answered is no call of a macro. -/
theorem not_callsMacro_of_expansion (h : expansion eval macros e s = some (none, t)) :
    ¬s.scopes.CallsMacro macros e := by
  rintro ⟨name, args, addr, mac, rfl, hfound⟩
  obtain ⟨found, u, hfind, h⟩ := bind_eq_some_iff.1 h
  cases hfind
  rw [hfound] at h
  obtain ⟨reply, v, -, h⟩ := bind_eq_some_iff.1 h
  cases h

end

/-! ### What a walk leaves -/

/-- Where the walk ends without a failure, all attempts are kept, no scope that was there before
`s₀` has changed, and the result is as `P` says, if nothing but expanded expressions was put in
place. -/
def Leaves {α : Type} (s₀ : Scopes) (macros : Nat) (P : α → Prop)
    (x : ExceptT ExpansionError (Noting ExpansionError) α) : Prop :=
  ∀ attempts s a attempts' t, x.run.run attempts s = some ((.ok a, attempts'), t) →
    s₀.Grown noScope s.scopes → s₀.Grown noScope t.scopes ∧ attempts ⊆ attempts' ∧
      ((∀ attempt ∈ attempts', attempt.YieldsExpanded s₀ macros) → P a)

namespace Leaves

variable {α β : Type} {s₀ : Scopes} {macros : Nat} {P : α → Prop} {Q : β → Prop}

theorem pure {a : α} (h : P a) : Leaves s₀ macros P (pure a) := by
  intro attempts s b attempts' t hrun hs
  cases hrun
  exact ⟨hs, List.Subset.refl _, fun _ => h⟩

theorem bind {x : ExceptT ExpansionError (Noting ExpansionError) α}
    {k : α → ExceptT ExpansionError (Noting ExpansionError) β} (hx : Leaves s₀ macros P x)
    (hk : ∀ a, Leaves s₀ macros (fun b => P a → Q b) (k a)) : Leaves s₀ macros Q (x >>= k) := by
  intro attempts s b attempts'' u hrun hs
  rw [ExceptT.run_bind, StateT.run_bind] at hrun
  obtain ⟨⟨reply, attempts'⟩, t, hxs, hrun⟩ := bind_eq_some_iff.1 hrun
  cases reply with
  | error err => cases hrun
  | ok a =>
    obtain ⟨ht, hsub, hP⟩ := hx _ _ _ _ _ hxs hs
    obtain ⟨hu, hsub', hQ⟩ := hk a _ _ _ _ _ hrun ht
    refine ⟨hu, List.Subset.trans hsub hsub', fun hclean => hQ hclean (hP ?_)⟩
    exact fun attempt hattempt => hclean attempt (hsub' hattempt)

theorem mapM {f : α → ExceptT ExpansionError (Noting ExpansionError) β} {as : List α}
    (h : ∀ a ∈ as, Leaves s₀ macros Q (f a)) :
    Leaves s₀ macros (fun bs => bs.length = as.length ∧ ∀ b ∈ bs, Q b) (as.mapM f) := by
  induction as with
  | nil =>
    rw [List.mapM_nil]
    exact pure ⟨rfl, List.forall_mem_nil _⟩
  | cons a as ih =>
    obtain ⟨ha, has⟩ := List.forall_mem_cons.1 h
    rw [List.mapM_cons]
    refine bind ha fun b => bind (ih has) fun bs => pure fun ⟨hlength, hbs⟩ hb => ?_
    exact ⟨congrArg (· + 1) hlength, List.forall_mem_cons.2 ⟨hb, hbs⟩⟩

end Leaves

section

variable {eval : Expr → Nat → Eval Value} {s₀ : Scopes} {macros : Nat}

/-- A visit leaves nothing unexpanded, if the parts of the expression are expanded. -/
theorem abortingVisit_leaves (heval : WritesOwnScope eval) (hmacros : macros < s₀.size) (e : Expr) :
    Leaves s₀ macros (fun d => (∀ p ∈ e.parts, s₀.Expanded macros p) → s₀.Expanded macros d)
      (abortingVisit (noted (expansion eval macros)) e) := by
  intro attempts s d attempts' t hrun hs
  rw [run_abortingVisit, StateT.run_bind, run_noted] at hrun
  obtain ⟨⟨reply, noted⟩, u, hnoted, hrun⟩ := bind_eq_some_iff.1 hrun
  obtain ⟨reply', u', hreply, hpure⟩ := bind_eq_some_iff.1 hnoted
  cases hpure
  have hgrown := hs.trans (expansion_writesOnly heval macros e s reply _ hreply)
  cases reply with
  | none =>
    cases hrun
    refine ⟨hgrown, by simp, fun _ hparts => Expr.all_iff.2 ⟨?_, hparts⟩⟩
    exact fun hcalls =>
      not_callsMacro_of_expansion hreply ((hs.callsMacro_iff hmacros).2 hcalls)
  | some reply =>
    cases hrun
    refine ⟨hgrown, by simp, fun hclean _ => ?_⟩
    exact hclean ⟨e, .ok d⟩ (by simp) d rfl

/-- So does a walk through an expression. -/
theorem walkM_leaves (heval : WritesOwnScope eval) (hmacros : macros < s₀.size) (e : Expr) :
    Leaves s₀ macros (s₀.Expanded macros)
      (e.walkM (abortingVisit (noted (expansion eval macros)))) := by
  rw [Expr.walkM_eq]
  refine .bind (.mapM fun p _ => walkM_leaves heval hmacros p) fun ps => ?_
  intro attempts s d attempts' t hrun hs
  obtain ⟨ht, hsub, hd⟩ := abortingVisit_leaves heval hmacros (e.withParts ps) _ _ _ _ _ hrun hs
  refine ⟨ht, hsub, fun hclean ⟨hlength, hps⟩ => hd hclean ?_⟩
  rwa [Expr.parts_withParts hlength]
termination_by sizeOf e
decreasing_by exact Expr.sizeOf_lt_of_mem_parts ‹_›

/-- And so does a walk through statements. -/
theorem walkM_block_leaves (heval : WritesOwnScope eval) (hmacros : macros < s₀.size)
    (body : Block) :
    Leaves s₀ macros (fun expanded => ∀ st ∈ expanded, s₀.Expanded macros st.value)
      (Block.walkM (abortingVisit (noted (expansion eval macros))) body) := by
  refine .bind (.mapM fun e _ => walkM_leaves heval hmacros e) fun values => .pure ?_
  rintro ⟨hlength, hvalues⟩ st hst
  refine hvalues _ ?_
  rw [List.length_map] at hlength
  rw [← Block.values_withValues hlength]
  exact List.mem_map_of_mem hst

end

/-- What was tried in an expansion that ends. -/
theorem exists_run_of_expandMacros {eval : Expr → Nat → Eval Value} {macros : Nat} {p : Program}
    {s t : State} {reply : Except ExpansionError Program}
    (h : expandMacros eval macros p s = some (reply, t)) :
    (expandMacrosAborting eval macros p).run.run [] s =
      some ((reply, macroAttempts eval macros p s), t) := by
  rw [← fst_expandMacrosNoting eval macros p [], map_eq_pure_bind] at h
  obtain ⟨⟨reply', attempts⟩, u, hrun, hpure⟩ := bind_eq_some_iff.1 h
  cases hpure
  rw [← expandMacrosNoting_eq, macroAttempts, hrun]

/-- **No call of a macro is left by an expansion that brings none.**  Let the expansion of a program
succeed, and let no call of a macro occur anywhere in the syntax that its macros yield.  Then there
is none anywhere in the expanded program: not in a statement, at any depth, and not where what is
called became the name of a macro by the expansion of another call. -/
theorem no_macro_call_left {budget macros : Nat} {p q : Program} {s t : State}
    (hrun : expandMacros (evaluate budget) macros p s = some (.ok q, t))
    (hyields : ∀ attempt ∈ macroAttempts (evaluate budget) macros p s,
      attempt.YieldsExpanded s.scopes macros) :
    ∀ st ∈ q, s.scopes.Expanded macros st.value := by
  by_cases hmacros : macros < s.scopes.size
  · have hleaves := walkM_block_leaves (evaluate_writesOnly budget) hmacros p
    exact (hleaves _ _ _ _ _ (exists_run_of_expandMacros hrun) (.refl _ _)).2.2 hyields
  · -- a scope that is not there binds nothing
    rintro st - e - ⟨name, args, addr, mac, -, hfound⟩
    exact hmacros (Scopes.lt_size_of_find? hfound)

/-- The first scope binds two macros: one adds its argument to itself, and the other one yields the
name of the first. -/
def doublingMacros : State :=
  let quoted (e : Expr) : Block := [.expr (.call (.ident "quote") [e])]
  let operand : Expr := .call (.ident "unquote") [.ident "x"]
  { State.start 9 .empty with
    scopes := ((Scopes.empty.add none).set 0 "double"
        (.macroFn 0 ⟨["x"], quoted (.binary .add operand operand), 0⟩)).set 0 "pick"
      (.macroFn 1 ⟨[], quoted (.ident "double"), 0⟩) }

/-- A function that returns a hash of two expressions. -/
def pairReturned (key value : Expr) : Program :=
  [.letBe "f" (.fn ["a"] [.ret (.hash [(key, .array [value])])])]

/-- A call in the key of a hash is expanded, and so is one that calls a macro only after the
expansion of what it calls. -/
theorem no_macro_call_left_in_pair :
    let p := pairReturned (.call (.ident "double") [.ident "a"])
      (.call (.call (.ident "pick") []) [.int 2])
    ∃ q t, expandMacros (evaluate 5) 0 p doublingMacros = some (.ok q, t) ∧
      q = pairReturned (.binary .add (.ident "a") (.ident "a")) (.binary .add (.int 2) (.int 2)) ∧
      ∀ st ∈ q, doublingMacros.scopes.Expanded 0 st.value := by
  intro p
  have hends : (expandMacros (evaluate 5) 0 p doublingMacros).map (·.1.toOption) =
      some (some (pairReturned (.binary .add (.ident "a") (.ident "a"))
        (.binary .add (.int 2) (.int 2)))) := by
    decide +kernel
  obtain ⟨⟨reply, t⟩, hrun, hreply⟩ := Option.map_eq_some_iff.1 hends
  cases reply with
  | error err => cases hreply
  | ok q =>
    cases hreply
    exact ⟨_, t, hrun, rfl, no_macro_call_left hrun (by decide +kernel)⟩

end Monkey
