import Monkey.Expansion
import Monkey.Proofs.Comparison
import Monkey.Proofs.Frame
import Monkey.Proofs.Onward

/-!
# What expansion does

Expanding the calls of macros runs the bodies of macros, each in a new scope inside the scope of
macros, and looks names up in the scope of macros.  So it changes no scope that was there before, it
goes onward as evaluation does, and where evaluations compare, expansions do, too.

## Main results

* `run_expandVisit_none`, `run_expandVisit_some` — what a visit does before and after the first
  failure.
* `expandMacros_writesOnly` — **expansion changes none of the scopes that were there before.**
* `bindMacros_keeps`, `expandMacros_keeps` — **macros are defined and expanded as every ledger
  wants it.**
* `expandMacros_allocates` — so expansion keeps to what was allocated, and goes onward.
* `Comparison.expandMacros` — **the expansions of one program compare.**
-/

namespace Monkey

open Eval

section

universe u

variable {m : Type → Type u} [Monad m] [LawfulMonad m] [Machine m] (eval : Expr → Nat → m Value)

/-- After the first failure every expression stays as it is. -/
theorem run_expandVisit_some (macros : Nat) (e : Expr) (err : ExpansionError) :
    (expandVisit eval macros e).run (some err) = pure (e, some err) := by
  simp [expandVisit]

/-- Before the first failure a call of a macro is expanded, and every other expression stays as it
is. -/
theorem run_expandVisit_none (macros : Nat) (e : Expr) :
    (expandVisit eval macros e).run none =
      match e.namedCall? with
      | none => pure (e, none)
      | some (name, args) => do
        match ← Machine.find macros name with
        | some (.macroFn _ mac) =>
          match ← expandCall eval name mac args with
          | .ok node => return (node, none)
          | .error err => return (e, some err)
        | _ => return (e, none) := by
  cases h : e.namedCall? with
  | none => simp [expandVisit, h]
  | some named =>
    obtain ⟨name, args⟩ := named
    simp only [expandVisit, h, StateT.run_bind, StateT.run_get, pure_bind, StateT.run_monadLift,
      monadLift_self, bind_assoc]
    -- both look the name up first, and go on in the same way where it is a macro
    refine bind_congr fun found => ?_
    cases found with
    | none => simp
    | some v =>
      cases v with
      | macroFn addr mac =>
        simp only [StateT.run_bind, StateT.run_monadLift, monadLift_self, bind_assoc, pure_bind]
        refine bind_congr fun reply => ?_
        cases reply <;> simp
      | _ => simp

end

/-! ### What expansion writes -/

section

variable {eval : Expr → Nat → Eval Value}

theorem bindQuoted_writesOnly (scope : Nat) (arguments : List (String × Expr)) :
    WritesOnly (· = scope) (bindQuoted scope arguments) := by
  induction arguments with
  | nil => exact .pure _
  | cons argument rest ih =>
    obtain ⟨name, e⟩ := argument
    exact .bind .fresh fun _ => .bind (.setName (by rfl) name _) fun _ => ih

theorem expandCall_writesOnly (h : WritesOwnScope eval) (name : String) (mac : Closure)
    (args : List Expr) : WritesOnly noScope (expandCall eval name mac args) := by
  unfold expandCall
  split
  · exact .pure _
  -- arguments and body belong to the scope of the call, which is new
  refine newScope_bind_writesNone fun scope => ?_
  refine .bind (bindQuoted_writesOnly scope _) fun _ => ?_
  refine .bind (evalBody_writesOnly h mac.body scope) fun v => ?_
  split <;> exact .pure _

/-- Effects of expansion that write only what `own` allows. -/
def expandingOnly (own : Nat → Prop) :
    EffectRelation (StateT (Option ExpansionError) Eval) (StateT (Option ExpansionError) Eval) where
  Related x _ := ∀ failure, WritesOnly own (x.run failure)
  pure a failure := .pure (a, failure)
  bind hx hk failure := .bind (hx failure) fun p => hk p.1 p.2

theorem expandVisit_writesOnly (h : WritesOwnScope eval) (macros : Nat) (e : Expr) :
    (expandingOnly noScope).Related (expandVisit eval macros e) (expandVisit eval macros e) := by
  intro failure
  cases failure with
  | some err =>
    rw [run_expandVisit_some]
    exact .pure _
  | none =>
    rw [run_expandVisit_none]
    split
    · exact .pure _
    · refine .bind (.of_step fun _ => rfl) fun found => ?_
      split
      · refine .bind (expandCall_writesOnly h _ _ _) fun reply => ?_
        cases reply <;> exact .pure _
      · exact .pure _

/-- **Expansion changes none of the scopes that were there before.** -/
theorem expandMacros_writesOnly (h : WritesOwnScope eval) (macros : Nat) (p : Program) :
    WritesOnly noScope (expandMacros eval macros p) := by
  have hvisit := expandVisit_writesOnly h macros
  refine .bind (rewriteStmtsM_related (expandingOnly noScope) hvisit p none) fun q => ?_
  obtain ⟨expanded, failure⟩ := q
  cases failure <;> exact .pure _

end

/-! ### What expansion writes down -/

section

variable {L : Ledger} {r : L.Record} {eval : Expr → Nat → Eval Value} {macros : Nat}

/-- **The definition of macros keeps to every ledger.** -/
theorem bindMacros_keeps (definitions : List MacroDefinition) : ∀ {r : L.Record},
    L.Knows r macros → L.Keeps r (fun _ _ => True) (bindMacros macros definitions) := by
  induction definitions with
  | nil => exact fun _ => .pure fun _ _ => trivial
  | cons d rest ih =>
    intro r hmacros
    refine .fresh (fun addr => .macroFn addr ⟨d.params, d.body, macros⟩) fun b addr hrb hmade => ?_
    have hmacros' := L.knows_mono hrb hmacros
    have hmacro := Ledger.fits_closure hmade rfl rfl rfl hmacros'
    exact .bind (.setName hmacro macros d.name) fun c _ hbc _ => ih (L.knows_mono hbc hmacros')

theorem bindQuoted_keeps (scope : Nat) (arguments : List (String × Expr)) :
    ∀ {r : L.Record}, L.Keeps r (fun _ _ => True) (bindQuoted scope arguments) := by
  induction arguments with
  | nil => exact .pure fun _ _ => trivial
  | cons argument rest ih =>
    obtain ⟨name, e⟩ := argument
    intro r
    refine .fresh (fun addr => .quote addr e) fun b addr _ hmade => ?_
    have hquote := Ledger.fits_of_isNew hmade rfl (Value.isNew_quote addr e)
    exact .bind (.setName hquote scope name) fun _ _ _ _ => ih

theorem expandCall_keeps (h : L.KeptBy eval) (name : String) (mac : Closure) (args : List Expr) :
    L.Keeps r (fun _ _ => True) (expandCall eval name mac args) := by
  unfold expandCall
  split
  · exact .pure fun _ _ => trivial
  refine .bind (.newScope _) fun b scope _ hscope => ?_
  refine .bind (bindQuoted_keeps scope _) fun c _ hbc _ => ?_
  refine .bind (Ledger.evalBody_keeps h (L.knows_mono hbc hscope) mac.body) fun _ v _ _ => ?_
  split <;> exact .pure fun _ _ => trivial

/-- Effects of expansion that keep to a ledger. -/
def Ledger.expanding (L : Ledger) :
    EffectRelation (StateT (Option ExpansionError) Eval) (StateT (Option ExpansionError) Eval) where
  Related x _ := ∀ r failure, L.Keeps r (fun _ _ => True) (x.run failure)
  pure _ _ _ := .pure fun _ _ => trivial
  bind hx hk r failure := .bind (hx r failure) fun b p _ _ => hk p.1 b p.2

theorem expandVisit_keeps (h : L.KeptBy eval) (e : Expr) :
    L.expanding.Related (expandVisit eval macros e) (expandVisit eval macros e) := by
  intro r failure
  cases failure with
  | some err =>
    rw [run_expandVisit_some]
    exact .pure fun _ _ => trivial
  | none =>
    rw [run_expandVisit_none]
    split
    · exact .pure fun _ _ => trivial
    · refine .bind (.findName macros _) fun b found _ _ => ?_
      split
      · refine .bind (expandCall_keeps h _ _ _) fun c reply _ _ => ?_
        cases reply <;> exact .pure fun _ _ => trivial
      · exact .pure fun _ _ => trivial

/-- **The expansion of macros keeps to every ledger.** -/
theorem expandMacros_keeps (h : L.KeptBy eval) (p : Program) :
    L.Keeps r (fun _ _ => True) (expandMacros eval macros p) := by
  have hvisit : ∀ e, L.expanding.Related (expandVisit eval macros e)
      (expandVisit eval macros e) := expandVisit_keeps h
  have hexpanded := rewriteStmtsM_related L.expanding hvisit p r none
  refine .bind hexpanded fun b q _ _ => ?_
  obtain ⟨expanded, failure⟩ := q
  cases failure <;> exact .pure fun _ _ => trivial

/-- Trees and failures mention nothing that was given out. -/
def anyWithin {α : Type} (_ : Extent) (_ : α) : Prop := True

/-- The definition of macros keeps to what was allocated. -/
theorem bindMacros_allocates (definitions : List MacroDefinition) {a : Extent}
    (hmacros : macros < a.scopes) : Allocates a anyWithin (bindMacros macros definitions) :=
  allocates_iff.2 (bindMacros_keeps definitions hmacros)

/-- **Expansion keeps to what was allocated, and goes onward.** -/
theorem expandMacros_allocates {a : Extent} (h : KeepsAllocated eval) (p : Program) :
    Allocates a anyWithin (expandMacros eval macros p) :=
  allocates_iff.2 (expandMacros_keeps (keepsAllocated_iff.1 h) p)

end

/-! ### Expansion compares -/

namespace Comparison

open Correspondence Machine

universe u v

variable {W : Type} [Preorder W] {m : Type → Type u} {n : Type → Type v} [Monad m] [Machine m]
  [Monad n] [Machine n] {C : Comparison W m n} {w : W} {a b : Nat}
  {eval : Expr → Nat → m Value} {plain : Expr → Nat → n Value}

theorem bindMacros (definitions : List MacroDefinition) : ∀ {w : W}, C.Owns w a b →
    C.Runs w anyResults (Monkey.bindMacros a definitions) (Monkey.bindMacros b definitions) := by
  induction definitions with
  | nil => exact fun _ => C.pure trivial
  | cons d rest ih =>
    intro w hab
    refine C.bind C.fresh fun w₁ _ _ hle haddr => ?_
    have hab₁ := C.owns_mono hle hab
    have hmacro := Value.Matches.macroFn haddr
      (⟨rfl, rfl, C.scopes_of_owns hab₁⟩ : Closure.Matches _ ⟨d.params, d.body, a⟩ ⟨_, _, b⟩)
    exact C.bind (C.setName d.name hab₁ hmacro) fun _ _ _ hle' _ => ih (C.owns_mono hle' hab₁)

theorem bindQuoted (arguments : List (String × Expr)) : ∀ {w : W}, C.Owns w a b →
    C.Runs w anyResults (Monkey.bindQuoted a arguments) (Monkey.bindQuoted b arguments) := by
  induction arguments with
  | nil => exact fun _ => C.pure trivial
  | cons argument rest ih =>
    obtain ⟨name, e⟩ := argument
    intro w hab
    refine C.bind C.fresh fun w₁ _ _ hle haddr => ?_
    have hab₁ := C.owns_mono hle hab
    exact C.bind (C.setName name hab₁ (.quote e haddr)) fun _ _ _ hle' _ =>
      ih (C.owns_mono hle' hab₁)

theorem expandCall (h : C.Evaluators eval plain) (name : String) {c d : Closure}
    (hcd : c.Matches (C.matching w) d) (args : List Expr) :
    C.Runs w sameResult (Monkey.expandCall eval name c args)
      (Monkey.expandCall plain name d args) := by
  unfold Monkey.expandCall
  rw [hcd.params_eq, hcd.body_eq]
  split
  · exact C.pure rfl
  refine C.bind (C.newScope hcd.scope) fun w₁ i j _ hij => ?_
  refine C.bind (bindQuoted _ hij) fun w₂ _ _ hle _ => ?_
  refine C.bind (evalBody h d.body (C.owns_mono hle hij)) fun w₃ v v' _ hv => ?_
  have hresult := hv.unwrapReturn
  generalize v.unwrapReturn = r, v'.unwrapReturn = r' at hresult
  cases hresult <;> exact C.pure rfl

variable [LawfulMonad m] [LawfulMonad n]

/-- Effects of expansion that give the same, from where `w` is known on. -/
def expanding (C : Comparison W m n) (w : W) :
    EffectRelation (StateT (Option ExpansionError) m) (StateT (Option ExpansionError) n) where
  Related x y := ∀ w' failure, w ≤ w' → C.Runs w' sameResult (x.run failure) (y.run failure)
  pure _ _ _ _ := by
    rw [StateT.run_pure, StateT.run_pure]
    exact C.pure rfl
  bind hx hk w' failure hle := by
    rw [StateT.run_bind, StateT.run_bind]
    refine C.bind (hx w' failure hle) fun w'' p q hle' hpq => ?_
    cases hpq
    exact hk p.1 w'' p.2 (le_trans hle hle')

/-- Names of macros are looked up, be they reserved or not. -/
def FindsMacros (C : Comparison W m n) (a b : Nat) : Prop :=
  ∀ (w : W) (name : String), (C.matching w).scopes a b →
    C.Runs w (fun w => Option.Rel (Value.Matches (C.matching w))) (find a name) (find b name)

theorem expandVisit (h : C.Evaluators eval plain) (hfind : C.FindsMacros a b)
    (hab : (C.matching w).scopes a b) (e : Expr) :
    (expanding C w).Related (Monkey.expandVisit eval a e) (Monkey.expandVisit plain b e) := by
  intro w' failure hle
  cases failure with
  | some err =>
    rw [run_expandVisit_some, run_expandVisit_some]
    exact C.pure rfl
  | none =>
    rw [run_expandVisit_none, run_expandVisit_none]
    cases e.namedCall? with
    | none => exact C.pure rfl
    | some named =>
      obtain ⟨name, args⟩ := named
      -- whatever is found is matched, so that both find a macro or neither does
      refine C.bind (hfind w' name ((C.matching_mono hle).1 hab)) fun w₁ found found' _ hfound => ?_
      cases hfound with
      | none => exact C.pure rfl
      | some hv =>
        cases hv with
        | macroFn _ hcd =>
          refine C.bind (expandCall h name hcd args) fun w₂ reply _ _ hreply => ?_
          cases hreply
          cases reply <;> exact C.pure rfl
        | _ => exact C.pure rfl

/-- **The expansions of one program compare**, and give the same. -/
theorem expandMacros (h : C.Evaluators eval plain) (hfind : C.FindsMacros a b)
    (hab : (C.matching w).scopes a b) (p : Program) :
    C.Runs w sameResult (Monkey.expandMacros eval a p) (Monkey.expandMacros plain b p) := by
  have hexpanded := rewriteStmtsM_related (expanding C w) (expandVisit h hfind hab) p w none
    (le_refl w)
  refine C.bind hexpanded fun w' q _ _ hq => ?_
  cases hq
  obtain ⟨expanded, failure⟩ := q
  cases failure <;> exact C.pure rfl

end Comparison

end Monkey
