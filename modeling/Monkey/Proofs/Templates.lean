import Monkey.Proofs.FailedSource
import Monkey.Proofs.Unquoting

/-!
# Macros that are templates

A macro whose body quotes a piece of syntax, in which `unquote` is called with parameters only, is a
template.  Its expansion binds the arguments in a scope, evaluates the calls of `unquote`, and makes
syntax of their values again; what comes of it is the template with the arguments in the places of
the parameters.  Rewriting visits an expression after its parts have been replaced, though, so an
argument may be anything but the name `unquote`: with that, a call around it could become a call of
`unquote`.

## Main definitions

* `Expr.instantiate` — a template with syntax in the places of its parameters.
* `MacroDefinition.IsTemplate` — definitions of macros that are templates.

## Main results

* `run_walkM_template` — quoting a template instantiates it.
* `template_call_substitutes` — **a call of a template expands to the template with the arguments
  in it.**
-/

namespace Monkey

open Eval

/-! ### Instantiating templates -/

namespace Expr

/-- What takes the place of an expression, if it is a call of `unquote` with a name. -/
def replacement? (σ : String → Option Expr) (e : Expr) : Option Expr :=
  (e.unquoted?.bind name?).bind σ

/-- The expression with what `σ` has for a name in the place of each call of `unquote` with that
name.  What is put there is not looked into. -/
def instantiate (σ : String → Option Expr) (e : Expr) : Expr :=
  match e.replacement? σ with
  | some replacement => replacement
  | none => e.withParts (e.parts.attach.map fun p => p.1.instantiate σ)
termination_by sizeOf e
decreasing_by exact sizeOf_lt_of_mem_parts p.2

/-- Where `unquote` is called with one argument in the expression, the argument is one of the
names. -/
def UnquotesOnly (names : List String) (e : Expr) : Prop :=
  e.All fun p => ∀ argument ∈ p.unquoted?, ∃ x ∈ names, argument = .ident x

variable {σ : String → Option Expr} {e : Expr}

theorem instantiate_of_some {replacement : Expr} (h : e.replacement? σ = some replacement) :
    e.instantiate σ = replacement := by
  rw [instantiate, h]

theorem instantiate_of_none (h : e.replacement? σ = none) :
    e.instantiate σ = e.withParts (e.parts.map (instantiate σ)) := by
  have hattach : (e.parts.attach.map fun p => p.1.instantiate σ) = e.parts.map (instantiate σ) := by
    rw [List.map_subtype (g := instantiate σ) fun _ _ => rfl, List.unattach_attach]
  rw [instantiate, h]
  exact congrArg e.withParts hattach

@[simp] theorem instantiate_ident (name : String) : (ident name).instantiate σ = .ident name :=
  instantiate_of_none rfl

theorem replacement?_of_unquoted?_eq_none (h : e.unquoted? = none) : e.replacement? σ = none := by
  rw [replacement?, h, Option.bind_none, Option.bind_none]

/-- Only the name `unquote`, or what takes the place of a call, becomes that name. -/
theorem eq_of_instantiate_eq_ident {name : String} (h : e.instantiate σ = .ident name) :
    e = .ident name ∨ ∃ x, σ x = some (.ident name) := by
  cases hreplaced : e.replacement? σ with
  | none =>
    rw [instantiate_of_none hreplaced] at h
    exact Or.inl (eq_ident_of_withParts h)
  | some replacement =>
    rw [instantiate_of_some hreplaced] at h
    subst h
    obtain ⟨x, -, hx⟩ := Option.bind_eq_some_iff.1 hreplaced
    exact Or.inr ⟨x, hx⟩

/-- Instantiating makes no new calls of `unquote`, if that name takes no place. -/
theorem unquoted?_withParts_instantiate (hσ : ∀ x, σ x ≠ some (.ident "unquote"))
    (hnone : e.unquoted? = none) :
    (e.withParts (e.parts.map (instantiate σ))).unquoted? = none := by
  refine unquoted?_withParts (List.length_map _) hnone fun callee hcall hhead => ?_
  cases e with
  | call f args =>
    cases hcall
    rcases eq_of_instantiate_eq_ident (Option.some.inj hhead) with rfl | ⟨x, hx⟩
    · rfl
    · exact absurd hx (hσ x)
  | _ => cases hcall

end Expr

/-- The syntax that takes the place of each parameter: the arguments, in order. -/
def substitution (params : List String) (args : List Expr) (x : String) : Option Expr :=
  (params.zip args).lookup x

/-- The definition is a template: its body quotes the given syntax, in which one-argument calls of
`unquote` are made with parameters only.  The parameters are distinct, and none of them has the name
of an intrinsic. -/
structure MacroDefinition.IsTemplate (d : MacroDefinition) (template : Expr) : Prop where
  body_eq : d.body = [.expr (.call (.ident "quote") [template])]
  nodup : d.params.Nodup
  free : ∀ x ∈ d.params, Intrinsic.ofName? x = none
  unquotesOnly : template.UnquotesOnly d.params

/-! ### Quoting a template -/

section

variable {s : State}

/-- In the scope, each of the names is bound to the syntax that takes its place. -/
def Supplies (s : State) (scope : Nat) (names : List String) (σ : String → Option Expr) : Prop :=
  ∀ x ∈ names, ∃ addr e, s.scopes.find? scope x = some (.quote addr e) ∧ σ x = some e

variable {budget scope : Nat} {names : List String} {σ : String → Option Expr}

theorem run_unquotedValue_ident {x : String} {addr : Nat} {e : Expr}
    (hname : Intrinsic.ofName? x = none) (hfound : s.scopes.find? scope x = some (.quote addr e)) :
    (unquotedValue (evaluate (budget + 1)) scope (.ident x)).run s =
      some (.ok (.quote addr e), s) := by
  have hvalue := evaluate_ident hname hfound budget
  rw [unquotedValue, ExceptT.run_bind, ExceptT.run_liftM, bind_map_left, Eval.bind_apply, hvalue]
  rfl

/-- **Quoting a template instantiates it**, where the scope supplies what takes the places. -/
theorem run_walkM_template (budget : Nat) (hfree : ∀ x ∈ names, Intrinsic.ofName? x = none)
    (hsupplies : Supplies s scope names σ) (hσ : ∀ x, σ x ≠ some (.ident "unquote")) (e : Expr)
    (h : e.UnquotesOnly names) :
    (e.walkM (abortingVisit (unquotation (evaluate (budget + 1)) scope))).run s =
      some (.ok (e.instantiate σ), s) := by
  obtain ⟨he, hparts⟩ := Expr.all_iff.1 h
  have hwalks := run_mapM_eq fun p hp =>
    run_walkM_template budget hfree hsupplies hσ p (hparts p hp)
  rw [Expr.walkM_eq, run_bind_of_ok hwalks]
  cases hunquoted : e.unquoted? with
  | none =>
    rw [abortingVisit_unquotation_of_none (Expr.unquoted?_withParts_instantiate hσ hunquoted),
      Expr.instantiate_of_none (Expr.replacement?_of_unquoted?_eq_none hunquoted)]
    rfl
  | some argument =>
    obtain ⟨x, hx, rfl⟩ := he argument hunquoted
    obtain ⟨addr, replacement, hfound, hreplaced⟩ := hsupplies x hx
    -- both parts are names, so the call is visited as it is written
    have hnames : e.parts.map (Expr.instantiate σ) = e.parts := by
      obtain rfl := Expr.unquoted?_eq_some_iff.1 hunquoted
      simp only [Expr.parts, List.map_cons, List.map_nil, Expr.instantiate_ident]
    have hinstance : e.instantiate σ = replacement := by
      refine Expr.instantiate_of_some ?_
      rw [Expr.replacement?, hunquoted, Option.bind_some, Expr.name?_ident, Option.bind_some,
        hreplaced]
    rw [hnames, Expr.withParts_parts, abortingVisit_unquotation_of_some hunquoted,
      run_bind_of_ok (run_unquotedValue_ident (hfree x hx) hfound), hinstance]
    rfl
termination_by sizeOf e
decreasing_by exact Expr.sizeOf_lt_of_mem_parts hp

/-- The value of a call of `quote` with a template. -/
theorem evaluate_quote_template (budget : Nat) (hfree : ∀ x ∈ names, Intrinsic.ofName? x = none)
    (hsupplies : Supplies s scope names σ) (hσ : ∀ x, σ x ≠ some (.ident "unquote")) {e : Expr}
    (h : e.UnquotesOnly names) :
    evaluate (budget + 2) (.call (.ident "quote") [e]) scope s =
      some (.quote s.nextAddress (e.instantiate σ),
        { s with nextAddress := s.nextAddress + 1 }) := by
  have hwalk := run_walkM_template budget hfree hsupplies hσ e h
  change quoteArgs (evaluate (budget + 1)) [e] scope s = _
  rw [quoteArgs_eq, Expr.rewriteM_flagged, Eval.bind_apply, hwalk]
  rfl

end

/-! ### Expanding a call -/

section

variable {s : State} {macros scope : Nat}

/-- Binding quoted syntax changes scopes and uses up addresses, and does nothing else.  If the names
are distinct, each is bound to its syntax, and no other name is bound in the scope. -/
theorem run_bindQuoted {bindings : List (String × Expr)} (hscope : scope < s.scopes.size)
    (hnodup : (bindings.map Prod.fst).Nodup) :
    ∃ t, bindQuoted (m := Eval) scope bindings s = some ((), t) ∧
      t = { s with scopes := t.scopes, nextAddress := t.nextAddress } ∧
      (∀ x ∉ bindings.map Prod.fst, t.scopes.find? scope x = s.scopes.find? scope x) ∧
      ∀ x e, (x, e) ∈ bindings → ∃ addr, t.scopes.find? scope x = some (.quote addr e) := by
  induction bindings generalizing s with
  | nil => exact ⟨s, rfl, rfl, fun _ _ => rfl, nofun⟩
  | cons binding rest ih =>
    obtain ⟨name, e⟩ := binding
    obtain ⟨hname, hrest⟩ := List.nodup_cons.1 hnodup
    let u : State :=
      { s with
        scopes := s.scopes.set scope name (.quote s.nextAddress e)
        nextAddress := s.nextAddress + 1 }
    have hstep : bindQuoted (m := Eval) scope ((name, e) :: rest) s =
      bindQuoted (m := Eval) scope rest u := rfl
    have hsize : scope < u.scopes.size := by rwa [Scopes.size_set]
    obtain ⟨t, ht, heq, hkept, hbound⟩ := ih hsize hrest
    refine ⟨t, hstep.trans ht, heq, fun x hx => ?_, fun x e' hx => ?_⟩
    · obtain ⟨hne, hx⟩ := not_or.1 (mt List.mem_cons.2 hx)
      rw [hkept x hx, Scopes.find?_set_of_ne _ _ _ hne]
    · rcases List.mem_cons.1 hx with heq | hx
      · -- none of the later names is this one
        cases heq
        exact ⟨s.nextAddress, by rw [hkept name hname, Scopes.find?_set_self _ _ _ hscope]⟩
      · exact hbound x e' hx

variable {params : List String} {args : List Expr}

/-- What takes the place of a parameter is its argument. -/
theorem mem_of_substitution {x : String} {e : Expr} (h : substitution params args x = some e) :
    (x, e) ∈ params.zip args := by
  obtain ⟨before, after, heq, -⟩ := List.lookup_eq_some_iff.1 h
  rw [heq]
  exact List.mem_append_right _ List.mem_cons_self

theorem exists_substitution (harity : params.length ≤ args.length) {x : String} (hx : x ∈ params) :
    ∃ e, substitution params args x = some e := by
  rw [← List.map_fst_zip harity] at hx
  obtain ⟨binding, hbinding, rfl⟩ := List.mem_map.1 hx
  exact Option.isSome_iff_exists.1
    (List.lookup_isSome_iff.2 ⟨binding, hbinding, beq_self_eq_true _⟩)

theorem substitution_ne (h : ∀ a ∈ args.take params.length, a ≠ .ident "unquote") (x : String) :
    substitution params args x ≠ some (.ident "unquote") := by
  intro hx
  obtain ⟨i, hi⟩ := List.mem_iff_getElem?.1 (mem_of_substitution hx)
  obtain ⟨hparam, harg⟩ := List.getElem?_zip_eq_some.1 hi
  obtain ⟨hlt, -⟩ := List.getElem?_eq_some_iff.1 hparam
  -- it is the argument of one of the parameters
  refine h _ (List.mem_iff_getElem?.2 ⟨i, ?_⟩) rfl
  rw [List.getElem?_take_of_lt hlt, harg]

/-- **A call of a template gives the template with the arguments in it.** -/
theorem expandCall_template {budget : Nat} {d : MacroDefinition} {template : Expr}
    (h : d.IsTemplate template) (harity : d.params.length ≤ args.length)
    (hnames : ∀ a ∈ args.take d.params.length, a ≠ .ident "unquote") (s : State) :
    ∃ t, expandCall (evaluate (budget + 2)) d.name ⟨d.params, d.body, macros⟩ args s =
        some (.ok (template.instantiate (substitution d.params args)), t) ∧
      t = { s with scopes := t.scopes, nextAddress := t.nextAddress } := by
  let u : State := { s with scopes := s.scopes.add (some macros) }
  have hsize : s.scopes.size < u.scopes.size := by
    rw [Scopes.size_add]
    exact Nat.lt_succ_self _
  have hnodup : ((d.params.zip args).map Prod.fst).Nodup := by
    rw [List.map_fst_zip harity]
    exact h.nodup
  obtain ⟨v, hbind, heq, -, hbound⟩ := run_bindQuoted hsize hnodup
  -- each parameter is bound to the syntax of its argument, which is what the quote asks for
  have hsupplies : Supplies v s.scopes.size d.params (substitution d.params args) := by
    intro x hx
    obtain ⟨e, he⟩ := exists_substitution harity hx
    obtain ⟨addr, hfound⟩ := hbound x e (mem_of_substitution he)
    exact ⟨addr, e, hfound, he⟩
  have hvalue := evaluate_quote_template budget h.free hsupplies
    (substitution_ne hnames) h.unquotesOnly
  refine ⟨{ v with nextAddress := v.nextAddress + 1 }, ?_, by rw [heq]⟩
  rw [expandCall, if_neg (Nat.not_lt.2 harity), h.body_eq]
  refine bind_eq_some_iff.2 ⟨_, u, rfl, bind_eq_some_iff.2 ⟨(), v, hbind, ?_⟩⟩
  rw [evalBody_singleton]
  exact bind_eq_some_iff.2 ⟨_, _, hvalue, rfl⟩

/-- The last definition of a name is what the name is bound to. -/
theorem find?_of_defineMacros {p rest : Program} {t : State} {d : MacroDefinition}
    (h : defineMacros (m := Eval) macros p s = some (rest, t)) (hmacros : macros < s.scopes.size)
    (hlast : lastDefinition? d.name (macroDefinitions p) = some d) :
    ∃ addr, t.scopes.find? macros d.name = some (.macroFn addr ⟨d.params, d.body, macros⟩) := by
  obtain ⟨_, t', hbind, hrest⟩ := bind_eq_some_iff.1 h
  cases hrest
  obtain ⟨addr, hfound⟩ := (bindMacros_overwritten hmacros hbind).1.defined d.name d hlast
  exact ⟨addr, by rw [Scopes.find?_eq_or, hfound, Option.some_or]⟩

/-- Rewriting expressions gives as many. -/
theorem length_of_rewriteExprsM {visit : Expr → StateT (Option ExpansionError) Eval Expr}
    {es es' : List Expr} {failure failure' : Option ExpansionError} {t : State}
    (h : (rewriteExprsM visit es).run failure s = some ((es', failure'), t)) :
    es'.length = es.length := by
  induction es generalizing es' failure s with
  | nil =>
    cases h
    rfl
  | cons e es ih =>
    rw [rewriteExprsM, StateT.run_bind] at h
    obtain ⟨⟨first, failure₁⟩, s₁, -, h⟩ := bind_eq_some_iff.1 h
    rw [StateT.run_bind] at h
    obtain ⟨⟨others, failure₂⟩, s₂, hothers, h⟩ := bind_eq_some_iff.1 h
    cases h
    exact congrArg (· + 1) (ih hothers)

/-- **A call of a template expands to the template with the arguments in it.**  Let a program define
a template, let the name still be bound to it, and let the call be one of that name, after its parts
have been expanded.  If there are arguments for all parameters, and none of these arguments is by
then just the name `unquote`, the call gives way to the template with the expanded arguments in the
places of the parameters, at any depth and as they are.  The other arguments are dropped.  Nothing
is printed, no task is started or awaited, and no scope that was there before changes. -/
theorem template_call_substitutes {budget : Nat} {p rest : Program} {s₀ u v : State}
    {d : MacroDefinition} {template f : Expr} {args' : List Expr}
    (hdefine : defineMacros (m := Eval) macros p s₀ = some (rest, s))
    (hmacros : macros < s₀.scopes.size)
    (hlast : lastDefinition? d.name (macroDefinitions p) = some d)
    (htemplate : d.IsTemplate template)
    (hbound : u.scopes.find? macros d.name = s.scopes.find? macros d.name)
    (hparts : (rewriteExprsM (expandVisit (evaluate (budget + 2)) macros) (f :: args)).run none u =
      some ((.ident d.name :: args', none), v))
    (harity : d.params.length ≤ args.length)
    (hnames : ∀ a ∈ args'.take d.params.length, a ≠ .ident "unquote") :
    ∃ w, ((Expr.call f args).rewriteM (expandVisit (evaluate (budget + 2)) macros)).run none u =
        some ((template.instantiate (substitution d.params args'), none), w) ∧
      w = { v with scopes := w.scopes, nextAddress := w.nextAddress } ∧
      v.scopes.Grown noScope w.scopes := by
  obtain ⟨addr, hfound⟩ := find?_of_defineMacros hdefine hmacros hlast
  rw [hfound] at hbound
  have heval := evaluate_writesOnly (budget + 2)
  have hgrown : u.scopes.Grown noScope v.scopes :=
    rewriteExprsM_related (expandingOnly noScope) (expandVisit_writesOnly heval macros) (f :: args)
      none u _ v hparts
  have hfound' : v.scopes.find? macros d.name =
      some (.macroFn addr ⟨d.params, d.body, macros⟩) := by
    rw [hgrown.find?_eq _ (Scopes.lt_size_of_find? hbound), hbound]
  have harity' : d.params.length ≤ args'.length := by
    rwa [Nat.succ.inj (length_of_rewriteExprsM hparts)]
  obtain ⟨w, hcall, heq⟩ := expandCall_template htemplate harity' hnames v
  refine ⟨w, ?_, heq, expandCall_writesOnly heval _ _ _ _ _ _ hcall⟩
  rw [Expr.rewriteM_eq_walkM, Expr.walkM_eq, StateT.run_bind, ← rewriteExprsM_eq, Expr.parts,
    Eval.bind_apply, hparts]
  -- the call with its parts expanded is what is visited
  change (expandVisit (evaluate (budget + 2)) macros (.call (.ident d.name) args')).run none v = _
  rw [run_expandVisit_none]
  refine bind_eq_some_iff.2 ⟨_, v, rfl, ?_⟩
  rw [hfound']
  exact bind_eq_some_iff.2 ⟨_, w, hcall, rfl⟩

end

/-- A state with one scope, which binds nothing. -/
def emptyScope : State := { State.start 9 .empty with scopes := Scopes.empty.add none }

/-- The macro of a given name that quotes syntax. -/
def quoting (name : String) (params : List String) (e : Expr) : MacroDefinition :=
  ⟨name, params, [.expr (.call (.ident "quote") [e])]⟩

/-- A program that defines macros. -/
def defining (definitions : List MacroDefinition) : Program :=
  definitions.map fun d => .letBe d.name (.macroFn d.params d.body)

/-- An evaluation in two steps ends if both of them do. -/
theorem exists_run_of_map_fst {α β : Type} {x : Eval α} {k : α → Eval β} {s : State} {b : β}
    (h : ((x >>= k) s).map Prod.fst = some b) :
    ∃ a t u, x s = some (a, t) ∧ k a t = some (b, u) := by
  obtain ⟨⟨_, u⟩, hrun, rfl⟩ := Option.map_eq_some_iff.1 h
  obtain ⟨a, t, hx, hk⟩ := bind_eq_some_iff.1 hrun
  exact ⟨a, t, u, hx, hk⟩

/-- A function that returns a hash with quoted syntax in it. -/
def quotedEntry (key value : Expr) : Expr :=
  .fn ["x"] [.ret (.hash [(key, .call (.ident "quote") [value])])]

/-- The arguments come into the key of a hash and into quoted syntax, in the body of a function.
One of them is a call of a macro, and one is dropped. -/
theorem template_call_substitutes_entry :
    let unquote (name : String) : Expr := .call (.ident "unquote") [.ident name]
    let entry := quoting "entry" ["a", "b"] (quotedEntry (unquote "a") (unquote "b"))
    let p := defining [entry, quoting "one" [] (.int 1)]
    let args := [.call (.ident "one") [], .ident "y", .int 2]
    ∃ rest s v w,
      defineMacros (m := Eval) 0 p emptyScope = some (rest, s) ∧
      (rewriteExprsM (expandVisit (evaluate 2) 0) (.ident "entry" :: args)).run none s =
        some (([.ident "entry", .int 1, .ident "y", .int 2], none), v) ∧
      ((Expr.call (.ident "entry") args).rewriteM (expandVisit (evaluate 2) 0)).run none s =
        some ((quotedEntry (.int 1) (.ident "y"), none), w) ∧
      w.output = v.output := by
  intro unquote entry p args
  obtain ⟨rest, s, v, hdefine, hparts⟩ := exists_run_of_map_fst
    (x := defineMacros 0 p) (s := emptyScope)
    (k := fun _ => (rewriteExprsM (expandVisit (evaluate 2) 0) (.ident "entry" :: args)).run none)
    (b := ([.ident "entry", .int 1, .ident "y", .int 2], none)) (by decide +kernel)
  have htemplate : entry.IsTemplate (quotedEntry (unquote "a") (unquote "b")) := by
    refine ⟨rfl, by decide, by decide, ?_⟩
    unfold Expr.UnquotesOnly
    decide +kernel
  obtain ⟨w, hcall, heq, -⟩ := template_call_substitutes hdefine (by decide) rfl htemplate rfl
    hparts (by decide) (by decide +kernel)
  -- the instance of the template is computed apart
  have hinstance : (quotedEntry (unquote "a") (unquote "b")).instantiate
      (substitution entry.params [.int 1, .ident "y", .int 2]) =
        quotedEntry (.int 1) (.ident "y") := by decide +kernel
  rw [hinstance] at hcall
  exact ⟨rest, s, v, w, hdefine, hparts, hcall, by rw [heq]⟩

/-- An argument that is not the name `unquote` may still expand to it; then the call that it comes
into is evaluated, and the template is not what comes of the call of the macro. -/
theorem template_with_expanded_name :
    let called := Expr.call (.call (.ident "unquote") [.ident "f"]) [.binary .add (.int 1) (.int 2)]
    let three := quoting "three" ["f"] called
    let p := defining [three, quoting "name" [] (.ident "unquote")]
    let args := [.call (.ident "name") []]
    ∃ rest s v w,
      defineMacros (m := Eval) 0 p emptyScope = some (rest, s) ∧
      lastDefinition? three.name (macroDefinitions p) = some three ∧
      three.IsTemplate called ∧ three.params.length ≤ args.length ∧
      (∀ a ∈ args.take three.params.length, a ≠ .ident "unquote") ∧
      (rewriteExprsM (expandVisit (evaluate 3) 0) (.ident "three" :: args)).run none s =
        some (([.ident "three", .ident "unquote"], none), v) ∧
      ((Expr.call (.ident "three") args).rewriteM (expandVisit (evaluate 3) 0)).run none s =
        some ((.int 3, none), w) ∧
      called.instantiate (substitution three.params [.ident "unquote"]) ≠ .int 3 := by
  intro called three p args
  obtain ⟨rest, s, v, hdefine, hparts⟩ := exists_run_of_map_fst
    (x := defineMacros 0 p)
    (k := fun _ => (rewriteExprsM (expandVisit (evaluate 3) 0) (.ident "three" :: args)).run none)
    (s := emptyScope) (b := ([.ident "three", .ident "unquote"], none)) (by decide +kernel)
  obtain ⟨_, _, w, hdefine', hcall⟩ := exists_run_of_map_fst
    (x := defineMacros 0 p)
    (k := fun _ => ((Expr.call (.ident "three") args).rewriteM
      (expandVisit (evaluate 3) 0)).run none)
    (s := emptyScope) (b := (.int 3, none)) (by decide +kernel)
  -- both runs begin with the same definitions
  cases hdefine.symm.trans hdefine'
  have htemplate : three.IsTemplate called := by
    refine ⟨rfl, by decide, by decide, ?_⟩
    unfold Expr.UnquotesOnly
    decide +kernel
  exact ⟨rest, s, v, w, hdefine, rfl, htemplate, by decide, by decide +kernel, hparts, hcall,
    by decide +kernel⟩

end Monkey
