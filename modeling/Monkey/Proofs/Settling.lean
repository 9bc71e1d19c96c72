import Mathlib.Logic.Function.Basic
import Monkey.Proofs.MacroFree

/-!
# What evaluation settles on

Evaluation settles on a result if it has that result within every great enough budget.  Then the
budget goes out of sight: what an expression settles on is told by a rule for each form, from what
its parts settle on, with the states that come between.

Most of these states differ in nothing but what was made on the way.  A state is an extension of an
earlier one if nothing that was there has changed, except in scopes that are named.  And what
matters of a scope is only which value each name has in it.

A source is run in a fresh environment if both its names and its macros are bound in new scopes.

## Main definitions

* `Eval.Settles` — a result within every great enough budget.
* `Expr.Yields`, `ArgsYield`, `Block.Yields`, `Value.Gives` — what expressions, arguments, bodies
  and calls settle on.
* `Scopes.Sees`, `bindAll` — the values that all names have in a scope.
* `State.Extends` — nothing has changed but in some scopes.
* `State.session` — a session in new scopes.
* `Session.Answers` — what a source is answered with.

## Main results

* `Value.Gives.function`, `Value.Gives.refused` — **a call settles on what the body does, or is
  refused at the limit.**
* `State.Extends.leave` — a call changes nothing that was there.
* `Session.answers_of_yields` — a source without macros is answered with what its statements settle
  on.
-/

namespace Monkey

open Eval Machine

/-! ### Results within great enough budgets -/

namespace Eval

/-- Within every great enough budget the evaluation ends with this result in this state. -/
def Settles {α : Type} (x : Nat → Eval α) (s : State) (a : α) (t : State) : Prop :=
  ∃ n, ∀ budget ≥ n, x budget s = some (a, t)

namespace Settles

variable {α β : Type} {s t u : State} {a : α} {b : β} {v w : Value}

/-- The budget does not matter where nothing is made of it. -/
theorem const {x : Eval α} (h : x s = some (a, t)) : Settles (fun _ => x) s a t :=
  ⟨0, fun _ _ => h⟩

theorem bind {x : Nat → Eval α} {k : Nat → α → Eval β} (hx : Settles x s a t)
    (hk : Settles (k · a) t b u) : Settles (fun n => x n >>= k n) s b u := by
  obtain ⟨m, hm⟩ := hx
  obtain ⟨n, hn⟩ := hk
  refine ⟨max m n, fun budget hle => ?_⟩
  have hfirst := hm budget (by omega)
  have hsecond := hn budget (by omega)
  exact bind_eq_some_iff.2 ⟨a, t, hfirst, hsecond⟩

theorem andThen {x : Nat → Eval Value} {k : Nat → Value → Eval Value} (hx : Settles x s v t)
    (hv : v.isAbrupt = false) (hk : Settles (k · v) t w u) :
    Settles (fun n => Machine.andThen (x n) (k n)) s w u := by
  refine hx.bind ?_
  simp only [hv]
  exact hk

/-- What one evaluation settles on, so does another one that does the same in that state. -/
theorem congr {x y : Nat → Eval α} (hx : Settles x s a t) (h : ∀ n, y n s = x n s) :
    Settles y s a t := by
  obtain ⟨m, hm⟩ := hx
  exact ⟨m, fun budget hle => (h budget).trans (hm budget hle)⟩

end Settles

end Eval

/-- The state after one address has been given out. -/
def State.afterFresh (s : State) : State := { s with nextAddress := s.nextAddress + 1 }

/-- The state after a name has been bound in a scope. -/
def State.bind (s : State) (scope : Nat) (name : String) (v : Value) : State :=
  { s with scopes := s.scopes.set scope name v }

/-- The state after a function literal has been evaluated and bound in its own scope. -/
def State.define (s : State) (name : String) (c : Closure) : State :=
  s.afterFresh.bind c.scope name (.function s.nextAddress c)

/-- Binds names in a scope, in order. -/
def Scopes.setAll (s : Scopes) (scope : Nat) (bindings : List (String × Value)) : Scopes :=
  bindings.foldl (fun s b => s.set scope b.1 b.2) s

theorem Scopes.grown_setAll (s : Scopes) (scope : Nat) (bindings : List (String × Value)) :
    s.Grown (· = scope) (s.setAll scope bindings) := by
  induction bindings generalizing s with
  | nil => exact .refl _ s
  | cons b rest ih => exact (Scopes.grown_set (by rfl) s b.1 b.2).trans (ih _)

theorem setNames_apply (scope : Nat) (bindings : List (String × Value)) (s : State) :
    setNames (m := Eval) scope bindings s =
      some ((), { s with scopes := s.scopes.setAll scope bindings }) := by
  induction bindings generalizing s with
  | nil => rfl
  | cons b rest ih =>
    refine bind_eq_some_iff.2 ⟨(), s.bind scope b.1 b.2, rfl, ?_⟩
    exact ih _

/-- The state in which the body of a function begins: a new scope binds the parameters, and one
more call is active. -/
def State.enter (s : State) (c : Closure) (args : List Value) : State :=
  { s with
    scopes := (s.scopes.add (some c.scope)).setAll s.scopes.size (c.params.zip args)
    callDepth := s.callDepth + 1 }

/-- The state in which a call ends whose body ends in this one. -/
def State.leave (t : State) : State := { t with callDepth := t.callDepth - 1 }

/-- When a call begins, nothing has changed in the scopes that were there. -/
theorem State.grown_enter (s : State) (c : Closure) (args : List Value) :
    s.scopes.Grown noScope (s.enter c args).scopes := by
  have hnew := Scopes.grown_add (· = s.scopes.size) s.scopes (some c.scope)
  have hparams := (s.scopes.add (some c.scope)).grown_setAll s.scopes.size (c.params.zip args)
  refine (hnew.trans hparams).weaken ?_
  rintro id hid rfl
  exact absurd hid (Nat.lt_irrefl _)

/-! ### Rules -/

/-- The expression settles on a value in a scope. -/
def Expr.Yields (e : Expr) (scope : Nat) (s : State) (v : Value) (t : State) : Prop :=
  Settles (evaluate · e scope) s v t

/-- The expressions settle on values, one after another. -/
def ArgsYield (es : List Expr) (scope : Nat) (s : State) (vs : List Value) (t : State) : Prop :=
  Settles (fun n => evalArgs (evaluate n) scope es) s (.ok vs) t

/-- The statements settle on a value. -/
def Block.Yields (body : Block) (scope : Nat) (s : State) (v : Value) (t : State) : Prop :=
  Settles (fun n => evalBody (evaluate n) body scope) s v t

/-- A call of the value from a scope settles on a value. -/
def Value.Gives (f : Value) (args : List Value) (scope : Nat) (s : State) (v : Value) (t : State) :
    Prop :=
  Settles (fun n => applyValue (evaluate n) f args scope) s v t

section

variable {scope : Nat} {s t u r : State} {v w f : Value} {vs args : List Value}

namespace Expr.Yields

theorem of_step {e : Expr} (h : Settles (fun n => evalStep (evaluate n) e scope) s v t) :
    e.Yields scope s v t := by
  obtain ⟨n, hn⟩ := h
  refine ⟨n + 1, fun budget hle => ?_⟩
  obtain ⟨m, rfl⟩ := Nat.exists_eq_add_of_le' (Nat.one_le_of_lt hle)
  exact hn m (Nat.le_of_succ_le_succ hle)

theorem int (n : Int64) : (Expr.int n).Yields scope s (.integer n) s := of_step (.const rfl)

theorem fn (params : List String) (body : Block) :
    (Expr.fn params body).Yields scope s (.function s.nextAddress ⟨params, body, scope⟩)
      s.afterFresh :=
  of_step (.const rfl)

/-- A name that the scope knows. -/
theorem ident (name : String) (s : State) (hname : Intrinsic.ofName? name = none)
    (hfound : s.scopes.find? scope name = some v) : (Expr.ident name).Yields scope s v s := by
  refine of_step (.const ?_)
  simp only [hname]
  refine bind_eq_some_iff.2 ⟨some v, s, ?_, rfl⟩
  change findName scope name s = _
  rw [findName, hfound]

/-- The name of a native function that the scope does not know. -/
theorem builtin {b : Builtin} (hname : Intrinsic.ofName? b.name = none)
    (hfound : s.scopes.find? scope b.name = none) :
    (Expr.ident b.name).Yields scope s (.builtin b) s := by
  refine of_step (.const ?_)
  simp only [hname]
  refine bind_eq_some_iff.2 ⟨none, s, ?_, ?_⟩
  · change findName scope b.name s = _
    rw [findName, hfound]
  · rw [Builtin.ofName?_name]
    rfl

theorem binary (op : InfixOp) {left right : Expr} (hleft : left.Yields scope s v t)
    (hv : v.isAbrupt = false) (hright : right.Yields scope t w u) (hw : w.isAbrupt = false) :
    (Expr.binary op left right).Yields scope s (op.apply v w u.nextAddress) u.afterFresh :=
  of_step (hleft.andThen hv (hright.andThen hw (.const rfl)))

theorem cond {c : Expr} {consequence alternative : Block} (hc : c.Yields scope s v t)
    (hv : v.isAbrupt = false)
    (hbranch : Block.Yields (if v.isTruthy then consequence else alternative) scope t w u) :
    (Expr.cond c consequence (some alternative)).Yields scope s w u := by
  refine of_step (hc.andThen hv ?_)
  cases htruthy : v.isTruthy <;> rw [htruthy] at hbranch <;> exact hbranch

theorem array {es : List Expr} (hes : ArgsYield es scope s vs t) :
    (Expr.array es).Yields scope s (.array t.nextAddress vs) t.afterFresh :=
  of_step (hes.bind (.const rfl))

theorem call {callee : Expr} {es : List Expr} (hquote : callee.name? ≠ some "quote")
    (hcallee : callee.Yields scope s f t) (hf : f.isAbrupt = false)
    (hes : ArgsYield es scope t vs u) (hcall : f.Gives vs scope u w r) :
    (Expr.call callee es).Yields scope s w r := by
  refine of_step ?_
  simp only [evalStep, if_neg hquote]
  exact hcallee.andThen hf (hes.bind hcall)

end Expr.Yields

namespace ArgsYield

theorem nil : ArgsYield [] scope s [] s := Settles.const rfl

theorem cons {e : Expr} {es : List Expr} (he : e.Yields scope s v t) (hv : v.isAbrupt = false)
    (hes : ArgsYield es scope t vs u) : ArgsYield (e :: es) scope s (v :: vs) u := by
  refine Settles.bind he ?_
  simp only [hv]
  exact Settles.bind hes (.const rfl)

end ArgsYield

namespace Block.Yields

variable {e : Expr} {st : Stmt} {rest : Block}

theorem single (he : e.Yields scope s v t) : Block.Yields [.expr e] scope s v t := by
  refine Settles.congr he fun n => ?_
  rw [evalBody_singleton]

theorem letBe (name : String) (he : e.Yields scope s v t) (hv : v.isAbrupt = false)
    (hrest : Block.Yields (st :: rest) scope (t.bind scope name v) w u) :
    Block.Yields (.letBe name e :: st :: rest) scope s w u := by
  have hbind : Settles (fun n => evalStmt (evaluate n) (.letBe name e) scope) s v
      (t.bind scope name v) :=
    Settles.andThen he hv (.const rfl)
  exact Settles.andThen hbind hv hrest

theorem define (name : String) (c : Closure)
    (hrest : Block.Yields (st :: rest) c.scope (s.define name c) w u) :
    Block.Yields (.letBe name (.fn c.params c.body) :: st :: rest) c.scope s w u :=
  letBe name (.fn c.params c.body) rfl hrest

theorem expr (he : e.Yields scope s v t) (hv : v.isAbrupt = false)
    (hrest : Block.Yields (st :: rest) scope t w u) :
    Block.Yields (.expr e :: st :: rest) scope s w u :=
  Settles.andThen he hv hrest

/-- A program settles on what its statements settle on, or on what they return. -/
theorem program {p : Program} (h : Block.Yields p scope s v t) :
    Settles (fun n => runProgram n p scope) s v.unwrapReturn t :=
  Settles.bind h (.const rfl)

end Block.Yields

namespace Value.Gives

/-- A function that may be called runs its body. -/
theorem callClosure_apply (eval : Expr → Nat → Eval Value) {c : Closure}
    (hargs : c.params.length ≤ args.length) (hdepth : s.callDepth < s.maxCallDepth) :
    callClosure eval c args s =
      (evalBody eval c.body s.scopes.size (s.enter c args)).bind fun r =>
        some (r.1.unwrapReturn, r.2.leave) := by
  have hnames := setNames_apply s.scopes.size (c.params.zip args)
    { s with scopes := s.scopes.add (some c.scope) }
  have hpermit : permit c args s = some (none, s) := by
    rw [permit, Closure.refusal?_eq_none_iff.2 ⟨hargs, hdepth⟩]
  rw [callClosure_eq, bind_apply, hpermit, Option.bind_some]
  change (setNames (m := Eval) s.scopes.size (c.params.zip args)
    { s with scopes := s.scopes.add (some c.scope) }).bind _ = _
  rw [hnames]
  rfl

/-- **A call settles on what the body settles on, or on what that returns.** -/
theorem function {addr : Nat} {c : Closure} (hargs : c.params.length ≤ args.length)
    (hdepth : s.callDepth < s.maxCallDepth)
    (hbody : c.body.Yields s.scopes.size (s.enter c args) v t) :
    (Value.function addr c).Gives args scope s v.unwrapReturn t.leave := by
  obtain ⟨m, hm⟩ := hbody
  refine ⟨m, fun budget hle => ?_⟩
  have hrun : evalBody (evaluate budget) c.body s.scopes.size (s.enter c args) = some (v, t) :=
    hm budget hle
  change callClosure (evaluate budget) c args s = _
  rw [callClosure_apply (evaluate budget) hargs hdepth, hrun]
  rfl

/-- **A call is refused where the limit is reached.** -/
theorem refused {addr : Nat} {c : Closure} (hargs : c.params.length ≤ args.length)
    (hdepth : s.maxCallDepth ≤ s.callDepth) :
    (Value.function addr c).Gives args scope s
      ((EvalError.stackOverflow s.maxCallDepth).toValue s.nextAddress) s.afterFresh := by
  refine ⟨0, fun budget _ => ?_⟩
  change callClosure (evaluate budget) c args s = _
  have hpermit : permit c args s = some (some (.stackOverflow s.maxCallDepth), s) := by
    rw [permit, Closure.refusal?, if_neg (Nat.not_lt.2 hargs), if_pos hdepth]
  rw [callClosure_eq, bind_apply, hpermit]
  rfl

/-- A native function prints, and makes its value at a new address. -/
theorem builtin (b : Builtin) :
    (Value.builtin b).Gives args scope s (b.apply args s.nextAddress)
      { s with output := s.output.printLines (b.printed args) }.afterFresh :=
  .const rfl

end Value.Gives

end

/-! ### What a scope sees -/

/-- Names that are bound one after another, on top of what they meant before. -/
def bindAll (σ : String → Option Value) (bindings : List (String × Value)) :
    String → Option Value :=
  bindings.foldl (fun σ b => Function.update σ b.1 (some b.2)) σ

/-- A name that is not bound means what it meant before. -/
theorem bindAll_of_notMem {σ : String → Option Value} {bindings : List (String × Value)}
    {name : String} (h : name ∉ bindings.map Prod.fst) : bindAll σ bindings name = σ name := by
  induction bindings generalizing σ with
  | nil => rfl
  | cons b rest ih =>
    rw [List.map_cons, List.mem_cons, not_or] at h
    exact (ih h.2).trans (Function.update_of_ne h.1 _ _)

/-- All names have the given values in a scope of the store. -/
structure Scopes.Sees (s : Scopes) (scope : Nat) (σ : String → Option Value) : Prop where
  lt_size : scope < s.size
  find?_eq : ∀ name, s.find? scope name = σ name

namespace Scopes.Sees

variable {s t : Scopes} {scope : Nat} {σ : String → Option Value}

theorem refl (h : scope < s.size) : s.Sees scope (s.find? scope) := ⟨h, fun _ => rfl⟩

/-- A new scope that lies in no other one sees nothing. -/
theorem alone (s : Scopes) : (s.add none).Sees s.size fun _ => none where
  lt_size := by simp
  find?_eq name := by
    rw [find?_eq_or, bindings, outer?, get?_add_self]
    rfl

/-- A new scope sees what the scope around it sees. -/
theorem add (h : s.Sees scope σ) : (s.add (some scope)).Sees s.size σ where
  lt_size := by simp
  find?_eq name := by rw [find?_add_self s name h.lt_size, h.find?_eq]

theorem set (h : s.Sees scope σ) (name : String) (v : Value) :
    (s.set scope name v).Sees scope (Function.update σ name (some v)) where
  lt_size := by rw [size_set]; exact h.lt_size
  find?_eq other := by
    by_cases hother : other = name
    · subst hother
      rw [s.find?_set_self other v h.lt_size, Function.update_self]
    · rw [s.find?_set_of_ne scope v hother, Function.update_of_ne hother, h.find?_eq]

theorem setAll (h : s.Sees scope σ) (bindings : List (String × Value)) :
    (s.setAll scope bindings).Sees scope (bindAll σ bindings) := by
  induction bindings generalizing s σ with
  | nil => exact h
  | cons b rest ih => exact ih (h.set b.1 b.2)

/-- A scope sees the same after others have been made. -/
theorem grown (h : s.Sees scope σ) (hst : s.Grown noScope t) : t.Sees scope σ where
  lt_size := Nat.lt_of_lt_of_le h.lt_size hst.size_le
  find?_eq name := by rw [hst.find?_eq name h.lt_size, h.find?_eq]

/-- The scope of a call sees what the function's scope does, and the parameters on top. -/
theorem enter {s : State} {c : Closure} (h : s.scopes.Sees c.scope σ) (args : List Value) :
    (s.enter c args).scopes.Sees s.scopes.size (bindAll σ (c.params.zip args)) :=
  h.add.setAll _

/-- The scope of a call sees the parameters, even where the function's scope is unknown. -/
theorem enter_new (s : State) (c : Closure) (args : List Value) :
    (s.enter c args).scopes.Sees s.scopes.size
      (bindAll ((s.scopes.add (some c.scope)).find? s.scopes.size) (c.params.zip args)) :=
  (refl (by simp)).setAll _

/-- A scope that was there sees the same when a call begins. -/
theorem entered {s : State} (h : s.scopes.Sees scope σ) (c : Closure) (args : List Value) :
    (s.enter c args).scopes.Sees scope σ :=
  h.grown (s.grown_enter c args)

/-- A name yields what the scope sees. -/
theorem ident (s : State) (h : s.scopes.Sees scope σ) (name : String) {v : Value}
    (hname : Intrinsic.ofName? name = none) (hfound : σ name = some v) :
    (Expr.ident name).Yields scope s v s :=
  .ident name s hname ((h.find?_eq name).trans hfound)

/-- A native function is called by its name where that means nothing else. -/
theorem callBuiltin (s : State) (h : s.scopes.Sees scope σ) (b : Builtin)
    (hb : σ b.name = none) {es : List Expr} {vs : List Value} {t : State}
    (hes : ArgsYield es scope s vs t) :
    (Expr.call (.ident b.name) es).Yields scope s (b.apply vs t.nextAddress)
      { t with output := t.output.printLines (b.printed vs) }.afterFresh := by
  have hname : Intrinsic.ofName? b.name = none ∧ (Expr.ident b.name).name? ≠ some "quote" := by
    cases b <;> decide
  exact .call hname.2 (.builtin hname.1 ((h.find?_eq _).trans hb)) rfl hes (.builtin b)

end Scopes.Sees

/-! ### Extensions of states -/

/-- In the later state nothing has changed of the earlier one, except in the scopes that `own` holds
for: nothing was printed, no task was started or asked for, and as many calls are active. -/
structure State.Extends (own : Nat → Prop) (s t : State) : Prop where
  grown : s.scopes.Grown own t.scopes
  tasks_eq : t.tasks = s.tasks
  output_eq : t.output = s.output
  address_le : s.nextAddress ≤ t.nextAddress
  callDepth_eq : t.callDepth = s.callDepth
  maxCallDepth_eq : t.maxCallDepth = s.maxCallDepth

namespace State.Extends

variable {own : Nat → Prop} {s t u : State}

theorem refl (own : Nat → Prop) (s : State) : s.Extends own s :=
  ⟨.refl own s.scopes, rfl, rfl, Nat.le_refl _, rfl, rfl⟩

theorem trans (hst : s.Extends own t) (htu : t.Extends own u) : s.Extends own u where
  grown := hst.grown.trans htu.grown
  tasks_eq := htu.tasks_eq.trans hst.tasks_eq
  output_eq := htu.output_eq.trans hst.output_eq
  address_le := Nat.le_trans hst.address_le htu.address_le
  callDepth_eq := htu.callDepth_eq.trans hst.callDepth_eq
  maxCallDepth_eq := htu.maxCallDepth_eq.trans hst.maxCallDepth_eq

theorem afterFresh (own : Nat → Prop) (s : State) : s.Extends own s.afterFresh :=
  { State.Extends.refl own s with address_le := Nat.le_succ _ }

theorem bind (s : State) (scope : Nat) (name : String) (v : Value) :
    s.Extends (· = scope) (s.bind scope name v) :=
  { State.Extends.refl (· = scope) s with grown := Scopes.grown_set (by rfl) s.scopes name v }

theorem define (s : State) (name : String) (c : Closure) :
    s.Extends (· = c.scope) (s.define name c) :=
  (State.Extends.afterFresh _ s).trans (.bind s.afterFresh c.scope name _)

/-- What changes nothing changes nothing but in some scopes. -/
theorem weaken (h : s.Extends noScope t) : s.Extends own t :=
  { h with grown := h.grown.weaken fun _ _ hnone => hnone.elim }

/-- **A call changes nothing that was there**, if its body changes only the scope of the call. -/
theorem leave {c : Closure} {args : List Value}
    (h : (s.enter c args).Extends (· = s.scopes.size) t) :
    s.Extends noScope t.leave where
  grown := by
    have henter : s.scopes.Grown (· = s.scopes.size) (s.enter c args).scopes :=
      (s.grown_enter c args).weaken nofun
    refine (henter.trans h.grown).weaken ?_
    rintro id hid rfl
    exact absurd hid (Nat.lt_irrefl _)
  tasks_eq := h.tasks_eq
  output_eq := h.output_eq
  address_le := h.address_le
  callDepth_eq := congrArg (· - 1) h.callDepth_eq
  maxCallDepth_eq := h.maxCallDepth_eq

end State.Extends

theorem Value.unwrapReturn_of_not_abrupt {v : Value} (h : v.isAbrupt = false) :
    v.unwrapReturn = v := by
  cases v <;> first | rfl | cases h

/-- A call of a function whose body returns nothing by a `return` and changes only the scope of the
call. -/
theorem Value.Gives.exists_extends (addr scope : Nat) {c : Closure} {args : List Value}
    {s t : State} {v : Value} (hbody : c.body.Yields s.scopes.size (s.enter c args) v t)
    (hargs : c.params.length ≤ args.length) (hdepth : s.callDepth < s.maxCallDepth)
    (hv : v.unwrapReturn = v)
    (hextends : (s.enter c args).Extends (· = s.scopes.size) t) :
    ∃ t', (Value.function addr c).Gives args scope s v t' ∧ s.Extends noScope t' := by
  have hcall : (Value.function addr c).Gives args scope s v.unwrapReturn t.leave :=
    .function hargs hdepth hbody
  rw [hv] at hcall
  exact ⟨_, hcall, hextends.leave⟩

/-! ### Numbers -/

/-- A number that fits in sixty-four signed bits does not become zero in them, unless it is. -/
theorem ofNat_ne_zero {n : Nat} (hpos : 0 < n) (hn : n < Int64.size / 2) : Int64.ofNat n ≠ 0 := by
  intro heq
  have hvalue := congrArg Int64.toInt heq
  rw [Int64.toInt_ofNat_of_lt hn] at hvalue
  exact Nat.ne_of_gt hpos (Int.ofNat_eq_zero.1 hvalue)

/-! ### Sources in fresh environments -/

/-- A session that goes on with the state in new scopes. -/
def State.session (s : State) : Session where
  state := { s with scopes := (s.scopes.add none).add none }
  globals := s.scopes.size
  macros := s.scopes.size + 1

namespace Session

/-- Within every great enough budget the session answers the source with a value. -/
def Answers (σ : Session) (source : String) (v : Value) (τ : Session) : Prop :=
  ∃ n, ∀ budget ≥ n, σ.run budget source = some (.ok (some v), τ)

theorem separate_session (s : State) : s.session.Separate where
  globals_ne := Nat.ne_of_lt (Nat.lt_succ_self s.scopes.size)
  macros_lt := by simp [State.session]
  outer?_eq := by simp [State.session, Scopes.outer?_add]

/-- In the new environment no name means anything. -/
theorem sees_session (s : State) :
    s.session.state.scopes.Sees s.session.globals fun _ => none :=
  (Scopes.Sees.alone s.scopes).grown (Scopes.grown_add noScope _ none)

theorem bindsNoMacro_session (s : State) : s.session.BindsNoMacro := by
  intro name addr mac hfound
  have hsees := Scopes.Sees.alone (s.scopes.add none)
  rw [Scopes.size_add] at hsees
  cases (hsees.find?_eq name).symm.trans hfound

/-- **A source without macros is answered with what its statements settle on**, or with what that
returns. -/
theorem answers_of_yields {σ : Session} (hmacros : σ.BindsNoMacro) {source : String} {p : Program}
    (hparse : parse source = ⟨p, []⟩) (hp : p ≠ []) (hdefs : macroDefinitions p = []) {v : Value}
    {t : State} (h : Block.Yields p σ.globals σ.state v t) :
    σ.Answers source v.unwrapReturn { σ with state := t } := by
  obtain ⟨n, hn⟩ := h.program
  refine ⟨n, fun budget hle => ?_⟩
  have hrun : runProgram budget p σ.globals σ.state = some (v.unwrapReturn, t) := hn budget hle
  rw [run_eq_runProgram budget hmacros hp hdefs hparse, hrun]
  rfl

end Session

end Monkey
