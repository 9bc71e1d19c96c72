import Monkey.Proofs.Rewriting
import Monkey.Proofs.Runs

/-!
# What evaluation writes

Evaluation binds names in the scope that it runs in and in scopes that it creates, and nowhere else.
Calls, texts given to `eval` and tasks run in scopes of their own; so whatever is called, every
scope that was there before keeps its bindings.

## Main definitions

* `Scopes.Grown` — a later store that differs, among the scopes of an earlier one, only where a
  predicate allows it.
* `Eval.WritesOnly` — an evaluation that turns every store into such a later one.

## Main results

* `applyValue_writesOnly` — **a call changes none of the scopes that were there before.**
* `evaluate_writesOnly` — **evaluation changes the scope it runs in and no other that was there
  before.**
-/

namespace Monkey

/-- The later store `t` has all scopes of `s`, each inside the same scope and with all its names;
those that `own` does not hold for are unchanged. -/
structure Scopes.Grown (own : Nat → Prop) (s t : Scopes) : Prop where
  size_le : s.size ≤ t.size
  get?_eq : ∀ {id : Nat}, id < s.size → ¬own id → t.get? id = s.get? id
  outer?_eq : ∀ {id : Nat}, id < s.size → t.outer? id = s.outer? id
  bindsLocally : ∀ {id : Nat} {name : String}, s.bindsLocally id name = true →
    t.bindsLocally id name = true

namespace Scopes

variable {own : Nat → Prop} {s t u : Scopes}

/-- A scope that binds a name is one of the store. -/
theorem lt_size_of_bindsLocally {id : Nat} {name : String} (h : s.bindsLocally id name = true) :
    id < s.size := by
  by_cases hid : id < s.size
  · exact hid
  · have hnone := s.get?_of_size_le (Nat.le_of_not_lt hid)
    simp [Scopes.bindsLocally, Scopes.bindings, hnone] at h

theorem Grown.refl (own : Nat → Prop) (s : Scopes) : Grown own s s :=
  ⟨Nat.le_refl _, fun _ _ => rfl, fun _ => rfl, id⟩

theorem Grown.trans (hst : Grown own s t) (htu : Grown own t u) : Grown own s u where
  size_le := Nat.le_trans hst.size_le htu.size_le
  get?_eq hid hown := by
    rw [htu.get?_eq (Nat.lt_of_lt_of_le hid hst.size_le) hown, hst.get?_eq hid hown]
  outer?_eq hid := by
    rw [htu.outer?_eq (Nat.lt_of_lt_of_le hid hst.size_le), hst.outer?_eq hid]
  bindsLocally h := htu.bindsLocally (hst.bindsLocally h)

/-- Only what is said of the scopes of the earlier store counts. -/
theorem Grown.weaken {more : Nat → Prop} (h : Grown more s t)
    (hown : ∀ id, id < s.size → more id → own id) : Grown own s t where
  size_le := h.size_le
  get?_eq hid hnot := h.get?_eq hid fun hmore => hnot (hown _ hid hmore)
  outer?_eq := h.outer?_eq
  bindsLocally := h.bindsLocally

theorem grown_add (own : Nat → Prop) (s : Scopes) (outer : Option Nat) :
    Grown own s (s.add outer) where
  size_le := by rw [size_add]; omega
  get?_eq hid _ := get?_add_of_lt s outer hid
  outer?_eq hid := by simp only [outer?, get?_add_of_lt s outer hid]
  bindsLocally h := by
    simpa only [Scopes.bindsLocally, Scopes.bindings,
      get?_add_of_lt s outer (lt_size_of_bindsLocally h)] using h

theorem grown_set {id : Nat} (hown : own id) (s : Scopes) (name : String) (value : Value) :
    Grown own s (s.set id name value) where
  size_le := Nat.le_of_eq (size_set s id name value).symm
  get?_eq {other} _ hnot := by
    refine get?_set_of_ne s name value ?_
    rintro rfl
    exact hnot hown
  outer?_eq _ := outer?_set s id _ name value
  bindsLocally {other} {name'} h := by
    by_cases hother : other = id
    · subst hother
      -- a rebound name is still bound, and the others are bound as before
      cases hget : s.get? other with
      | none => simp [Scopes.bindsLocally, Scopes.bindings, hget] at h
      | some scope =>
        simp only [Scopes.bindsLocally, Scopes.bindings, hget] at h
        simp only [Scopes.bindsLocally, Scopes.bindings, get?_set_self, hget, Option.map_some,
          Bindings.find?_set]
        split
        · rfl
        · exact h
    · simpa only [Scopes.bindsLocally, Scopes.bindings, get?_set_of_ne s name value hother]
        using h

end Scopes

namespace Eval

variable {α β : Type} {own : Nat → Prop}

/-- Whenever the evaluation ends, the scopes that were there before have changed only where `own`
allows it. -/
def WritesOnly (own : Nat → Prop) (x : Eval α) : Prop :=
  ∀ s a t, x s = some (a, t) → Scopes.Grown own s.scopes t.scopes

namespace WritesOnly

variable {x : Eval α} {k : α → Eval β}

/-- An evaluation that leaves the scopes alone. -/
theorem of_scopes_eq (h : ∀ s a t, x s = some (a, t) → t.scopes = s.scopes) :
    WritesOnly own x := by
  intro s a t hx
  rw [h s a t hx]
  exact Scopes.Grown.refl own s.scopes

theorem pure (a : α) : WritesOnly own (pure a : Eval α) := by
  refine of_scopes_eq fun s b t h => ?_
  cases h
  rfl

theorem stuck : WritesOnly own (stuck : Eval α) := by
  intro s a t h
  cases h

theorem bind (hx : WritesOnly own x) (hk : ∀ a, WritesOnly own (k a)) :
    WritesOnly own (x >>= k) := by
  intro s b t h
  obtain ⟨a, u, hxs, hku⟩ := bind_eq_some_iff.1 h
  exact (hx s a u hxs).trans (hk a u b t hku)

theorem weaken {more : Nat → Prop} (hx : WritesOnly own x) (h : ∀ id, own id → more id) :
    WritesOnly more x :=
  fun s a t hxs => (hx s a t hxs).weaken fun id _ hid => h id hid

/-- What runs in a scope created for it may write there: nobody had that scope before. -/
theorem newScope_bind {outer : Option Nat} {k : Nat → Eval β}
    (hk : ∀ id, WritesOnly (fun other => own other ∨ other = id) (k id)) :
    WritesOnly own (newScope outer >>= k) := by
  intro s b t h
  obtain ⟨id, u, hnew, hku⟩ := bind_eq_some_iff.1 h
  cases hnew
  refine (Scopes.grown_add _ s.scopes outer).trans (hk _ _ b t hku) |>.weaken ?_
  rintro other hother (h | rfl)
  · exact h
  · -- the new scope is the first one after those that were there before
    exact absurd hother (Nat.lt_irrefl _)

theorem setName {scope : Nat} (h : own scope) (name : String) (value : Value) :
    WritesOnly own (setName scope name value) := by
  intro s a t hset
  cases hset
  exact Scopes.grown_set h s.scopes name value

open Machine

theorem setNames {scope : Nat} (h : own scope) (bindings : List (String × Value)) :
    WritesOnly own (setNames scope bindings) := by
  induction bindings with
  | nil => exact pure ()
  | cons entry rest ih =>
    obtain ⟨name, value⟩ := entry
    exact bind (setName h name value) fun _ => ih

/-- An elementary step that leaves the scopes alone. -/
theorem of_step {step : State → α × State} (h : ∀ s, (step s).2.scopes = s.scopes) :
    WritesOnly own (fun s => some (step s)) := by
  refine of_scopes_eq fun s a t hs => ?_
  rw [← h s, Option.some.inj hs]

theorem fresh : WritesOnly own fresh := of_step fun _ => rfl

theorem allocate (make : Nat → Value) : WritesOnly own (allocate make) :=
  bind fresh fun _ => pure _

theorem raise (e : EvalError) : WritesOnly own (raise e) := allocate e.toValue

theorem andThen {x : Eval Value} {k : Value → Eval Value} (hx : WritesOnly own x)
    (hk : ∀ v, WritesOnly own (k v)) : WritesOnly own (andThen x k) := by
  refine bind hx fun v => ?_
  split
  · exact pure v
  · exact hk v

theorem onOwnCount (hx : WritesOnly own x) : WritesOnly own (onOwnCount x) := by
  intro s a t hrun
  obtain ⟨u, hbody, ht⟩ := onOwnCount_eq_some_iff.1 hrun
  have hgrown := hx _ _ _ hbody
  rwa [ht]

/-- A task writes what its body does, if the host starts it. -/
theorem start {x : Eval Value} (hx : WritesOnly own x) : WritesOnly own (start x) := by
  rw [start_eq]
  refine bind (of_step fun _ => rfl) fun id => bind (of_step fun _ => rfl) fun refusal => ?_
  cases refusal with
  | some reason => exact bind (of_step fun _ => rfl) fun _ => raise _
  | none => exact bind hx.onOwnCount fun v => bind (of_step fun _ => rfl) fun _ => pure _

theorem printLines (lines : List String) : WritesOnly own (printLines lines) :=
  of_step fun _ => rfl

end WritesOnly

end Eval

/-! ### What the parts of evaluation write -/

section

variable {eval : Expr → Nat → Eval Value}

/-- An evaluator of expressions writes the scope that it is given. -/
def WritesOwnScope (eval : Expr → Nat → Eval Value) : Prop :=
  ∀ e scope, Eval.WritesOnly (· = scope) (eval e scope)

open Eval

theorem evalStmt_writesOnly (h : WritesOwnScope eval) (st : Stmt) (scope : Nat) :
    WritesOnly (· = scope) (evalStmt eval st scope) := by
  cases st with
  | letBe name value =>
    refine .andThen (h value scope) fun v => ?_
    exact .bind (.setName (by rfl) name v) fun _ => .pure v
  | ret value =>
    exact .andThen (h value scope) fun v => .allocate fun addr => .returned addr v
  | expr value => exact h value scope

theorem evalBodyFrom_writesOnly (h : WritesOwnScope eval) (scope : Nat) (body : List Stmt) :
    ∀ last, WritesOnly (· = scope) (evalBodyFrom eval scope last body) := by
  induction body with
  | nil => exact fun last => .pure last
  | cons st rest ih => exact fun _ => .andThen (evalStmt_writesOnly h st scope) ih

theorem evalBody_writesOnly (h : WritesOwnScope eval) (body : Block) (scope : Nat) :
    WritesOnly (· = scope) (evalBody eval body scope) :=
  evalBodyFrom_writesOnly h scope body .null

theorem evalProgram_writesOnly (h : WritesOwnScope eval) (program : Program) (scope : Nat) :
    WritesOnly (· = scope) (evalProgram eval program scope) :=
  .bind (evalBody_writesOnly h program scope) fun _ => .pure _

theorem evalArgs_writesOnly (h : WritesOwnScope eval) (scope : Nat) (args : List Expr) :
    WritesOnly (· = scope) (evalArgs eval scope args) := by
  induction args with
  | nil => exact .pure _
  | cons e rest ih =>
    refine .bind (h e scope) fun v => ?_
    split
    · exact .pure _
    · refine .bind ih fun r => ?_
      cases r with
      | ok vs => exact .pure _
      | error w => exact .pure _

theorem evalPairs_writesOnly (h : WritesOwnScope eval) (scope : Nat)
    (pairs : List (Expr × Expr)) :
    ∀ entries, WritesOnly (· = scope) (evalPairs eval scope entries pairs) := by
  induction pairs with
  | nil => exact fun entries => .pure _
  | cons pair rest ih =>
    obtain ⟨key, value⟩ := pair
    intro entries
    refine .bind (h key scope) fun k => ?_
    split
    · exact .pure _
    · split
      · exact .bind (.raise _) fun _ => .pure _
      · refine .bind (h value scope) fun v => ?_
        split
        · exact .pure _
        · exact ih _

/-! ### What calls write -/

/-- The predicate that holds of no scope. -/
def noScope (_ : Nat) : Prop := False

/-- If none of the scopes that were there may change, a name has the same value in them as
before. -/
theorem Scopes.Grown.find?_eq {s t : Scopes} (h : s.Grown noScope t) (name : String) {id : Nat}
    (hid : id < s.size) : t.find? id name = s.find? id name := by
  induction id using Nat.strongRecOn with
  | _ id ih =>
    rw [t.find?_eq_or, s.find?_eq_or, bindings, bindings, h.get?_eq hid not_false, h.outer?_eq hid]
    cases houter : s.outer? id with
    | none => rfl
    | some outer =>
      have hlt : outer < id := s.outer?_lt houter
      rw [Option.bind_some, Option.bind_some, ih outer hlt (Nat.lt_trans hlt hid)]

/-- What writes only a scope created for it writes no scope that was there before. -/
theorem newScope_bind_writesNone {β : Type} {outer : Option Nat} {k : Nat → Eval β}
    (hk : ∀ id, WritesOnly (· = id) (k id)) : WritesOnly noScope (newScope outer >>= k) :=
  .newScope_bind fun id => (hk id).weaken fun _ h => Or.inr h

theorem callClosure_writesOnly (h : WritesOwnScope eval) (c : Closure) (args : List Value) :
    WritesOnly noScope (callClosure eval c args) := by
  rw [callClosure_eq]
  refine .bind (.of_step fun _ => rfl) fun refusal => ?_
  cases refusal with
  | some e => exact .raise e
  | none =>
    -- parameters and body write the scope of the call, which is new
    refine newScope_bind_writesNone fun scope => ?_
    refine .bind (.setNames (by rfl) _) fun _ => ?_
    refine .bind (.of_step fun _ => rfl) fun _ => ?_
    refine .bind (evalBody_writesOnly h c.body scope) fun v => ?_
    exact .bind (.of_step fun _ => rfl) fun _ => .pure _

theorem evalText_writesOnly (h : WritesOwnScope eval) (argument : Value) (scope : Nat) :
    WritesOnly noScope (evalText eval argument scope) := by
  unfold evalText
  split
  · split
    · exact newScope_bind_writesNone fun inner => evalProgram_writesOnly h _ inner
    · exact .raise _
  · exact .raise _

theorem launch_writesOnly (h : WritesOwnScope eval) (argument : Value) (scope : Nat) :
    WritesOnly noScope (launch eval argument scope) := by
  unfold launch
  split
  · refine newScope_bind_writesNone fun inner => ?_
    -- the task runs in the new scope, which lies inside the scope of the caller
    exact .start (evalBody_writesOnly h _ inner)
  · exact .raise _

theorem awaitTask_writesOnly (argument : Value) : WritesOnly noScope (awaitTask argument) := by
  unfold awaitTask
  split
  · next id =>
    have hjoin : ∀ s found t, joinTask id s = some (found, t) → t.scopes = s.scopes := by
      intro s found t hrun
      rw [(joinTask_eq_some_iff.1 hrun).2]
    refine .bind (.of_scopes_eq hjoin) fun found => ?_
    cases found with
    | some value => exact .pure value
    | none => exact .raise _
  · exact .raise _

theorem callIntrinsic_writesOnly (h : WritesOwnScope eval) (i : Intrinsic) (args : List Value)
    (scope : Nat) : WritesOnly noScope (callIntrinsic eval i args scope) := by
  unfold callIntrinsic
  split
  · cases i with
    | eval => exact evalText_writesOnly h _ scope
    | launch => exact launch_writesOnly h _ scope
    | await => exact awaitTask_writesOnly _
  · exact .raise _

/-- **A call changes none of the scopes that were there before**, whatever is called. -/
theorem applyValue_writesOnly (h : WritesOwnScope eval) (callee : Value) (args : List Value)
    (scope : Nat) : WritesOnly noScope (applyValue eval callee args scope) := by
  rw [applyValue_eq]
  split
  · exact callClosure_writesOnly h _ args
  · exact .bind (.printLines _) fun _ => .allocate _
  · exact callIntrinsic_writesOnly h _ args scope
  · exact .raise _

/-! ### What quoting writes -/

/-- Effects of rewriting that write only what `own` allows. -/
def writingOnly (own : Nat → Prop) :
    EffectRelation (StateT (Option Value) Eval) (StateT (Option Value) Eval) where
  Related x _ := ∀ failure, WritesOnly own (x.run failure)
  pure a failure := .pure (a, failure)
  bind hx hk failure := .bind (hx failure) fun p => hk p.1 p.2

theorem unquoteVisit_writesOnly (h : WritesOwnScope eval) (scope : Nat) (e : Expr) :
    (writingOnly (· = scope)).Related (unquoteVisit eval scope e) (unquoteVisit eval scope e) := by
  intro failure
  cases failure with
  | some err =>
    rw [run_unquoteVisit_some]
    exact .pure _
  | none =>
    rw [run_unquoteVisit_none]
    split
    · exact .pure _
    · refine .bind (h _ scope) fun v => ?_
      split
      · exact .pure _
      · exact .pure _

theorem quoteArgs_writesOnly (h : WritesOwnScope eval) (args : List Expr) (scope : Nat) :
    WritesOnly (· = scope) (quoteArgs eval args scope) := by
  cases args with
  | nil => exact .raise _
  | cons e rest =>
    have hvisit := unquoteVisit_writesOnly h scope
    -- only the visits evaluate anything, and they do so in the scope of the quote
    refine .bind (Expr.rewriteM_related (writingOnly (· = scope)) hvisit e none) fun p => ?_
    obtain ⟨node, failure⟩ := p
    cases failure with
    | some err => exact .pure _
    | none => exact .allocate _

/-! ### What evaluation writes -/

theorem evalName_writesOnly (name : String) (scope : Nat) :
    WritesOnly (· = scope) (evalName name scope) := by
  unfold evalName
  split
  · exact .pure _
  · refine .bind (.of_step fun _ => rfl) fun found => ?_
    split
    · exact .pure _
    · split
      · exact .pure _
      · exact .raise _

theorem evalBranch_writesOnly (h : WritesOwnScope eval) (branch : Option Block) (scope : Nat) :
    WritesOnly (· = scope) (evalBranch eval branch scope) := by
  cases branch with
  | none => exact .pure _
  | some body => exact evalBody_writesOnly h body scope

theorem evalStep_writesOnly (h : WritesOwnScope eval) (e : Expr) (scope : Nat) :
    WritesOnly (· = scope) (evalStep eval e scope) := by
  cases e with
  | ident name => exact evalName_writesOnly name scope
  | int value => exact .pure _
  | bool value => exact .pure _
  | str text => exact .allocate _
  | unary op right =>
    exact .andThen (h right scope) fun r => .allocate _
  | binary op left right =>
    refine .andThen (h left scope) fun l => ?_
    exact .andThen (h right scope) fun r => .allocate _
  | cond condition consequence alternative =>
    exact .andThen (h condition scope) fun c => evalBranch_writesOnly h _ scope
  | fn params body => exact .allocate _
  | macroFn params body => exact .allocate _
  | call callee args =>
    simp only [evalStep]
    split
    · exact quoteArgs_writesOnly h args scope
    · refine .andThen (h callee scope) fun f => ?_
      refine .bind (evalArgs_writesOnly h scope args) fun r => ?_
      cases r with
      -- what writes no scope that was there before writes only this one
      | ok vs => exact (applyValue_writesOnly h f vs scope).weaken fun _ hnone => hnone.elim
      | error v => exact .pure _
  | array elements =>
    refine .bind (evalArgs_writesOnly h scope elements) fun r => ?_
    cases r with
    | ok vs => exact .allocate _
    | error v => exact .pure _
  | index base position =>
    refine .andThen (h base scope) fun b => ?_
    exact .andThen (h position scope) fun p => .bind .fresh fun _ => .pure _
  | hash pairs =>
    refine .bind (evalPairs_writesOnly h scope pairs []) fun r => ?_
    cases r with
    | ok entries => exact .allocate _
    | error v => exact .pure _

end

/-- **Evaluation changes the scope it runs in and no other that was there before.** -/
theorem evaluate_writesOnly (budget : Nat) : WritesOwnScope (evaluate budget) := by
  induction budget with
  | zero => exact fun _ _ => .stuck
  | succ n ih => exact fun e scope => evalStep_writesOnly ih e scope

theorem runProgram_writesOnly (budget : Nat) (program : Program) (scope : Nat) :
    Eval.WritesOnly (· = scope) (runProgram budget program scope) :=
  evalProgram_writesOnly (evaluate_writesOnly budget) program scope

/-! ### The frame of evaluation -/

/-- From the store `s` to the later store `t` no scope changed but `scope`, which lost no name, and
every scope lies where it lay. -/
structure KeepsToScope (scope : Nat) (s t : Scopes) : Prop where
  others : ∀ id, id < s.size → id ≠ scope → t.get? id = s.get? id
  names : ∀ name, s.bindsLocally scope name = true → t.bindsLocally scope name = true
  outer : ∀ id, id < s.size → t.outer? id = s.outer? id

theorem Scopes.Grown.keepsToScope {scope : Nat} {s t : Scopes} (h : Grown (· = scope) s t) :
    KeepsToScope scope s t where
  others _ hid hne := h.get?_eq hid hne
  names _ hname := h.bindsLocally hname
  outer _ hid := h.outer?_eq hid

/-- **Evaluation writes only into the scope it runs in and into scopes it creates.**  However the
evaluation of an expression or of a program ends, every other scope that was there before is as it
was, the scope itself has lost no name, and no scope has moved.  A call, be it of a function, of
`eval` or of `launch`, leaves even the scope of its caller as it was. -/
theorem evaluation_keepsToScope (budget scope : Nat) (s t : State) (v : Value) :
    (∀ e, evaluate budget e scope s = some (v, t) → KeepsToScope scope s.scopes t.scopes) ∧
    (∀ program, runProgram budget program scope s = some (v, t) →
      KeepsToScope scope s.scopes t.scopes) ∧
    (∀ callee args, applyValue (evaluate budget) callee args scope s = some (v, t) →
      ∀ id, id < s.scopes.size → t.scopes.get? id = s.scopes.get? id) := by
  refine ⟨?_, ?_, ?_⟩
  · intro e h
    exact (evaluate_writesOnly budget e scope s v t h).keepsToScope
  · intro program h
    exact (runProgram_writesOnly budget program scope s v t h).keepsToScope
  · intro callee args h id hid
    have hcall := applyValue_writesOnly (evaluate_writesOnly budget) callee args scope s v t h
    exact hcall.get?_eq hid not_false

/-- The body `let x = 2; x`. -/
def shadowingBody : Block := [.letBe "x" (.int 2), .expr (.ident "x")]

/-- The program that binds `f` to a function with that body, launches it and calls it. -/
def shadowingProgram : Program :=
  [.letBe "f" (.fn [] shadowingBody), .expr (.call (.ident "launch") [.ident "f"]),
    .expr (.call (.ident "f") [])]

/-- A state with an empty scope inside one that binds `x`. -/
def nestedState : State :=
  { State.start 10 .empty with
    scopes := ((Scopes.empty.add none).set 0 "x" (.integer 1)).add (some 0) }

/-- A function that binds `x` leaves the outer `x` alone, whether it is called or launched. -/
theorem evaluation_keepsToScope_shadowing :
    (∃ v t, evaluate 5 (.call (.fn [] shadowingBody) []) 1 nestedState = some (v, t) ∧
      KeepsToScope 1 nestedState.scopes t.scopes) ∧
    (∃ v t, runProgram 5 shadowingProgram 1 nestedState = some (v, t) ∧
      KeepsToScope 1 nestedState.scopes t.scopes) ∧
    (∃ v t, applyValue (evaluate 5) (.function 0 ⟨[], shadowingBody, 0⟩) [] 1 nestedState =
      some (v, t) ∧ t.scopes.get? 1 = nestedState.scopes.get? 1) := by
  have hexpr : (evaluate 5 (.call (.fn [] shadowingBody) []) 1 nestedState).isSome = true := by
    decide +kernel
  have hprogram : (runProgram 5 shadowingProgram 1 nestedState).isSome = true := by decide +kernel
  have hcall : (applyValue (evaluate 5) (.function 0 ⟨[], shadowingBody, 0⟩) [] 1
      nestedState).isSome = true := by decide +kernel
  -- all three runs end, so there are states to compare
  obtain ⟨⟨v, t⟩, hexpr⟩ := Option.isSome_iff_exists.mp hexpr
  obtain ⟨⟨w, u⟩, hprogram⟩ := Option.isSome_iff_exists.mp hprogram
  obtain ⟨⟨x, r⟩, hcall⟩ := Option.isSome_iff_exists.mp hcall
  refine ⟨⟨v, t, hexpr, ?_⟩, ⟨w, u, hprogram, ?_⟩, ⟨x, r, hcall, ?_⟩⟩
  · exact (evaluation_keepsToScope 5 1 nestedState t v).1 _ hexpr
  · exact (evaluation_keepsToScope 5 1 nestedState u w).2.1 _ hprogram
  · exact (evaluation_keepsToScope 5 1 nestedState r x).2.2 _ _ hcall 1 (by decide)

end Monkey
