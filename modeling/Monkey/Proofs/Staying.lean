import Monkey.Proofs.Enclave
import Monkey.Proofs.Expanding

/-!
# Evaluation stays where it is

An evaluation in a scope of an enclave goes nowhere else: whatever it looks up, calls or waits for
belongs to the enclave, and so does whatever it gives.  Nothing outside is changed.  If the enclave
is to be without macros, the evaluation must not come to a macro literal.  The definition and the
expansion of macros stay in an enclave with the scope of macros.

## Main definitions

* `Eval.StaysIn` — evaluations that stay in an enclave.
* `StaysInside` — evaluators that do so in every scope of the enclave.

## Main results

* `evalStep_staysIn` — **a level of evaluation stays in the enclave**, if the evaluation of the
  parts does.
* `evaluate_staysInside` — **evaluation stays in every enclave that may have macros.**
* `bindMacros_staysIn`, `expandMacros_staysIn` — **so do the definition and the expansion of
  macros.**
-/

namespace Monkey

open Machine

namespace Eval

variable {α β : Type} {r : Enclave}

/-- From every sealed state the evaluation ends, if it does, in a sealed one that is the same
outside, and with a value that `Q` holds for. -/
def StaysIn (r : Enclave) (Q : α → Prop) (x : Eval α) : Prop :=
  ∀ s v t, s.Sealed r → x s = some (v, t) → t.Sealed r ∧ s.SameOutside r t ∧ Q v

namespace StaysIn

variable {P : α → Prop} {Q : β → Prop} {x : Eval α} {k : α → Eval β}

theorem pure {v : α} (h : P v) : StaysIn r P (pure v) := by
  intro s w t hs hrun
  cases hrun
  exact ⟨hs, .refl r s, h⟩

theorem stuck : StaysIn r P stuck := by
  intro s v t _ hrun
  cases hrun

theorem bind (hx : StaysIn r P x) (hk : ∀ v, P v → StaysIn r Q (k v)) :
    StaysIn r Q (x >>= k) := by
  intro s w u hs hrun
  obtain ⟨v, t, hxs, hkt⟩ := bind_eq_some_iff.1 hrun
  obtain ⟨ht, hst, hv⟩ := hx s v t hs hxs
  obtain ⟨hu, htu, hw⟩ := hk v hv t w u ht hkt
  exact ⟨hu, hst.trans htu, hw⟩

theorem andThen {x : Eval Value} {k : Value → Eval Value} (hx : StaysIn r (Value.LiesIn r) x)
    (hk : ∀ v, v.LiesIn r → StaysIn r (Value.LiesIn r) (k v)) :
    StaysIn r (Value.LiesIn r) (Machine.andThen x k) := by
  refine bind hx fun v hv => ?_
  split
  · exact pure hv
  · exact hk v hv

/-- A step that stays in the enclave. -/
theorem of_step {f : State → α × State}
    (h : ∀ s, s.Sealed r → (f s).2.Sealed r ∧ s.SameOutside r (f s).2 ∧ P (f s).1) :
    StaysIn r P fun s => some (f s) := by
  intro s v t hs hrun
  rw [Option.some.injEq] at hrun
  have hstep := h s hs
  rwa [hrun] at hstep

/-- A step that changes neither the scopes nor the tasks. -/
theorem same {f : State → α × State} (hscopes : ∀ s, (f s).2.scopes = s.scopes)
    (htasks : ∀ s, (f s).2.tasks = s.tasks) :
    StaysIn r (fun _ => True) fun s => some (f s) :=
  of_step fun s hs => ⟨hs.congr (hscopes s) (htasks s),
    ⟨fun _ => by rw [hscopes s], fun _ => by rw [htasks s]⟩, trivial⟩

theorem fresh : StaysIn r (fun _ => True) fresh := same (fun _ => rfl) fun _ => rfl

/-- An allocation that is turned into a value. -/
theorem fresh_pure {made : Nat → Value} (h : ∀ addr, (made addr).LiesIn r) :
    StaysIn r (Value.LiesIn r) (Eval.fresh >>= fun addr => Pure.pure (made addr)) :=
  bind fresh fun addr _ => pure (h addr)

theorem raise (e : EvalError) : StaysIn r (Value.LiesIn r) (Machine.raise e) :=
  fresh_pure fun _ => .of_isScalar rfl

theorem newScope {outer : Nat} (houter : r.scopes outer) :
    StaysIn r r.scopes (newScope (some outer)) :=
  of_step fun _ hs => ⟨hs.newScope houter, .newScope hs (some outer), hs.newScopes (Nat.le_refl _)⟩

theorem setName {scope : Nat} (hscope : r.scopes scope) (name : String) {v : Value}
    (hv : v.LiesIn r) : StaysIn r (fun _ => True) (setName scope name v) :=
  of_step fun s hs => ⟨hs.setName hv scope name, .setName hscope s name v, trivial⟩

theorem setNames {scope : Nat} (hscope : r.scopes scope) {bindings : List (String × Value)}
    (h : ∀ b ∈ bindings, b.2.LiesIn r) :
    StaysIn r (fun _ => True) (Machine.setNames scope bindings) := by
  induction bindings with
  | nil => exact pure trivial
  | cons entry rest ih =>
    obtain ⟨name, value⟩ := entry
    rw [List.forall_mem_cons] at h
    exact bind (setName hscope name h.1) fun _ _ => ih h.2

theorem findName {scope : Nat} (hscope : r.scopes scope) (name : String) :
    StaysIn r (fun found => ∀ v, found = some v → v.LiesIn r) (findName scope name) :=
  of_step fun s hs => ⟨hs, .refl r s, fun _ hv => hs.find? hscope hv⟩

theorem printLines (lines : List String) : StaysIn r (fun _ => True) (printLines lines) :=
  same (fun _ => rfl) fun _ => rfl

theorem permit (c : Closure) (args : List Value) : StaysIn r (fun _ => True) (permit c args) :=
  same (fun _ => rfl) fun _ => rfl

theorem enterCall : StaysIn r (fun _ => True) enterCall := same (fun _ => rfl) fun _ => rfl

theorem leaveCall : StaysIn r (fun _ => True) leaveCall := same (fun _ => rfl) fun _ => rfl

theorem askHost (id : Nat) : StaysIn r (fun _ => True) (askHost id) :=
  same (fun _ => rfl) fun _ => rfl

/-- Whose count of calls it is does not matter. -/
theorem onOwnCount (hx : StaysIn r P x) : StaysIn r P (onOwnCount x) := by
  intro s v t hs hrun
  obtain ⟨u, hx', rfl⟩ := onOwnCount_eq_some_iff.1 hrun
  have hs' : State.Sealed r { s with callDepth := 0 } := hs.congr rfl rfl
  obtain ⟨hu, hsame, hv⟩ := hx _ v u hs' hx'
  exact ⟨hu.congr rfl rfl, ⟨hsame.scopes_eq, hsame.tasks_eq⟩, hv⟩

theorem registerTask : StaysIn r r.tasks registerTask :=
  of_step fun _ hs => ⟨hs.registerTask, .registerTask hs, hs.newTasks (Nat.le_refl _)⟩

theorem finishTask {id : Nat} (hid : r.tasks id) {result : Value} (hresult : result.LiesIn r) :
    StaysIn r (fun _ => True) (finishTask id result) :=
  of_step fun _ hs => ⟨hs.finishTask hid hresult,
    .changeTask hid (Tasks.changes_finish _ id result), trivial⟩

theorem closeTask {id : Nat} (hid : r.tasks id) : StaysIn r (fun _ => True) (closeTask id) :=
  of_step fun _ hs => ⟨hs.closeTask hid,
    .changeTask hid (Tasks.changes_close _ id), trivial⟩

theorem joinTask {id : Nat} (hid : r.tasks id) :
    StaysIn r (fun found => ∀ v, found = some v → v.LiesIn r) (joinTask id) := by
  intro s found t hs hrun
  obtain ⟨hreply, rfl⟩ := joinTask_eq_some_iff.1 hrun
  refine ⟨hs.joinTask hid, .changeTask hid (Tasks.changes_join _ id), ?_⟩
  rintro v rfl
  exact hs.answer? hid (Tasks.join_eq_result_iff.1 hreply)

end StaysIn

end Eval

open Eval

/-- In every scope of the enclave the evaluator stays there. -/
def StaysInside (r : Enclave) (eval : Expr → Nat → Eval Value) : Prop :=
  ∀ e scope, r.scopes scope → StaysIn r (Value.LiesIn r) (eval e scope)

/-- What lists of expressions give: parts that `Q` holds for, or an abrupt value. -/
def PartsInside {α : Type} (r : Enclave) (Q : α → Prop) : Except Value α → Prop
  | .ok parts => Q parts
  | .error v => v.LiesIn r

section

variable {eval : Expr → Nat → Eval Value} {r : Enclave} {scope : Nat}

/-! ### Statements and lists of expressions -/

theorem evalStmt_staysIn (heval : StaysInside r eval) (hscope : r.scopes scope) (st : Stmt) :
    StaysIn r (Value.LiesIn r) (evalStmt eval st scope) := by
  cases st with
  | letBe name value =>
    refine .andThen (heval value scope hscope) fun v hv => ?_
    exact .bind (.setName hscope name hv) fun _ _ => .pure hv
  | ret value =>
    refine .andThen (heval value scope hscope) fun v hv => ?_
    change StaysIn r _ (fresh >>= fun addr => Pure.pure (Value.returned addr v))
    exact .fresh_pure fun _ => Value.liesIn_returned_iff.2 hv
  | expr value => exact heval value scope hscope

theorem evalBodyFrom_staysIn (heval : StaysInside r eval) (hscope : r.scopes scope)
    (body : Block) : ∀ {last : Value}, last.LiesIn r →
      StaysIn r (Value.LiesIn r) (evalBodyFrom eval scope last body) := by
  induction body with
  | nil => exact fun hlast => .pure hlast
  | cons st rest ih => exact fun _ => .andThen (evalStmt_staysIn heval hscope st) fun _ hv => ih hv

theorem evalBody_staysIn (heval : StaysInside r eval) (hscope : r.scopes scope) (body : Block) :
    StaysIn r (Value.LiesIn r) (evalBody eval body scope) :=
  evalBodyFrom_staysIn heval hscope body (.of_isScalar rfl)

theorem evalProgram_staysIn (heval : StaysInside r eval) (hscope : r.scopes scope)
    (program : Program) : StaysIn r (Value.LiesIn r) (evalProgram eval program scope) :=
  .bind (evalBody_staysIn heval hscope program) fun _ hv => .pure hv.unwrapReturn

theorem evalArgs_staysIn (heval : StaysInside r eval) (hscope : r.scopes scope)
    (args : List Expr) :
    StaysIn r (PartsInside r fun vs => ∀ v ∈ vs, v.LiesIn r) (evalArgs eval scope args) := by
  induction args with
  | nil => exact .pure (List.forall_mem_nil _)
  | cons e rest ih =>
    refine .bind (heval e scope hscope) fun v hv => ?_
    split
    · exact .pure hv
    refine .bind ih fun parts hparts => ?_
    cases parts with
    | ok vs => exact .pure (List.forall_mem_cons.2 ⟨hv, hparts⟩)
    | error w => exact .pure hparts

theorem evalPairs_staysIn (heval : StaysInside r eval) (hscope : r.scopes scope)
    (pairs : List (Expr × Expr)) :
    ∀ {entries : Entries Value}, (∀ e ∈ entries, e.2.LiesIn r) →
      StaysIn r (PartsInside r fun es => ∀ e ∈ es, e.2.LiesIn r)
        (evalPairs eval scope entries pairs) := by
  induction pairs with
  | nil => exact fun hentries => .pure hentries
  | cons pair rest ih =>
    obtain ⟨key, value⟩ := pair
    intro entries hentries
    refine .bind (heval key scope hscope) fun k hk => ?_
    split
    · exact .pure hk
    cases k.hashKey? with
    | none => exact .bind (.raise _) fun _ herr => .pure herr
    | some hashKey =>
      refine .bind (heval value scope hscope) fun v hv => ?_
      split
      · exact .pure hv
      · exact ih (Entries.insert_all hv hentries)

/-! ### Calls and tasks -/

theorem callClosure_staysIn (heval : StaysInside r eval) {c : Closure} (hc : r.scopes c.scope)
    {args : List Value} (hargs : ∀ v ∈ args, v.LiesIn r) :
    StaysIn r (Value.LiesIn r) (callClosure eval c args) := by
  rw [callClosure_eq]
  refine .bind (.permit c args) fun refusal _ => ?_
  cases refusal with
  | some e => exact .raise e
  | none =>
    refine .bind (.newScope hc) fun inner hinner => ?_
    have hbindings : ∀ b ∈ c.params.zip args, b.2.LiesIn r :=
      fun b hb => hargs b.2 (List.of_mem_zip hb).2
    refine .bind (.setNames hinner hbindings) fun _ _ => .bind .enterCall fun _ _ => ?_
    refine .bind (evalBody_staysIn heval hinner c.body) fun v hv => ?_
    exact .bind .leaveCall fun _ _ => .pure hv.unwrapReturn

theorem evalText_staysIn (heval : StaysInside r eval) (hscope : r.scopes scope)
    (argument : Value) : StaysIn r (Value.LiesIn r) (evalText eval argument scope) := by
  unfold evalText
  split
  · split
    · exact .bind (.newScope hscope) fun _ hinner => evalProgram_staysIn heval hinner _
    · exact .raise _
  · exact .raise _

theorem launch_staysIn (heval : StaysInside r eval) (hscope : r.scopes scope) (argument : Value) :
    StaysIn r (Value.LiesIn r) (launch eval argument scope) := by
  unfold launch
  split
  · refine .bind (.newScope hscope) fun inner hinner => ?_
    rw [start_eq]
    refine .bind .registerTask fun id hid => .bind (.askHost id) fun refusal _ => ?_
    cases refusal with
    | some reason => exact .bind (.closeTask hid) fun _ _ => .raise _
    | none =>
      have hbody := evalBody_staysIn heval hinner
      refine .bind (.onOwnCount (hbody _)) fun result hresult => ?_
      refine .bind (.finishTask hid hresult.unwrapReturn) fun _ _ => .pure ?_
      exact Value.liesIn_of_isLeaf rfl hid
  · exact .raise _

theorem awaitTask_staysIn {argument : Value} (hargument : argument.LiesIn r) :
    StaysIn r (Value.LiesIn r) (awaitTask argument) := by
  unfold awaitTask
  split
  · refine .bind (.joinTask (hargument _ .self)) fun found hfound => ?_
    cases found with
    | some value => exact .pure (hfound value rfl)
    | none => exact .raise _
  · exact .raise _

theorem callIntrinsic_staysIn (heval : StaysInside r eval) (hscope : r.scopes scope)
    (i : Intrinsic) {args : List Value} (hargs : ∀ v ∈ args, v.LiesIn r) :
    StaysIn r (Value.LiesIn r) (callIntrinsic eval i args scope) := by
  unfold callIntrinsic
  split
  · next argument =>
    cases i with
    | eval => exact evalText_staysIn heval hscope argument
    | launch => exact launch_staysIn heval hscope argument
    | await => exact awaitTask_staysIn (hargs argument List.mem_cons_self)
  · exact .raise _

theorem callBuiltin_staysIn (b : Builtin) {args : List Value} (hargs : ∀ v ∈ args, v.LiesIn r) :
    StaysIn r (Value.LiesIn r) (callBuiltin b args) :=
  .bind (.printLines _) fun _ _ => .fresh_pure (b.apply_all Value.leadsInto_of_isData hargs)

/-- **A call stays in the enclave**, if what is called lies there. -/
theorem applyValue_staysIn (heval : StaysInside r eval) (hscope : r.scopes scope) {callee : Value}
    (hcallee : callee.LiesIn r) {args : List Value} (hargs : ∀ v ∈ args, v.LiesIn r) :
    StaysIn r (Value.LiesIn r) (applyValue eval callee args scope) := by
  rw [applyValue_eq]
  split
  · exact callClosure_staysIn heval (hcallee _ .self) hargs
  · exact callBuiltin_staysIn _ hargs
  · exact callIntrinsic_staysIn heval hscope _ hargs
  · exact .raise _

/-! ### Quoting -/

/-- The first error of a quote so far, if there is one, lies in the enclave. -/
def FailureInside (r : Enclave) (failure : Option Value) : Prop :=
  ∀ v, failure = some v → v.LiesIn r

/-- Effects of rewriting that stay in the enclave. -/
def quotingInside (r : Enclave) :
    EffectRelation (StateT (Option Value) Eval) (StateT (Option Value) Eval) where
  Related {α} x _ := ∀ failure, FailureInside r failure →
    StaysIn r (fun p : α × Option Value => FailureInside r p.2) (x.run failure)
  pure _ _ hfailure := .pure hfailure
  bind hx hk failure hfailure := by
    rw [StateT.run_bind]
    exact .bind (hx failure hfailure) fun p hp => hk p.1 p.2 hp

theorem unquoteVisit_staysIn (heval : StaysInside r eval) (hscope : r.scopes scope) (e : Expr) :
    (quotingInside r).Related (unquoteVisit eval scope e) (unquoteVisit eval scope e) := by
  intro failure hfailure
  cases failure with
  | some err =>
    rw [run_unquoteVisit_some]
    exact .pure hfailure
  | none =>
    rw [run_unquoteVisit_none]
    split
    · exact .pure hfailure
    · refine .bind (heval _ scope hscope) fun v hv => ?_
      split
      · refine .pure fun w hw => ?_
        cases hw
        exact hv.unwrapReturn
      · exact .pure hfailure

theorem quoteArgs_staysIn (heval : StaysInside r eval) (hscope : r.scopes scope)
    (args : List Expr) : StaysIn r (Value.LiesIn r) (quoteArgs eval args scope) := by
  cases args with
  | nil => exact .raise _
  | cons e rest =>
    have hvisit := unquoteVisit_staysIn heval hscope
    have hquoted := Expr.rewriteM_related (quotingInside r) hvisit e none fun _ hv => nomatch hv
    refine .bind hquoted fun p hp => ?_
    obtain ⟨node, failure⟩ := p
    cases failure with
    | some err => exact .pure (hp err rfl)
    | none => exact .fresh_pure fun _ => .of_isScalar rfl

/-! ### Expressions -/

theorem evalName_staysIn (hscope : r.scopes scope) (name : String) :
    StaysIn r (Value.LiesIn r) (evalName name scope) := by
  unfold evalName
  split
  · exact .pure (Value.liesIn_of_isLeaf rfl trivial)
  · refine .bind (.findName hscope name) fun found hfound => ?_
    split
    · exact .pure (hfound _ rfl)
    · split
      · exact .pure (Value.liesIn_of_isLeaf rfl trivial)
      · exact .raise _

theorem evalBranch_staysIn (heval : StaysInside r eval) (hscope : r.scopes scope)
    (branch : Option Block) : StaysIn r (Value.LiesIn r) (evalBranch eval branch scope) := by
  cases branch with
  | none => exact .pure (.of_isScalar rfl)
  | some body => exact evalBody_staysIn heval hscope body

/-- **A level of evaluation stays in the enclave**, if the evaluation of the parts does, and if a
macro literal is come to only where there may be macros. -/
theorem evalStep_staysIn (heval : StaysInside r eval) (hscope : r.scopes scope) {e : Expr}
    (hmacros : ∀ {params : List String} {body : Block}, e = .macroFn params body → r.macros) :
    StaysIn r (Value.LiesIn r) (evalStep eval e scope) := by
  have hpart : ∀ p, StaysIn r (Value.LiesIn r) (eval p scope) := fun p => heval p scope hscope
  cases e with
  | ident name => exact evalName_staysIn hscope name
  | int value => exact .pure (.of_isScalar rfl)
  | bool value => exact .pure (.of_isScalar rfl)
  | str text => exact .fresh_pure fun _ => .of_isScalar rfl
  | unary op right =>
    refine .andThen (hpart right) fun v _ => ?_
    exact .fresh_pure fun addr => .of_isScalar (op.isScalar_apply v addr)
  | binary op left right =>
    refine .andThen (hpart left) fun v _ => .andThen (hpart right) fun w _ => ?_
    exact .fresh_pure fun addr => .of_isScalar (op.isScalar_apply v w addr)
  | cond condition consequence alternative =>
    exact .andThen (hpart condition) fun _ _ => evalBranch_staysIn heval hscope _
  -- a closure leads into the scope that it was made in, which lies in the enclave
  | fn params body => exact .fresh_pure fun _ => Value.liesIn_of_isLeaf rfl hscope
  -- this is the one place where a macro is made
  | macroFn params body =>
    exact .fresh_pure fun _ => Value.liesIn_of_isLeaf rfl ⟨hmacros rfl, hscope⟩
  | call callee args =>
    simp only [evalStep]
    split
    · exact quoteArgs_staysIn heval hscope args
    · refine .andThen (hpart callee) fun f hf => ?_
      refine .bind (evalArgs_staysIn heval hscope args) fun parts hparts => ?_
      cases parts with
      | ok vs => exact applyValue_staysIn heval hscope hf hparts
      | error v => exact .pure hparts
  | array elements =>
    refine .bind (evalArgs_staysIn heval hscope elements) fun parts hparts => ?_
    cases parts with
    | ok vs => exact .fresh_pure fun _ => Value.liesIn_array_iff.2 hparts
    | error v => exact .pure hparts
  | index base position =>
    refine .andThen (hpart base) fun v hv => .andThen (hpart position) fun w _ => ?_
    exact .fresh_pure (Value.at_all Value.leadsInto_of_isData hv w)
  | hash pairs =>
    refine .bind (evalPairs_staysIn heval hscope pairs (List.forall_mem_nil _))
      fun parts hparts => ?_
    cases parts with
    | ok entries => exact .fresh_pure fun _ => Value.liesIn_hash_iff.2 hparts
    | error v => exact .pure hparts

end

/-- **Evaluation stays in every enclave that may have macros.** -/
theorem evaluate_staysInside {r : Enclave} (hmacros : r.macros) (budget : Nat) :
    StaysInside r (evaluate budget) := by
  -- a part of an expression has one unit of the budget less than the expression
  induction budget with
  | zero => exact fun _ _ _ => .stuck
  | succ n ih => exact fun _ _ hscope => evalStep_staysIn ih hscope fun _ => hmacros

/-! ### Macros -/

section

variable {r : Enclave} {macros : Nat}

/-- **The definition of macros stays in the enclave** of the scope that they are bound in. -/
theorem bindMacros_staysIn (hr : r.macros) (hmacros : r.scopes macros)
    (definitions : List MacroDefinition) :
    StaysIn r (fun _ => True) (bindMacros macros definitions) := by
  induction definitions with
  | nil => exact .pure trivial
  | cons d rest ih =>
    refine .bind .fresh fun addr _ => .bind (.setName hmacros d.name ?_) fun _ _ => ih
    exact Value.liesIn_of_isLeaf rfl ⟨hr, hmacros⟩

theorem bindQuoted_staysIn {scope : Nat} (hscope : r.scopes scope)
    (arguments : List (String × Expr)) :
    StaysIn r (fun _ => True) (bindQuoted scope arguments) := by
  induction arguments with
  | nil => exact .pure trivial
  | cons argument rest ih =>
    exact .bind .fresh fun _ _ => .bind (.setName hscope _ (.of_isScalar rfl)) fun _ _ => ih

variable {eval : Expr → Nat → Eval Value}

theorem expandCall_staysIn (heval : StaysInside r eval) (name : String) {mac : Closure}
    (hmac : r.scopes mac.scope) (args : List Expr) :
    StaysIn r (fun _ => True) (expandCall eval name mac args) := by
  unfold expandCall
  split
  · exact .pure trivial
  refine .bind (.newScope hmac) fun scope hscope => ?_
  refine .bind (bindQuoted_staysIn hscope _) fun _ _ => ?_
  refine .bind (evalBody_staysIn heval hscope mac.body) fun v _ => ?_
  split <;> exact .pure trivial

/-- Effects of expansion that stay in the enclave. -/
def expandingInside (r : Enclave) :
    EffectRelation (StateT (Option ExpansionError) Eval) (StateT (Option ExpansionError) Eval) where
  Related x _ := ∀ failure, StaysIn r (fun _ => True) (x.run failure)
  pure _ _ := .pure trivial
  bind hx hk failure := .bind (hx failure) fun p _ => hk p.1 p.2

theorem expandVisit_staysIn (heval : StaysInside r eval) (hmacros : r.scopes macros) (e : Expr) :
    (expandingInside r).Related (expandVisit eval macros e) (expandVisit eval macros e) := by
  intro failure
  cases failure with
  | some err =>
    rw [run_expandVisit_some]
    exact .pure trivial
  | none =>
    rw [run_expandVisit_none]
    split
    · exact .pure trivial
    · refine .bind (.findName hmacros _) fun found hfound => ?_
      split
      · have hmac : r.scopes _ := (hfound _ rfl _ .self).2
        refine .bind (expandCall_staysIn heval _ hmac _) fun reply _ => ?_
        cases reply <;> exact .pure trivial
      · exact .pure trivial

/-- **Expansion stays in the enclave** of the scope that the macros are bound in. -/
theorem expandMacros_staysIn (heval : StaysInside r eval) (hmacros : r.scopes macros)
    (p : Program) : StaysIn r (fun _ => True) (expandMacros eval macros p) := by
  have hvisit := expandVisit_staysIn heval hmacros
  refine .bind (rewriteStmtsM_related (expandingInside r) hvisit p none) fun q _ => ?_
  obtain ⟨expanded, failure⟩ := q
  cases failure <;> exact .pure trivial

end

end Monkey
