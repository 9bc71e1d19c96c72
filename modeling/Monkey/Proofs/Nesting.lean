import Monkey.Proofs.Budget
import Monkey.Proofs.Confined

/-!
# The limit on calls bounds the nesting of evaluation

The limit on active calls bounds how deeply evaluations of expressions can be nested, and so it
makes every evaluation end that runs no code but the bodies of functions.  Between two calls
evaluation only goes down in a tree, and every way back to the top of a body is a call; so with `k`
calls active and `d` allowed there can be `d - k + 1` trees on top of one another, each of them as
high as the highest one.

## Main definitions

* `Eval.Ends` — evaluations that end, confined to what they may run.
* `EndsUpTo` — evaluators that end on all plain expressions that are not too high.

## Main results

* `evalStep_ends` — **a level of evaluation ends**, if the parts end on it, and bodies one call
  deeper.
* `evaluate_ends` — **so does evaluation, within the budget that is left.**
* `runProgram_ends_within` — **programs end, and nest no deeper than the limit on calls allows.**
* `State.PlainFrom.runProgram` — **so do the programs that are run after them.**
-/

namespace Monkey

namespace Eval

variable {α β : Type} {c : Confines} {depth : Nat}

/-- From every confined state the evaluation ends, in a confined state with as many active calls,
and with a value that `Q` holds for. -/
def Ends (c : Confines) (depth : Nat) (Q : α → Prop) (x : Eval α) : Prop :=
  ∀ s, s.ConfinedTo c depth → ∃ v t, x s = some (v, t) ∧ t.ConfinedTo c depth ∧ Q v

namespace Ends

variable {P : α → Prop} {Q : β → Prop} {x : Eval α} {k : α → Eval β}

theorem pure {v : α} (h : P v) : Ends c depth P (pure v) := fun s hs => ⟨v, s, rfl, hs, h⟩

theorem bind (hx : Ends c depth P x) (hk : ∀ v, P v → Ends c depth Q (k v)) :
    Ends c depth Q (x >>= k) := by
  intro s hs
  obtain ⟨v, t, hxs, ht, hv⟩ := hx s hs
  obtain ⟨w, u, hkt, hu, hw⟩ := hk v hv t ht
  exact ⟨w, u, bind_eq_some_iff.2 ⟨v, t, hxs, hkt⟩, hu, hw⟩

theorem andThen {x : Eval Value} {k : Value → Eval Value}
    (hx : Ends c depth (Value.ConfinedTo c) x)
    (hk : ∀ v, v.ConfinedTo c → Ends c depth (Value.ConfinedTo c) (k v)) :
    Ends c depth (Value.ConfinedTo c) (Machine.andThen x k) := by
  refine bind hx fun v hv => ?_
  split
  · exact pure hv
  · exact hk v hv

/-- A step that keeps states confined. -/
theorem of_step {f : State → α × State}
    (h : ∀ s, s.ConfinedTo c depth → (f s).2.ConfinedTo c depth ∧ P (f s).1) :
    Ends c depth P fun s => some (f s) :=
  fun s hs => ⟨(f s).1, (f s).2, rfl, h s hs⟩

theorem fresh : Ends c depth (fun _ => True) fresh := of_step fun _ hs => ⟨{ hs with }, trivial⟩

/-- A value that is made at a new address. -/
theorem allocate {make : Nat → Value} (h : ∀ addr, (make addr).ConfinedTo c) :
    Ends c depth (Value.ConfinedTo c) (Machine.allocate make) :=
  bind fresh fun addr _ => pure (h addr)

theorem returning {v : Value} (hv : v.ConfinedTo c) :
    Ends c depth (Value.ConfinedTo c) (Machine.returning v) :=
  allocate fun addr =>
    (Value.confinedTo_returned_iff.2 hv : Value.ConfinedTo c (.returned addr v))

theorem raise (e : EvalError) : Ends c depth (Value.ConfinedTo c) (Machine.raise e) :=
  allocate fun _ => .of_isScalar rfl

theorem newScope {outer : Nat} (houter : c.scopes outer) :
    Ends c depth c.scopes (newScope (some outer)) :=
  of_step fun _ hs => ⟨hs.newScope houter, hs.newScopes (Nat.le_refl _)⟩

theorem setName {v : Value} (hv : v.ConfinedTo c) (scope : Nat) (name : String) :
    Ends c depth (fun _ => True) (setName scope name v) :=
  of_step fun _ hs => ⟨hs.setName hv scope name, trivial⟩

theorem setNames {bindings : List (String × Value)} (scope : Nat)
    (h : ∀ b ∈ bindings, b.2.ConfinedTo c) :
    Ends c depth (fun _ => True) (Machine.setNames scope bindings) := by
  induction bindings with
  | nil => exact pure trivial
  | cons entry rest ih =>
    obtain ⟨name, value⟩ := entry
    rw [List.forall_mem_cons] at h
    exact bind (setName h.1 scope name) fun _ _ => ih h.2

theorem findName {scope : Nat} (hscope : c.scopes scope) (name : String) :
    Ends c depth (fun found => ∀ v, found = some v → v.ConfinedTo c) (findName scope name) :=
  of_step fun _ hs => ⟨hs, fun _ hv => hs.find? hscope hv⟩

theorem printLines (lines : List String) : Ends c depth (fun _ => True) (printLines lines) :=
  of_step fun _ hs => ⟨{ hs with }, trivial⟩

/-- A call is permitted only where fewer calls are active than the limit allows. -/
theorem permit (f : Closure) (args : List Value) :
    Ends c depth (fun refusal => refusal = none → depth < c.limit) (permit f args) := by
  refine of_step fun s hs => ⟨hs, fun hnone => ?_⟩
  change f.refusal? args s.callDepth s.maxCallDepth = none at hnone
  rw [hs.callDepth_eq, hs.maxCallDepth_eq] at hnone
  exact (Closure.refusal?_eq_none_iff.1 hnone).2

/-- What runs with one more call active, and then with as many as before. -/
theorem inCall (hx : Ends c (depth + 1) P x) (hk : ∀ v, P v → Ends c depth Q (k v)) :
    Ends c depth Q (do enterCall; let v ← x; leaveCall; k v) := by
  intro s hs
  have hdepth : { s with callDepth := s.callDepth + 1 }.ConfinedTo c (depth + 1) :=
    { hs with callDepth_eq := congrArg (· + 1) hs.callDepth_eq }
  obtain ⟨v, t, hxs, ht, hv⟩ := hx _ hdepth
  have hleft : { t with callDepth := t.callDepth - 1 }.ConfinedTo c depth :=
    { ht with callDepth_eq := congrArg (· - 1) ht.callDepth_eq }
  obtain ⟨w, u, hkt, hu, hw⟩ := hk v hv _ hleft
  refine ⟨w, u, ?_, hu, hw⟩
  refine bind_eq_some_iff.2 ⟨(), _, rfl, bind_eq_some_iff.2 ⟨v, t, hxs, ?_⟩⟩
  exact bind_eq_some_iff.2 ⟨(), _, rfl, hkt⟩

end Ends

end Eval

open Eval

/-- In every scope of the confines the evaluator ends on plain expressions of at most height `h`. -/
def EndsUpTo (c : Confines) (depth h : Nat) (eval : Expr → Nat → Eval Value) : Prop :=
  ∀ e scope, e.Plain h → c.scopes scope → Ends c depth (Value.ConfinedTo c) (eval e scope)

/-- What lists of expressions give: parts that `Q` holds for, or an abrupt value. -/
def PartsConfined {α : Type} (c : Confines) (Q : α → Prop) : Except Value α → Prop
  | .ok parts => Q parts
  | .error v => v.ConfinedTo c

section

variable {eval : Expr → Nat → Eval Value} {c : Confines} {depth h scope : Nat}

/-! ### Statements and lists of expressions -/

theorem evalStmt_ends (heval : EndsUpTo c depth h eval) (hscope : c.scopes scope) {st : Stmt}
    (hst : st.value.Plain h) : Ends c depth (Value.ConfinedTo c) (evalStmt eval st scope) := by
  cases st with
  | letBe name value =>
    refine .andThen (heval value scope hst hscope) fun v hv => ?_
    exact .bind (.setName hv scope name) fun _ _ => .pure hv
  | ret value =>
    refine .andThen (heval value scope hst hscope) fun v hv => ?_
    exact .returning hv
  | expr value => exact heval value scope hst hscope

theorem evalBodyFrom_ends (heval : EndsUpTo c depth h eval) (hscope : c.scopes scope)
    {body : Block} (hbody : body.Plain h) : ∀ {last : Value}, last.ConfinedTo c →
      Ends c depth (Value.ConfinedTo c) (evalBodyFrom eval scope last body) := by
  induction body with
  | nil => exact fun hlast => .pure hlast
  | cons st rest ih =>
    intro last _
    obtain ⟨hst, hrest⟩ := List.forall_mem_cons.1 hbody
    exact .andThen (evalStmt_ends heval hscope hst) fun v hv => ih hrest hv

theorem evalBody_ends (heval : EndsUpTo c depth h eval) (hscope : c.scopes scope) {body : Block}
    (hbody : body.Plain h) : Ends c depth (Value.ConfinedTo c) (evalBody eval body scope) :=
  evalBodyFrom_ends heval hscope hbody (.of_isScalar rfl)

theorem evalProgram_ends (heval : EndsUpTo c depth h eval) (hscope : c.scopes scope)
    {program : Program} (hprogram : Block.Plain h program) :
    Ends c depth (Value.ConfinedTo c) (evalProgram eval program scope) :=
  .bind (evalBody_ends heval hscope hprogram) fun _ hv => .pure hv.unwrapReturn

theorem evalArgs_ends (heval : EndsUpTo c depth h eval) (hscope : c.scopes scope)
    {args : List Expr} (hargs : ∀ e ∈ args, e.Plain h) :
    Ends c depth (PartsConfined c fun vs => ∀ v ∈ vs, v.ConfinedTo c)
      (evalArgs eval scope args) := by
  induction args with
  | nil => exact .pure (List.forall_mem_nil _)
  | cons e rest ih =>
    obtain ⟨he, hrest⟩ := List.forall_mem_cons.1 hargs
    refine .bind (heval e scope he hscope) fun v hv => ?_
    split
    · exact .pure hv
    refine .bind (ih hrest) fun parts hparts => ?_
    cases parts with
    | ok vs => exact .pure (List.forall_mem_cons.2 ⟨hv, hparts⟩)
    | error w => exact .pure hparts

theorem evalPairs_ends (heval : EndsUpTo c depth h eval) (hscope : c.scopes scope)
    {pairs : List (Expr × Expr)} (hpairs : ∀ p ∈ pairs, p.1.Plain h ∧ p.2.Plain h) :
    ∀ {entries : Entries Value}, (∀ e ∈ entries, e.2.ConfinedTo c) →
      Ends c depth (PartsConfined c fun es => ∀ e ∈ es, e.2.ConfinedTo c)
        (evalPairs eval scope entries pairs) := by
  induction pairs with
  | nil => exact fun hentries => .pure hentries
  | cons pair rest ih =>
    obtain ⟨key, value⟩ := pair
    obtain ⟨⟨hkey, hvalue⟩, hrest⟩ := List.forall_mem_cons.1 hpairs
    intro entries hentries
    refine .bind (heval key scope hkey hscope) fun k hk => ?_
    split
    · exact .pure hk
    -- the entries so far are confined, and so is the next one
    cases k.hashKey? with
    | none => exact .bind (.raise _) fun err herr => .pure herr
    | some hashKey =>
      refine .bind (heval value scope hvalue hscope) fun v hv => ?_
      split
      · exact .pure hv
      refine ih hrest fun e he => ?_
      rcases Entries.mem_insert he with rfl | he
      · exact hv
      · exact hentries e he

/-! ### Calls -/

/-- A call ends, if bodies end one call deeper: it is refused where no deeper call is allowed. -/
theorem callClosure_ends (hbodies : depth < c.limit → EndsUpTo c (depth + 1) c.height eval)
    {f : Closure} (hscope : c.scopes f.scope) (hbody : f.body.Plain c.height) {args : List Value}
    (hargs : ∀ v ∈ args, v.ConfinedTo c) :
    Ends c depth (Value.ConfinedTo c) (callClosure eval f args) := by
  rw [callClosure_eq]
  refine .bind (.permit f args) fun refusal hpermit => ?_
  cases refusal with
  | some e => exact .raise e
  | none =>
    -- a call that is permitted leaves one call less to be nested
    have heval := hbodies (hpermit rfl)
    refine .bind (.newScope hscope) fun inner hinner => ?_
    have hbindings : ∀ b ∈ f.params.zip args, b.2.ConfinedTo c :=
      fun b hb => hargs b.2 (List.of_mem_zip hb).2
    refine .bind (.setNames inner hbindings) fun _ _ => ?_
    exact .inCall (evalBody_ends heval hinner hbody) fun v hv => .pure hv.unwrapReturn

theorem callBuiltin_ends (b : Builtin) {args : List Value} (hargs : ∀ v ∈ args, v.ConfinedTo c) :
    Ends c depth (Value.ConfinedTo c) (callBuiltin b args) :=
  .bind (.printLines _) fun _ _ => .allocate fun addr => b.apply_confinedTo hargs addr

/-- Whatever confined value is called, the call ends. -/
theorem applyValue_ends (hbodies : depth < c.limit → EndsUpTo c (depth + 1) c.height eval)
    {callee : Value} (hcallee : callee.ConfinedTo c) {args : List Value}
    (hargs : ∀ v ∈ args, v.ConfinedTo c) :
    Ends c depth (Value.ConfinedTo c) (applyValue eval callee args scope) := by
  rw [applyValue_eq]
  split
  · obtain ⟨hscope, hbody⟩ := (Value.confinedTo_iff_of_isLeaf rfl).1 hcallee
    exact callClosure_ends hbodies hscope hbody hargs
  · exact callBuiltin_ends _ hargs
  · -- no confined value is an intrinsic
    exact (hcallee _ .self).elim
  · exact .raise _

/-! ### Expressions and programs -/

theorem evalName_ends (hscope : c.scopes scope) {name : String} (hname : name ∉ reservedNames) :
    Ends c depth (Value.ConfinedTo c) (evalName name scope) := by
  unfold evalName
  rw [Intrinsic.ofName?_eq_none hname]
  refine .bind (.findName hscope name) fun found hfound => ?_
  split
  · exact .pure (hfound _ rfl)
  · split
    · exact .pure ((Value.confinedTo_iff_of_isLeaf rfl).2 trivial)
    · exact .raise _

theorem evalBranch_ends (heval : EndsUpTo c depth h eval) (hscope : c.scopes scope)
    {branch : Option Block} (hbranch : ∀ body, branch = some body → body.Plain h) :
    Ends c depth (Value.ConfinedTo c) (evalBranch eval branch scope) := by
  cases branch with
  | none => exact .pure (.of_isScalar rfl)
  | some body => exact evalBody_ends heval hscope (hbranch body rfl)

/-- **A level of evaluation ends**, if the evaluation of the parts ends on what is one level lower,
and on bodies one call deeper. -/
theorem evalStep_ends (heval : EndsUpTo c depth h eval)
    (hbodies : depth < c.limit → EndsUpTo c (depth + 1) c.height eval)
    (hheight : h < c.height) : EndsUpTo c depth (h + 1) (evalStep eval) := by
  intro e scope he hscope
  have hpart : ∀ p ∈ e.parts, Ends c depth (Value.ConfinedTo c) (eval p scope) :=
    fun p hp => heval p scope (he.part hp) hscope
  cases e with
  | ident name => exact evalName_ends hscope he.name_not_mem
  | int value => exact .pure (.of_isScalar rfl)
  | bool value => exact .pure (.of_isScalar rfl)
  | str text => exact .allocate fun _ => .of_isScalar rfl
  | unary op right =>
    refine .andThen (hpart right List.mem_cons_self) fun v _ => ?_
    exact .allocate fun addr => .of_isScalar (op.isScalar_apply v addr)
  | binary op left right =>
    refine .andThen (hpart left List.mem_cons_self) fun v _ => ?_
    refine .andThen (hpart right (List.mem_cons_of_mem _ List.mem_cons_self)) fun w _ => ?_
    exact .allocate fun addr => .of_isScalar (op.isScalar_apply v w addr)
  | cond condition consequence alternative =>
    refine .andThen (hpart condition List.mem_cons_self) fun v _ => ?_
    refine evalBranch_ends heval hscope fun body hbody st hst => he.part ?_
    refine List.mem_cons_of_mem _ (List.mem_map_of_mem ?_)
    -- the branch that is taken is one of the two
    split at hbody
    · cases hbody
      exact List.mem_append_left _ hst
    · subst hbody
      exact List.mem_append_right _ hst
  | fn params body =>
    refine .allocate fun addr => (Value.confinedTo_iff_of_isLeaf rfl).2 ?_
    refine ⟨hscope, fun st hst => ?_⟩
    exact (he.part (List.mem_map_of_mem hst)).mono (Nat.le_of_lt hheight)
  | macroFn params body =>
    exact .allocate fun _ => (Value.confinedTo_iff_of_isLeaf rfl).2 trivial
  | call callee args =>
    have hcallee := he.part List.mem_cons_self
    have hquote : callee.name? ≠ some "quote" := hcallee.name?_ne (by decide)
    simp only [evalStep, if_neg hquote]
    refine .andThen (heval callee scope hcallee hscope) fun f hf => ?_
    have hargs : ∀ e ∈ args, e.Plain h := fun p hp => he.part (List.mem_cons_of_mem _ hp)
    refine .bind (evalArgs_ends heval hscope hargs) fun parts hparts => ?_
    cases parts with
    | ok vs => exact applyValue_ends hbodies hf hparts
    | error v => exact .pure hparts
  | array elements =>
    refine .bind (evalArgs_ends heval hscope fun p hp => he.part hp) fun parts hparts => ?_
    cases parts with
    | ok vs => exact .allocate fun _ => Value.confinedTo_array_iff.2 hparts
    | error v => exact .pure hparts
  | index base position =>
    refine .andThen (hpart base List.mem_cons_self) fun v hv => ?_
    refine .andThen (hpart position (List.mem_cons_of_mem _ List.mem_cons_self)) fun w _ => ?_
    exact .allocate fun addr => Value.at_confinedTo hv w addr
  | hash pairs =>
    have hpairs : ∀ p ∈ pairs, p.1.Plain h ∧ p.2.Plain h := by
      intro p hp
      exact ⟨he.part (List.mem_flatMap.2 ⟨p, hp, by simp⟩),
        he.part (List.mem_flatMap.2 ⟨p, hp, by simp⟩)⟩
    refine .bind (evalPairs_ends heval hscope hpairs (List.forall_mem_nil _)) fun parts hparts => ?_
    cases parts with
    | ok entries => exact .allocate fun _ => Value.confinedTo_hash_iff.2 hparts
    | error v => exact .pure hparts

end

/-- **Evaluation ends, if the budget leaves room for one highest body for each call that is still
allowed**, and for the expression itself. -/
theorem evaluate_ends {c : Confines} {budget : Nat} : ∀ {depth h : Nat}, h ≤ c.height →
    (c.limit - depth) * c.height + h ≤ budget → EndsUpTo c depth h (evaluate budget) := by
  -- the budget goes down by one with each level, and a call takes one of the factors
  induction budget with
  | zero =>
    intro depth h _ hbudget e scope he
    obtain rfl : h = 0 := by omega
    exact (e.not_plain_zero he).elim
  | succ n ih =>
    intro depth h hheight hbudget
    cases h with
    | zero => exact fun e _ he => (e.not_plain_zero he).elim
    | succ h =>
      refine evalStep_ends (ih (Nat.le_of_succ_le hheight) (Nat.le_of_succ_le_succ hbudget))
        (fun hdepth => ih (Nat.le_refl _) ?_) hheight
      have hlimit : c.limit - depth = (c.limit - (depth + 1)) + 1 := by omega
      rw [hlimit, Nat.succ_mul] at hbudget
      omega

/-- **The limit on calls bounds how deeply evaluation nests, and so makes it end.**  Let neither a
program nor the body of any function that it can meet from its scope use `eval`, `launch`, `await`
or `quote`, and let it meet no intrinsic; let there be at most `h` expressions on every path in the
program and in those bodies.  With `k` calls active and `d` allowed, the program then ends with at
most `(d - k + 1) * h` evaluations of expressions inside one another. -/
theorem runProgram_ends_within {s : State} {scope h : Nat} {program : Program}
    (hprogram : Block.Plain h program) (hs : s.PlainFrom scope h) :
    ∃ v t, ∀ budget, (s.maxCallDepth - s.callDepth + 1) * h ≤ budget →
      runProgram budget program scope s = some (v, t) := by
  have heval : EndsUpTo (s.confines scope h) s.callDepth h
      (evaluate ((s.maxCallDepth - s.callDepth + 1) * h)) :=
    evaluate_ends (Nat.le_refl h) (Nat.le_of_eq (Nat.succ_mul _ _).symm)
  obtain ⟨v, t, hrun, -⟩ := evalProgram_ends heval (Or.inl .root) hprogram s hs.confinedTo
  exact ⟨v, t, fun budget hbudget => runProgram_mono hbudget hrun⟩

/-- **Programs that are run one after another stay plain**, so that each of them ends. -/
theorem State.PlainFrom.runProgram {s t : State} {scope h budget : Nat} {program : Program}
    {v : Value} (hs : s.PlainFrom scope h) (hprogram : Block.Plain h program)
    (hrun : Monkey.runProgram budget program scope s = some (v, t)) : t.PlainFrom scope h := by
  let ample := max budget ((s.maxCallDepth - s.callDepth) * h + h)
  have heval : EndsUpTo (s.confines scope h) s.callDepth h (evaluate ample) :=
    evaluate_ends (Nat.le_refl h) (Nat.le_max_right _ _)
  obtain ⟨w, u, hample, hu, -⟩ := evalProgram_ends heval (Or.inl .root) hprogram s hs.confinedTo
  -- the run is the same with more budget
  cases (runProgram_mono (Nat.le_max_left _ _) hrun).symm.trans hample
  exact hu.plainFrom (Or.inl .root)

/-- The body `if (n < 1) { 0 } else { countDown(n - 1) }`. -/
def countDownBody : Block := [.expr (.cond (.binary .lt (.ident "n") (.int 1)) [.expr (.int 0)]
  (some [.expr (.call (.ident "countDown") [.binary .sub (.ident "n") (.int 1)])]))]

/-- A state with a scope that binds `countDown` to the function with that body, where three calls
may be active at a time. -/
def countDownState : State :=
  { State.start 3 .empty with
    scopes := (Scopes.empty.add none).set 0 "countDown" (.function 0 ⟨["n"], countDownBody, 0⟩)
    nextAddress := 1 }

theorem countDownState_plainFrom : countDownState.PlainFrom 0 4 := by
  have hconfined : countDownState.ConfinedTo ⟨fun _ => True, 4, 3⟩ 0 :=
    { outer := fun _ _ => trivial
      bound := fun _ hmem => by
        rcases Scopes.mem_bindings_of_set hmem with rfl | hmem
        · exact (Value.confinedTo_iff_of_isLeaf rfl).2 ⟨trivial, by decide⟩
        · have hempty := Scopes.mem_bindings_of_add hmem
          simp [Scopes.bindings, Scopes.get?, Scopes.empty] at hempty
      newScopes := fun _ => trivial
      callDepth_eq := rfl
      maxCallDepth_eq := rfl }
  exact hconfined.plainFrom trivial

/-- Counting down from nine takes more calls than three; yet it ends, and sixteen evaluations inside
one another are enough for it. -/
theorem runProgram_ends_within_countDown : ∃ v t,
    (∀ budget, 16 ≤ budget → runProgram budget [.expr (.call (.ident "countDown") [.int 9])] 0
      countDownState = some (v, t)) ∧
    v.message? = some "stack overflow: maximum call depth 3 exceeded" := by
  have hplain : Block.Plain 4 [.expr (.call (.ident "countDown") [.int 9])] := by decide
  obtain ⟨v, t, hruns⟩ := runProgram_ends_within hplain countDownState_plainFrom
  have hmessage : (runProgram 16 [.expr (.call (.ident "countDown") [.int 9])] 0
      countDownState).map (fun p => p.1.message?) =
        some (some "stack overflow: maximum call depth 3 exceeded") := by decide +kernel
  rw [hruns 16 (Nat.le_refl _)] at hmessage
  exact ⟨v, t, hruns, Option.some.inj hmessage⟩

end Monkey
