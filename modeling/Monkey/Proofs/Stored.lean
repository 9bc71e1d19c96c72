import Monkey.Proofs.Clean
import Monkey.Proofs.Rules

/-!
# Nothing abrupt is ever stored

Errors and the wrappers of `return` travel as values, but they are never bound to a name, never put
into an array or a hash, never handed to a function or an operator, and never wrapped.  This holds
at every point of every run, also of runs that do not end, and whatever turns the threads of tasks
take: from a state that is clean in a region threads do clean actions only, and every state is clean
after that.

## Main definitions

* `Note.CleanIn`, `Action.CleanIn`, `Label.CleanIn` — what is clean to note and to do.
* `storing` — the discipline of clean actions.
* `Code.Keeps`, `Eval.Keeps` — code and evaluations that keep clean states clean.

## Main results

* `Code.evaluate_keeps` — every expression in a scope of the region is such code.
* `nothing_abrupt_is_stored` — **every state and every move of a sequence of programs is clean.**
-/

namespace Monkey

universe u

open Machine

/-- Clean notes: nothing abrupt is handed on, and what is given is clean apart from being an error
or, for an expression, the wrapper of a clean value. -/
def Note.CleanIn (r : Region) : Note → Prop
  | .gave v => v.OutcomeIn r
  | .operands vs => ∀ v ∈ vs, v.CleanIn r
  | .applied callee args => callee.CleanIn r ∧ ∀ v ∈ args, v.CleanIn r
  | .resulted v => v.ResultIn r
  | .raised _ => True

/-- Clean actions: they bind and send nothing abrupt, and they stay in the region. -/
def Action.CleanIn {β : Type} (r : Region) : Action β → Prop
  | .note n => n.CleanIn r
  | .newScope outer => ∀ o, outer = some o → r.scopes o
  | .setName _ _ v => v.CleanIn r
  | .look scope _ => r.scopes scope
  | .permit _ args => ∀ v ∈ args, v.CleanIn r
  | .send id v => r.tasks id ∧ v.ResultIn r
  | .close id => r.tasks id
  | .join id => r.tasks id
  | _ => True

/-- What comes of clean actions. -/
def Action.Brings (r : Region) : {β : Type} → Action β → β → Prop
  | _, .stuck, _ => False
  | _, .newScope _, id => r.scopes id
  | _, .look _ _, .inl v => v.CleanIn r
  | _, .look _ _, .inr outer => ∀ o, outer = some o → r.scopes o
  | _, .register, id => r.tasks id
  | _, .join _, found => ∀ v, found = some v → v.ResultIn r
  | _, _, _ => True

/-- Clean moves. -/
def Label.CleanIn (r : Region) : Label → Prop
  | .acted _ a _ => a.CleanIn r
  | .started _ id => r.tasks id
  | .refused _ id _ => r.tasks id

/-- What lists of expressions give: parts that `Q` holds for, or what an expression may give. -/
def PartsIn {α : Type} (r : Region) (Q : α → Prop) : Except Value α → Prop
  | .ok parts => Q parts
  | .error v => v.OutcomeIn r

/-- If the evaluation starts in a clean state and ends, it does so in a clean state and with a value
that `Q` holds for. -/
def Eval.Keeps {α : Type} (r : Region) (Q : α → Prop) (x : Eval α) : Prop :=
  ∀ s a t, s.CleanIn r → x s = some (a, t) → t.CleanIn r ∧ Q a

namespace Eval.Keeps

variable {r : Region}

theorem pure {α : Type} {Q : α → Prop} {a : α} (h : Q a) : Eval.Keeps r Q (pure a) := by
  intro s b t hs hrun
  cases hrun
  exact ⟨hs, h⟩

theorem bind {α β : Type} {Q : α → Prop} {Q' : β → Prop} {x : Eval α} {k : α → Eval β}
    (hx : Eval.Keeps r Q x) (hk : ∀ a, Q a → Eval.Keeps r Q' (k a)) :
    Eval.Keeps r Q' (x >>= k) := by
  intro s b t hs h
  obtain ⟨a, u, hxs, hku⟩ := Eval.bind_eq_some_iff.1 h
  obtain ⟨hu, ha⟩ := hx s a u hs hxs
  exact hk a ha u b t hu hku

theorem map {α β : Type} {Q : α → Prop} {x : Eval α} (hx : Eval.Keeps r Q x) (f : α → β) :
    Eval.Keeps r (fun _ => True) (f <$> x) := by
  rw [map_eq_pure_bind]
  exact bind hx fun _ _ => pure trivial

theorem stuck {α : Type} {Q : α → Prop} : Eval.Keeps r Q Eval.stuck := by
  intro s a t _ h
  cases h

/-- A step that changes neither the scopes nor the tasks. -/
theorem same {α : Type} {f : State → α × State} (hscopes : ∀ s, (f s).2.scopes = s.scopes)
    (htasks : ∀ s, (f s).2.tasks = s.tasks) :
    Eval.Keeps r (fun _ => True) (fun s => some (f s)) := by
  intro s a t hs h
  rw [Option.some.injEq] at h
  have hcongr := hs.congr (hscopes s) (htasks s)
  rw [h] at hcongr
  exact ⟨hcongr, trivial⟩

theorem fresh : Eval.Keeps r (fun _ => True) Eval.fresh := same (fun _ => rfl) fun _ => rfl

theorem newScope {outer : Option Nat} (h : ∀ o, outer = some o → r.scopes o) :
    Eval.Keeps r r.scopes (Eval.newScope outer) := by
  intro s id t hs hnew
  cases hnew
  -- the scope was still to be created, so it belongs to the region
  exact ⟨hs.newScope h, hs.newScopes (Nat.le_refl _)⟩

theorem setName {v : Value} (h : v.CleanIn r) (scope : Nat) (name : String) :
    Eval.Keeps r (fun _ => True) (Eval.setName scope name v) := by
  intro s _ t hs hset
  cases hset
  exact ⟨hs.setName h scope name, trivial⟩

theorem findName {scope : Nat} (hscope : r.scopes scope) (name : String) :
    Eval.Keeps r (fun found => ∀ v, found = some v → v.CleanIn r) (Eval.findName scope name) := by
  intro s found t hs h
  cases h
  exact ⟨hs, fun v hv => hs.find? hscope hv⟩

theorem lookAt {scope : Nat} (hscope : r.scopes scope) (name : String) :
    Eval.Keeps r (Action.Brings r (.look scope name)) (Eval.lookAt scope name) := by
  intro s found t hs h
  cases h
  refine ⟨hs, ?_⟩
  unfold Scopes.look
  split
  · next v hfind => exact hs.bound hscope (Bindings.mem_of_find? hfind)
  · exact fun o ho => hs.outer hscope ho

theorem registerTask : Eval.Keeps r r.tasks Eval.registerTask := by
  intro s id t hs h
  cases h
  exact ⟨hs.registerTask, hs.newTasks (Nat.le_refl _)⟩

theorem sendResult {id : Nat} (hid : r.tasks id) {result : Value} (h : result.ResultIn r) :
    Eval.Keeps r (fun _ => True) (Eval.sendResult id result) := by
  intro s _ t hs hsend
  cases hsend
  exact ⟨hs.sendTask hid h, trivial⟩

theorem closeTask {id : Nat} (hid : r.tasks id) :
    Eval.Keeps r (fun _ => True) (Eval.closeTask id) := by
  intro s _ t hs hclose
  cases hclose
  exact ⟨hs.closeTask hid, trivial⟩

theorem joinTask {id : Nat} (hid : r.tasks id) :
    Eval.Keeps r (fun found => ∀ v, found = some v → v.ResultIn r) (Eval.joinTask id) := by
  intro s found t hs h
  obtain ⟨hreply, rfl⟩ := Eval.joinTask_eq_some_iff.1 h
  refine ⟨hs.joinTask hid, fun v hv => ?_⟩
  rw [hv] at hreply
  exact hs.joinTask_result hid hreply

theorem askHost (id : Nat) : Eval.Keeps r (fun _ => True) (Eval.askHost id) :=
  same (fun _ => rfl) fun _ => rfl

theorem permit (c : Closure) (args : List Value) :
    Eval.Keeps r (fun _ => True) (Eval.permit c args) :=
  same (fun _ => rfl) fun _ => rfl

theorem printLines (lines : List String) :
    Eval.Keeps r (fun _ => True) (Eval.printLines lines) :=
  same (fun _ => rfl) fun _ => rfl

/-- What counts its own calls. -/
theorem onOwnCount {α : Type} {Q : α → Prop} {x : Eval α} (hx : Eval.Keeps r Q x) :
    Eval.Keeps r Q (Eval.onOwnCount x) := by
  intro s a t hs hrun
  obtain ⟨u, hbody, rfl⟩ := Eval.onOwnCount_eq_some_iff.1 hrun
  obtain ⟨hu, ha⟩ := hx { s with callDepth := 0 } a u (hs.congr rfl rfl) hbody
  exact ⟨hu.congr rfl rfl, ha⟩

theorem finishTask {id : Nat} (hid : r.tasks id) {result : Value} (h : result.ResultIn r) :
    Eval.Keeps r (fun _ => True) (Eval.finishTask id result) := by
  intro s _ t hs hfinish
  cases hfinish
  exact ⟨(hs.sendTask hid h).closeTask hid, trivial⟩

/-- **A clean action keeps a clean state clean.** -/
theorem run {β : Type} {a : Action β} (h : a.CleanIn r) : Eval.Keeps r (a.Brings r) a.run := by
  cases a with
  | note => exact pure trivial
  | stuck => exact stuck
  | newScope outer => exact newScope h
  | setName scope name v => exact setName h scope name
  | look scope name => exact lookAt h name
  | register => exact registerTask
  | send id v => exact sendResult h.1 h.2
  | close id => exact closeTask h
  | join id => exact joinTask h
  | fresh | print | permit | enterCall | leaveCall => exact same (fun _ => rfl) fun _ => rfl

end Eval.Keeps

/-! ### Code that does clean actions -/

/-- Threads do clean actions only, and tasks send clean values or errors. -/
def storing (r : Region) : Discipline Unit where
  May _ a b := a = b ∧ a.CleanIn r
  Gives _ a _ c d := c = d ∧ a.Brings r c
  MayStart _ i j := i = j ∧ r.tasks i
  Sends _ v v' := v = v' ∧ v.ResultIn r
  may_mono _ := id
  mayStart_mono _ := id
  sends_mono _ _ _ _ _ := id
  may_send := by
    rintro _ i _ v _ ⟨rfl, hid⟩ ⟨rfl, hv⟩
    exact ⟨rfl, hid, hv⟩
  may_close := by
    rintro _ i _ ⟨rfl, hid⟩
    exact ⟨rfl, hid⟩
  Holds _ s := s.CleanIn r
  holds_callDepth hs _ := hs.congr rfl rfl
  step hs hmay hrun := by
    obtain ⟨ht, hb⟩ := Eval.Keeps.run hmay.2 _ _ _ hs hrun
    exact ⟨(), le_refl _, ht, rfl, hb⟩

/-- A result that `Q` holds for. -/
def justResult {α : Type} (Q : α → Prop) (_ : Unit) (a b : α) : Prop := a = b ∧ Q a

theorem lasting_justResult {α : Type} (Q : α → Prop) : Lasting (justResult Q) :=
  fun _ _ _ _ _ => id

namespace Code

variable {α β : Type} {r : Region}

/-- The code does clean actions only, and `Q` holds of its result. -/
def Keeps (r : Region) (Q : α → Prop) (x : Code α) : Prop :=
  x.Abide (storing r).toRules () (justResult Q) x

namespace Keeps

variable {Q : α → Prop} {Q' : β → Prop} {x : Code α} {k : α → Code β}

/-- On the spot, such code keeps a clean state clean. -/
theorem run (h : Keeps r Q x) : Eval.Keeps r Q x.run := by
  intro s a t hs hrun
  obtain ⟨_, _, ht, -, ha⟩ := (storing r).run (lasting_justResult Q) h hs hrun
  exact ⟨ht, ha⟩

theorem pure {a : α} (h : Q a) : Keeps r Q (pure a) := Abide.pure ⟨rfl, h⟩

theorem bind (hx : Keeps r Q x) (hk : ∀ a, Q a → Keeps r Q' (k a)) : Keeps r Q' (x >>= k) := by
  refine Abide.bind hx fun _ a b _ hab => ?_
  obtain ⟨rfl, ha⟩ := hab
  exact hk a ha

theorem imp {P : α → Prop} (hx : Keeps r P x) (h : ∀ a, P a → Q a) : Keeps r Q x :=
  Abide.imp hx fun _ a _ _ hab => ⟨hab.1, h a hab.2⟩

theorem act {a : Action α} (h : a.CleanIn r) : Keeps r (a.Brings r) (Machine.act a) :=
  Abide.single ⟨rfl, h⟩ fun _ _ _ _ hcd => hcd

theorem noted {n : Note} (hn : n.CleanIn r) (hx : Keeps r Q x) :
    Keeps r Q (Machine.noted n x) :=
  Abide.act ⟨rfl, hn⟩ fun _ _ _ _ _ => hx

theorem giving {x : Code Value} (hx : Keeps r (Value.OutcomeIn r) x) :
    Keeps r (Value.OutcomeIn r) (giving x) :=
  bind hx fun _ hv => noted (n := .gave _) hv (pure hv)

theorem find (name : String) : ∀ (n : Nat) {scope : Nat}, r.scopes scope →
    Keeps r (fun found => ∀ v, found = some v → v.CleanIn r) (lookOutward n scope name)
  | 0, _, _ => pure fun _ hv => nomatch hv
  | n + 1, scope, hscope => by
    refine Abide.act ⟨rfl, hscope⟩ fun _ c _ _ hcd => ?_
    obtain ⟨rfl, hc⟩ := hcd
    match c, hc with
    | .inl v, hv =>
      refine pure fun w hw => ?_
      cases hw
      exact hv
    | .inr (some outer), houter => exact find name n (houter outer rfl)
    | .inr none, _ => exact pure fun _ hv => nomatch hv

theorem print : ∀ lines : List String, Keeps r (fun _ => True) (printEach lines)
  | [] => pure trivial
  | _ :: rest => Abide.act ⟨rfl, trivial⟩ fun _ _ _ _ _ => print rest

theorem spawn {id : Nat} (hid : r.tasks id) {task : Code Value}
    (htask : Keeps r (Value.ResultIn r) task) :
    Keeps r (fun _ => True) (Machine.spawn id task : Code (Option String)) :=
  Abide.spawn ⟨rfl, hid⟩ htask fun _ _ _ => pure trivial

theorem inCall (c : Closure) (hx : Keeps r Q x) : Keeps r Q (inCall c x) := by
  refine bind (act trivial) fun _ _ => Abide.inBody ?_ c c
  exact bind hx fun a ha => bind (act trivial) fun _ _ => pure ha

theorem allocate {make : Nat → Value} (h : ∀ addr, (make addr).ResultIn r) :
    Keeps r (Value.ResultIn r) (allocate make) :=
  bind (act (a := .fresh) trivial) fun addr _ => pure (h addr)

theorem raise (e : EvalError) : Keeps r (Value.ResultIn r) (raise e) :=
  noted (n := .raised e) trivial (allocate fun _ => trivial)

theorem andThen {x : Code Value} {k : Value → Code Value} (hx : Keeps r (Value.OutcomeIn r) x)
    (hk : ∀ v, v.CleanIn r → Keeps r (Value.OutcomeIn r) (k v)) :
    Keeps r (Value.OutcomeIn r) (andThen x k) := by
  refine bind hx fun v hv => ?_
  split
  · exact pure hv
  · next hproper => exact hk v (hv.cleanIn (by simpa using hproper))

theorem operate {operands : List Value} {operation : Nat → Value}
    (hoperands : ∀ v ∈ operands, v.CleanIn r)
    (h : ∀ fresh, (operation fresh).ResultIn r) :
    Keeps r (Value.OutcomeIn r) (operate operands operation) :=
  noted (n := .operands operands) hoperands ((allocate h).imp fun _ hv => hv.outcomeIn)

theorem leave {v : Value} (h : v.OutcomeIn r) : Keeps r (Value.ResultIn r) (leave v) :=
  noted (n := .resulted _) h.unwrapReturn (pure h.unwrapReturn)

theorem setNames {bindings : List (String × Value)} (scope : Nat)
    (h : ∀ b ∈ bindings, b.2.CleanIn r) :
    Keeps r (fun _ => True) (setNames scope bindings) := by
  induction bindings with
  | nil => exact pure trivial
  | cons entry rest ih =>
    obtain ⟨name, value⟩ := entry
    rw [List.forall_mem_cons] at h
    exact bind (act (a := .setName scope name value) h.1) fun _ _ => ih h.2

end Keeps

/-! ### Every part of evaluation is such code -/

/-- An evaluator of expressions that does clean actions in every scope of a region. -/
def KeepsClean (r : Region) (eval : Expr → Nat → Code Value) : Prop :=
  ∀ e {scope}, r.scopes scope → Keeps r (Value.OutcomeIn r) (eval e scope)

section

variable {eval : Expr → Nat → Code Value} {scope : Nat}

theorem evalStmt_keeps (h : KeepsClean r eval) (hscope : r.scopes scope) (st : Stmt) :
    Keeps r (Value.OutcomeIn r) (evalStmt eval st scope) := by
  cases st with
  | letBe name value =>
    refine .andThen (h value hscope) fun v hv => ?_
    exact .bind (.act (a := .setName scope name v) hv) fun _ _ => .pure hv.resultIn.outcomeIn
  | ret value =>
    refine .andThen (h value hscope) fun v hv => .giving ?_
    -- what is wrapped is clean, so the wrapper is a possible outcome
    exact .bind (.act (a := .fresh) trivial) fun _ _ => .pure hv
  | expr value => exact h value hscope

theorem evalBodyFrom_keeps (h : KeepsClean r eval) (hscope : r.scopes scope)
    (body : List Stmt) : ∀ {last : Value}, last.OutcomeIn r →
    Keeps r (Value.OutcomeIn r) (evalBodyFrom eval scope last body) := by
  induction body with
  | nil =>
    intro last hlast
    exact .pure hlast
  | cons st rest ih =>
    intro last _
    refine .andThen (evalStmt_keeps h hscope st) fun v hv => ?_
    exact ih hv.resultIn.outcomeIn

theorem evalBody_keeps (h : KeepsClean r eval) (hscope : r.scopes scope) (body : Block) :
    Keeps r (Value.OutcomeIn r) (evalBody eval body scope) := by
  have hnull : Value.null.OutcomeIn r := trivial
  exact evalBodyFrom_keeps h hscope body hnull

theorem evalProgram_keeps (h : KeepsClean r eval) (hscope : r.scopes scope)
    (program : Program) : Keeps r (Value.ResultIn r) (evalProgram eval program scope) :=
  .bind (evalBody_keeps h hscope program) fun _ hv => .leave hv

theorem evalArgs_keeps (h : KeepsClean r eval) (hscope : r.scopes scope) (args : List Expr) :
    Keeps r (PartsIn r fun vs => ∀ v ∈ vs, v.CleanIn r) (evalArgs eval scope args) := by
  induction args with
  | nil =>
    refine .pure fun v hv => ?_
    cases hv
  | cons e rest ih =>
    refine .bind (h e hscope) fun v hv => ?_
    split
    · exact .pure hv
    · next hproper =>
      have hclean : v.CleanIn r := hv.cleanIn (by simpa using hproper)
      refine .bind ih fun parts hparts => ?_
      cases parts with
      | ok vs =>
        have hall : ∀ w ∈ v :: vs, w.CleanIn r := List.forall_mem_cons.2 ⟨hclean, hparts⟩
        exact .pure hall
      | error w => exact .pure hparts

theorem evalPairs_keeps (h : KeepsClean r eval) (hscope : r.scopes scope)
    (pairs : List (Expr × Expr)) : ∀ {entries : Entries Value},
    (∀ e ∈ entries, e.2.CleanIn r) →
    Keeps r (PartsIn r fun es => ∀ e ∈ es, e.2.CleanIn r)
      (evalPairs eval scope entries pairs) := by
  induction pairs with
  | nil =>
    intro entries hentries
    exact .pure hentries
  | cons pair rest ih =>
    obtain ⟨key, value⟩ := pair
    intro entries hentries
    refine .bind (h key hscope) fun k hk => ?_
    split
    · exact .pure hk
    · cases k.hashKey? with
      -- the value is not evaluated where the key is not fit for it
      | none => exact .bind (.raise _) fun err herr => .pure herr.outcomeIn
      | some hashKey =>
        refine .bind (h value hscope) fun v hv => ?_
        split
        · exact .pure hv
        · next hproper =>
          have hclean : v.CleanIn r := hv.cleanIn (by simpa using hproper)
          exact ih (insert_clean hentries hclean)

/-! ### Calls and tasks -/

theorem callClosure_keeps (h : KeepsClean r eval) {c : Closure} (hc : r.scopes c.scope)
    {args : List Value} (hargs : ∀ v ∈ args, v.CleanIn r) :
    Keeps r (Value.ResultIn r) (callClosure eval c args) := by
  refine .bind (.act (a := .permit c args) hargs) fun refusal _ => ?_
  cases refusal with
  | some e => exact .raise e
  | none =>
    have hscope : Keeps r r.scopes (do
        let inner ← Machine.act (.newScope (some c.scope))
        Machine.setNames inner (c.params.zip args)
        return inner) := by
      have houter : ∀ o, some c.scope = some o → r.scopes o := by
        rintro _ ⟨⟩
        exact hc
      refine .bind (.act (a := .newScope _) houter) fun inner hinner => ?_
      -- each parameter is bound to one of the arguments
      have hbindings : ∀ b ∈ c.params.zip args, b.2.CleanIn r :=
        fun b hb => hargs b.2 (List.of_mem_zip hb).2
      exact .bind (.setNames inner hbindings) fun _ _ => .pure hinner
    refine .bind hscope fun inner hinner => ?_
    exact .bind (.inCall c (evalBody_keeps h hinner c.body)) fun v hv => .leave hv

/-- A new scope inside a scope of the region. -/
theorem newScope_keeps (hscope : r.scopes scope) :
    Keeps r r.scopes (Machine.act (.newScope (some scope))) := by
  refine .act (a := .newScope (some scope)) ?_
  rintro _ ⟨⟩
  exact hscope

theorem evalText_keeps (h : KeepsClean r eval) (hscope : r.scopes scope) (argument : Value) :
    Keeps r (Value.ResultIn r) (evalText eval argument scope) := by
  unfold evalText
  split
  · split
    · exact .bind (newScope_keeps hscope) fun inner hinner => evalProgram_keeps h hinner _
    · exact .raise _
  · exact .raise _

theorem launch_keeps (h : KeepsClean r eval) (hscope : r.scopes scope) (argument : Value) :
    Keeps r (Value.ResultIn r) (launch eval argument scope) := by
  unfold launch
  split
  · next c =>
    refine .bind (newScope_keeps hscope) fun inner hinner => ?_
    refine .bind (.act (a := .register) trivial) fun id hid => ?_
    have htask : Keeps r (Value.ResultIn r) (do
        let v ← evalBody eval c.body inner
        leave v) := .bind (evalBody_keeps h hinner c.body) fun _ hv => .leave hv
    -- the handle is given whether or not the body fails
    refine .bind (.spawn hid htask) fun refusal _ => ?_
    cases refusal with
    | none => exact .pure hid
    | some reason => exact .raise _
  · exact .raise _

theorem awaitTask_keeps {argument : Value} (hargument : argument.CleanIn r) :
    Keeps r (Value.ResultIn r) (awaitTask argument) := by
  unfold awaitTask
  split
  · refine .bind (.act (a := .join _) hargument) fun found hfound => ?_
    cases found with
    -- the result may be an error, which is why a call may give one
    | some value => exact .pure (hfound value rfl)
    | none => exact .raise _
  · exact .raise _

theorem callIntrinsic_keeps (h : KeepsClean r eval) (hscope : r.scopes scope) (i : Intrinsic)
    {args : List Value} (hargs : ∀ v ∈ args, v.CleanIn r) :
    Keeps r (Value.ResultIn r) (callIntrinsic eval i args scope) := by
  unfold callIntrinsic
  split
  · next argument =>
    cases i with
    | eval => exact evalText_keeps h hscope argument
    | launch => exact launch_keeps h hscope argument
    | await => exact awaitTask_keeps (hargs argument List.mem_cons_self)
  · exact .raise _

theorem callBuiltin_keeps (b : Builtin) {args : List Value} (hargs : ∀ v ∈ args, v.CleanIn r) :
    Keeps r (Value.ResultIn r) (callBuiltin b args) := by
  refine .bind (.print (b.printed args)) fun _ _ => ?_
  exact .allocate fun addr => b.apply_resultIn hargs addr

/-- A call of a clean value with clean arguments gives a clean value or an error. -/
theorem applyValue_keeps (h : KeepsClean r eval) (hscope : r.scopes scope) {callee : Value}
    (hcallee : callee.CleanIn r) {args : List Value} (hargs : ∀ v ∈ args, v.CleanIn r) :
    Keeps r (Value.ResultIn r) (applyValue eval callee args scope) := by
  refine .noted (n := .applied callee args) ⟨hcallee, hargs⟩ ?_
  split
  · exact callClosure_keeps h hcallee hargs
  · exact callBuiltin_keeps _ hargs
  · exact callIntrinsic_keeps h hscope _ hargs
  · exact .raise _

/-- A clean value that is made at a new address. -/
theorem allocate_keeps {make : Nat → Value} (h : ∀ addr, (make addr).CleanIn r) :
    Keeps r (Value.OutcomeIn r) (allocate make) :=
  (Keeps.allocate fun addr => (h addr).resultIn).imp fun _ hv => hv.outcomeIn

/-! ### Quoting -/

/-- The first error of a quote so far, if there is one, is a possible outcome. -/
def FailureIn (r : Region) (failure : Option Value) : Prop :=
  ∀ v, failure = some v → v.OutcomeIn r

theorem failureIn_none : FailureIn r none := by
  intro v hv
  cases hv

/-- Effects of rewriting that do clean actions and carry a possible outcome. -/
def keepingClean (r : Region) :
    EffectRelation (StateT (Option Value) Code) (StateT (Option Value) Code) where
  Related {α} x _ := ∀ failure, FailureIn r failure →
    Keeps r (fun p : α × Option Value => FailureIn r p.2) (x.run failure)
  pure _ _ hfailure := .pure hfailure
  bind hx hk failure hfailure := by
    rw [StateT.run_bind]
    exact .bind (hx failure hfailure) fun p hp => hk p.1 p.2 hp

theorem unquoteVisit_keeps (h : KeepsClean r eval) (hscope : r.scopes scope) (e : Expr) :
    (keepingClean r).Related (unquoteVisit eval scope e) (unquoteVisit eval scope e) := by
  intro failure hfailure
  cases failure with
  | some err =>
    rw [run_unquoteVisit_some]
    exact .pure hfailure
  | none =>
    rw [run_unquoteVisit_none]
    split
    · exact .pure hfailure
    · refine .bind (h _ hscope) fun v hv => ?_
      split
      · refine .pure fun w hw => ?_
        cases hw
        exact hv.unwrapReturn.outcomeIn
      · exact .pure hfailure

theorem quoteArgs_keeps (h : KeepsClean r eval) (hscope : r.scopes scope) (args : List Expr) :
    Keeps r (Value.OutcomeIn r) (quoteArgs eval args scope) := by
  cases args with
  | nil => exact (Keeps.raise _).imp fun _ hv => hv.outcomeIn
  | cons e rest =>
    have hvisit := unquoteVisit_keeps h hscope
    have hquoted := Expr.rewriteM_related (keepingClean r) hvisit e none failureIn_none
    refine .bind hquoted fun p hp => ?_
    obtain ⟨node, failure⟩ := p
    cases failure with
    | some err => exact .pure (hp err rfl)
    | none => exact allocate_keeps fun _ => (trivial : Value.CleanIn r (.quote _ node))

/-! ### Expressions and programs -/

theorem evalName_keeps (hscope : r.scopes scope) (name : String) :
    Keeps r (Value.OutcomeIn r) (evalName name scope) := by
  unfold evalName
  split
  · exact .pure trivial
  · refine .bind (.find name _ hscope) fun found hfound => ?_
    split
    · next value => exact .pure (hfound value rfl).resultIn.outcomeIn
    · split
      · exact .pure trivial
      · exact (Keeps.raise _).imp fun _ hv => hv.outcomeIn

theorem evalBranch_keeps (h : KeepsClean r eval) (hscope : r.scopes scope)
    (branch : Option Block) : Keeps r (Value.OutcomeIn r) (evalBranch eval branch scope) := by
  cases branch with
  | none => exact .pure trivial
  | some body => exact evalBody_keeps h hscope body

/-- The operands of an operator with two of them. -/
theorem pair_clean {v w : Value} (hv : v.CleanIn r) (hw : w.CleanIn r) :
    ∀ u ∈ [v, w], u.CleanIn r := by
  simp only [List.forall_mem_cons, List.not_mem_nil, false_implies, implies_true, and_true]
  exact ⟨hv, hw⟩

/-- **One level of evaluation does clean actions only**, if the evaluation of the parts does. -/
theorem evalStep_keeps (h : KeepsClean r eval) (e : Expr) (hscope : r.scopes scope) :
    Keeps r (Value.OutcomeIn r) (evalStep eval e scope) := by
  cases e with
  | ident name => exact evalName_keeps hscope name
  | int value => exact .pure trivial
  | bool value => exact .pure trivial
  | str text => exact allocate_keeps fun _ => trivial
  | unary op right =>
    refine .andThen (h right hscope) fun v hv => ?_
    exact .operate (List.forall_mem_singleton.2 hv) (op.apply_resultIn v)
  | binary op left right =>
    -- the operands are noted only once neither of them is abrupt
    refine .andThen (h left hscope) fun v hv => ?_
    refine .andThen (h right hscope) fun w hw => ?_
    exact .operate (pair_clean hv hw) (op.apply_resultIn v w)
  | cond condition consequence alternative =>
    exact .andThen (h condition hscope) fun _ _ => evalBranch_keeps h hscope _
  | fn params body => exact allocate_keeps fun _ => hscope
  | macroFn params body => exact allocate_keeps fun _ => hscope
  | call callee args =>
    simp only [evalStep]
    split
    · exact quoteArgs_keeps h hscope args
    · refine .andThen (h callee hscope) fun f hf => ?_
      refine .bind (evalArgs_keeps h hscope args) fun parts hparts => ?_
      cases parts with
      | ok vs => exact (applyValue_keeps h hscope hf hparts).imp fun _ hv => hv.outcomeIn
      | error v => exact .pure hparts
  | array elements =>
    refine .bind (evalArgs_keeps h hscope elements) fun parts hparts => ?_
    cases parts with
    | ok vs => exact allocate_keeps fun _ => cleanAll_iff.2 hparts
    | error v => exact .pure hparts
  | index base position =>
    refine .andThen (h base hscope) fun v hv => ?_
    refine .andThen (h position hscope) fun w hw => ?_
    exact .operate (pair_clean hv hw) (Value.at_resultIn hv w)
  | hash pairs =>
    -- the entries are collected one after another, and there is none at first
    have hnone : ∀ e ∈ ([] : Entries Value), e.2.CleanIn r := List.forall_mem_nil _
    refine .bind (evalPairs_keeps h hscope pairs hnone) fun parts hparts => ?_
    cases parts with
    | ok entries => exact allocate_keeps fun _ => cleanEntries_iff.2 hparts
    | error v => exact .pure hparts

end

/-- **Evaluation does clean actions only** in every scope of the region. -/
theorem evaluate_keeps (r : Region) (budget : Nat) : KeepsClean r (evaluateOn Code budget) := by
  -- a part of an expression has one unit of the budget less than the expression
  induction budget with
  | zero =>
    refine fun e scope hscope => Abide.act ⟨rfl, trivial⟩ fun _ _ _ _ hgives => ?_
    exact hgives.2.elim
  | succ n ih => exact fun e scope hscope => .giving (evalStep_keeps ih e hscope)

/-- A program does clean actions only, and what it gives is no wrapper of a `return`. -/
theorem runProgram_keeps {scope : Nat} (hscope : r.scopes scope) (budget : Nat)
    (program : Program) : Keeps r (Value.ResultIn r) (runProgramOn Code budget program scope) :=
  evalProgram_keeps (evaluate_keeps r budget) hscope program

end Code

/-! ### Evaluation that changes the state -/

namespace Eval.Keeps

variable {r : Region} {scope : Nat}

theorem evaluate (hscope : r.scopes scope) (budget : Nat) (e : Expr) :
    Eval.Keeps r (Value.OutcomeIn r) (evaluate budget e scope) := by
  rw [← Code.run_evaluateOn]
  exact (Code.evaluate_keeps r budget e hscope).run

theorem evalStmt (hscope : r.scopes scope) (budget : Nat) (st : Stmt) :
    Eval.Keeps r (Value.OutcomeIn r) (evalStmt (Monkey.evaluate budget) st scope) := by
  rw [← Code.run_evalStmt]
  exact (Code.evalStmt_keeps (Code.evaluate_keeps r budget) hscope st).run

theorem evalBody (hscope : r.scopes scope) (budget : Nat) (body : Block) :
    Eval.Keeps r (Value.OutcomeIn r) (evalBody (Monkey.evaluate budget) body scope) := by
  rw [← Code.run_evalBody]
  exact (Code.evalBody_keeps (Code.evaluate_keeps r budget) hscope body).run

theorem evalArgs (hscope : r.scopes scope) (budget : Nat) (args : List Expr) :
    Eval.Keeps r (PartsIn r fun vs => ∀ v ∈ vs, v.CleanIn r)
      (evalArgs (Monkey.evaluate budget) scope args) := by
  rw [← Code.run_evalArgs]
  exact (Code.evalArgs_keeps (Code.evaluate_keeps r budget) hscope args).run

theorem evalPairs (hscope : r.scopes scope) (budget : Nat) (pairs : List (Expr × Expr)) :
    Eval.Keeps r (PartsIn r fun es => ∀ e ∈ es, e.2.CleanIn r)
      (evalPairs (Monkey.evaluate budget) scope [] pairs) := by
  rw [← Code.run_evalPairs]
  have hnone : ∀ e ∈ ([] : Entries Value), e.2.CleanIn r := List.forall_mem_nil _
  exact (Code.evalPairs_keeps (Code.evaluate_keeps r budget) hscope pairs hnone).run

end Eval.Keeps

/-! ### Sequences of programs -/

/-- Runs programs one after another, each in a scope that is given with it. -/
def runProgramsOn (m : Type → Type u) [Monad m] [Machine m] (budget : Nat) :
    List (Program × Nat) → m (List Value)
  | [] => return []
  | (program, scope) :: rest => do
    let v ← runProgramOn m budget program scope
    let vs ← runProgramsOn m budget rest
    return v :: vs

theorem Code.run_runProgramsOn (budget : Nat) (programs : List (Program × Nat)) :
    (runProgramsOn Code budget programs).run = runProgramsOn Eval budget programs := by
  induction programs with
  | nil => rfl
  | cons entry rest ih =>
    obtain ⟨program, scope⟩ := entry
    rw [runProgramsOn, runProgramsOn, run_bind, run_runProgramOn]
    refine bind_congr fun v => ?_
    rw [run_bind, ih]
    rfl

theorem Code.runPrograms_keeps {r : Region} (budget : Nat) {programs : List (Program × Nat)}
    (h : ∀ p ∈ programs, r.scopes p.2) :
    Keeps r (fun vs => ∀ v ∈ vs, v.ResultIn r) (runProgramsOn Code budget programs) := by
  induction programs with
  | nil => exact .pure (List.forall_mem_nil _)
  | cons entry rest ih =>
    obtain ⟨program, scope⟩ := entry
    rw [List.forall_mem_cons] at h
    refine .bind (runProgram_keeps h.1 budget program) fun v hv => ?_
    refine .bind (ih h.2) fun vs hvs => ?_
    exact .pure (List.forall_mem_cons.2 ⟨hv, hvs⟩)

/-- What the discipline allows is clean. -/
theorem Label.Obeys.cleanIn {r : Region} {l : Label} (h : l.Obeys (storing r).toRules ()) :
    l.CleanIn r := by
  cases l with
  | acted | started | refused => exact h.2

/-- **Nothing abrupt is ever stored.**  Let programs run one after another in scopes that lead to
clean values only, while the tasks that they start take turns with them.  At every point of every
run, whether it ends or not, and whatever the host refuses, no binding, no element and no entry is
an error or a `return`, operators and calls are given neither, calls, programs and tasks never give
a `return`, and a `return` wraps a clean value.  The same holds where every task runs to its end at
once. -/
theorem nothing_abrupt_is_stored {s : State} {roots : Nat → Prop} (h : s.CleanFrom roots)
    (budget : Nat) {programs : List (Program × Nat)} (hprograms : ∀ p ∈ programs, roots p.2) :
    (∀ ms q, Pool.Runs (.alone s (runProgramsOn Code budget programs)) ms q →
      q.state.CleanIn (s.reach roots) ∧ (∀ m ∈ ms, m.2.CleanIn (s.reach roots)) ∧
      ∀ vs, q.main.code = pure vs → ∀ v ∈ vs, v.ResultIn (s.reach roots)) ∧
    ∀ vs t, runProgramsOn Eval budget programs s = some (vs, t) →
      t.CleanIn (s.reach roots) ∧ ∀ v ∈ vs, v.ResultIn (s.reach roots) := by
  -- the run stays in the region of what its scopes lead to
  have hscopes : ∀ p ∈ programs, (s.reach roots).scopes p.2 :=
    fun p hp => Or.inl (.root (hprograms p hp))
  have hkeeps := Code.runPrograms_keeps budget hscopes
  refine ⟨fun ms q hruns => ?_, fun vs t hrun => ?_⟩
  · have hlasting := lasting_justResult fun vs : List Value => ∀ v ∈ vs, v.ResultIn (s.reach roots)
    have hstart : Pool.Abides (storing (s.reach roots)) () (justResult _)
        (.alone s (runProgramsOn Code budget programs)) :=
      ⟨h.cleanIn, hkeeps, List.forall_mem_nil _⟩
    obtain ⟨_, _, hq⟩ := hruns.abides hlasting hstart
    refine ⟨hq.holds, fun m hm => ?_, fun vs hvs => ?_⟩
    · obtain ⟨_, _, hobeys⟩ := hruns.obeys hlasting hstart m hm
      exact hobeys.cleanIn
    · have hmain := hq.main
      rw [hvs] at hmain
      cases hmain with
      | pure hall => exact hall.2
  · rw [← Code.run_runProgramsOn] at hrun
    exact hkeeps.run s vs t h.cleanIn hrun

/-- A state in which one task has failed, and in which a scope binds `n` to an array and `failed` to
the handle of that task. -/
def failedTaskState : State :=
  { State.start 10 .empty with
    scopes := ((Scopes.empty.add none).set 0 "n" (.array 0 [.integer 1])).set 0 "failed" (.task 0)
    tasks := ⟨[(0, ⟨true, .ended (some (.error 1 "division by zero"))⟩)], 1⟩
    nextAddress := 2 }

/-- The programs `let t = launch(fn() { return n; });` and `[n, await(t)]`. -/
def launchingPrograms : List (Program × Nat) :=
  [([.letBe "t" (.call (.ident "launch") [.fn [] [.ret (.ident "n")]])], 0),
    ([.expr (.array [.ident "n", .call (.ident "await") [.ident "t"]])], 0)]

theorem failedTaskState_cleanFrom : failedTaskState.CleanFrom (· = 0) where
  registry :=
    { isSome_slot?_iff := fun id => by
        cases id with
        | zero => decide
        | succ n => exact iff_of_false (fun h => nomatch h) (by simp [failedTaskState])
      size_eq := rfl
      alive := fun {id entry} hentry => by
        cases id with
        | zero =>
          cases hentry
          rfl
        | succ n => cases hentry }
  -- the error stands in the registry alone, as the result of the task
  bound {id name v} _ hmem := by
    cases id with
    | zero =>
      change (name, v) ∈ [("n", .array 0 [.integer 1]), ("failed", .task 0)] at hmem
      rcases List.mem_cons.1 hmem with hmem | hmem
      · cases hmem
        exact ⟨trivial, trivial⟩
      · rcases List.mem_singleton.1 hmem with ⟨⟩
        trivial
    | succ n => cases hmem
  result {id state v} _ hget hv := by
    cases id with
    | zero =>
      cases hget
      cases hv
      trivial
    | succ n => cases hget

/-- Programs that start a task and use its result store nothing abrupt, and there is a run in which
they come to an end. -/
theorem nothing_abrupt_is_stored_launching :
    ∃ vs t ms q, runProgramsOn Eval 5 launchingPrograms failedTaskState = some (vs, t) ∧
      t.CleanIn (failedTaskState.reach (· = 0)) ∧
      Pool.Runs (.alone failedTaskState (runProgramsOn Code 5 launchingPrograms)) ms q ∧
      q.main.code = pure vs ∧ q.state.CleanIn (failedTaskState.reach (· = 0)) := by
  have hrun : (runProgramsOn Eval 5 launchingPrograms failedTaskState).isSome = true := by
    decide +kernel
  obtain ⟨⟨vs, t⟩, hrun⟩ := Option.isSome_iff_exists.mp hrun
  have hscopes : ∀ p ∈ launchingPrograms, p.2 = 0 := by decide
  have hstored := nothing_abrupt_is_stored failedTaskState_cleanFrom 5 hscopes
  have hcode : (runProgramsOn Code 5 launchingPrograms).run failedTaskState = some (vs, t) := by
    rw [Code.run_runProgramsOn, hrun]
  obtain ⟨ms, new, hruns⟩ := Pool.runs_of_run hcode [] failedTaskState.callDepth
  exact ⟨vs, t, ms, _, hrun, (hstored.2 vs t hrun).1, hruns, rfl, (hstored.1 ms _ hruns).1⟩

end Monkey
