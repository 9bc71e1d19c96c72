import Mathlib.Order.Defs.PartialOrder
import Monkey.Proofs.Allocation
import Monkey.Proofs.Holding
import Monkey.Proofs.Rewriting
import Monkey.Proofs.Runs

/-!
# What is written down during a run

Let a ledger be kept while a program runs: a line is added to it whenever an address, a scope or a
task is given out, and none is ever struck off.  A value is in order if the ledger says so of it and
of everything inside it; what an allocation makes is in order once it is written down, if it lies in
a scope that is.  Then everything is in order that evaluation gives, binds or sends, provided that
this was so at the beginning: the values that turn up are old ones, or were just written down.

Evaluation also goes onward, whatever is written down: what was allocated stays allocated, what a
task has answered once it always answers, what was printed stays printed, and the number of active
calls is in the end what it was.

## Main definitions

* `Ledger` — what may be written down of a run.
* `Ledger.Fits`, `Ledger.Describes` — values and states that are in order.
* `Ledger.Keeps`, `Ledger.KeptBy` — evaluations and evaluators that keep to a ledger.

## Main results

* `Ledger.evaluate_keeps` — **evaluation keeps to every ledger.**
* `Ledger.applyValue_keeps` — **so does a call**, whatever is called.
* `Ledger.Describes.runProgram` — what is in order stays so when a program runs.
-/

namespace Monkey

/-- The literal of a function or a macro, and its scope. -/
def Value.closure? : Value → Option Closure
  | .function _ c | .macroFn _ c => some c
  | _ => none

/-- What may be written down of a run.  More and more is. -/
structure Ledger where
  /-- What has been written down so far. -/
  Record : Type
  [order : Preorder Record]
  /-- This much is given out where the record is up to date. -/
  Counts : Record → Extent → Prop
  /-- The scope is known. -/
  Knows : Record → Nat → Prop
  /-- It is known what was made under the address. -/
  Made : Record → Nat → Value → Prop
  /-- The value is in order, apart from what is inside it. -/
  Own : Record → Value → Prop
  knows_mono : ∀ {r r' : Record} {scope : Nat}, r ≤ r' → Knows r scope → Knows r' scope
  own_mono : ∀ {r r' : Record} {v : Value}, r ≤ r' → Own r v → Own r' v
  own_of_addr?_eq_none : ∀ {r : Record} {v : Value}, v.addr? = none → Own r v
  own_of_made : ∀ {r : Record} {v : Value} {addr : Nat}, Made r addr v → v.addr? = some addr →
    (∀ c, v.closure? = some c → Knows r c.scope) → Own r v
  fresh : ∀ {r : Record} {e : Extent} (v : Value), Counts r e →
    ∃ r', r ≤ r' ∧ Counts r' { e with addresses := e.addresses + 1 } ∧ Made r' e.addresses v
  newScope : ∀ {r : Record} {e : Extent}, Counts r e →
    ∃ r', r ≤ r' ∧ Counts r' { e with scopes := e.scopes + 1 } ∧ Knows r' e.scopes
  registerTask : ∀ {r : Record} {e : Extent}, Counts r e →
    ∃ r', r ≤ r' ∧ Counts r' { e with tasks := e.tasks + 1 }

attribute [instance] Ledger.order

namespace Ledger

/-- The value and everything inside it are in order. -/
def Fits (L : Ledger) (r : L.Record) (v : Value) : Prop := v.All (L.Own r)

/-- The record is up to date with the state, and everything in the state is in order. -/
structure Describes (L : Ledger) (r : L.Record) (s : State) : Prop where
  registry : s.tasks.Valid
  counts : L.Counts r s.extent
  stores : s.Stores (L.Fits r)

/-- Started in a state that is in order, where at least `r` is written down, the evaluation ends, if
it does, in a later state of the same sort and with a value that `Q` holds for in it. -/
def Keeps (L : Ledger) {α : Type} (r : L.Record) (Q : L.Record → α → Prop) (x : Eval α) : Prop :=
  ∀ b s v t, r ≤ b → L.Describes b s → x s = some (v, t) →
    s.Onward t ∧ ∃ c, b ≤ c ∧ L.Describes c t ∧ Q c v

/-- An evaluator that keeps to the ledger in every scope that is known. -/
def KeptBy (L : Ledger) (eval : Expr → Nat → Eval Value) : Prop :=
  ∀ r e scope, L.Knows r scope → L.Keeps r L.Fits (eval e scope)

variable {L : Ledger} {r r' : L.Record} {v : Value}

/-! ### Values -/

theorem Fits.mono (h : L.Fits r v) (hle : r ≤ r') : L.Fits r' v :=
  Value.All.imp h fun _ => L.own_mono hle

theorem Fits.unwrapReturn (h : L.Fits r v) : L.Fits r v.unwrapReturn := Value.All.unwrapReturn h

/-- What has nothing inside and was not made by any allocation. -/
theorem fits_of_addr?_eq_none (hleaf : v.isLeaf = true) (h : v.addr? = none) : L.Fits r v :=
  (Value.all_iff_of_isLeaf hleaf).2 (L.own_of_addr?_eq_none h)

theorem fits_null : L.Fits r .null := fits_of_addr?_eq_none rfl rfl

/-- New data is in order, apart from what is inside it. -/
theorem own_of_isNew {addr : Nat} (hmade : L.Made r addr v) (h : v.IsNew addr) : L.Own r v := by
  obtain ⟨hdata, haddr⟩ := h
  cases hv : v.addr? with
  | none => exact L.own_of_addr?_eq_none hv
  | some a =>
    cases haddr a hv
    refine L.own_of_made hmade hv fun c hc => ?_
    -- data is no function
    cases v <;> cases hc <;> cases hdata

/-- New data with nothing inside. -/
theorem fits_of_isNew {addr : Nat} (hmade : L.Made r addr v) (hleaf : v.isLeaf = true)
    (h : v.IsNew addr) : L.Fits r v :=
  (Value.all_iff_of_isLeaf hleaf).2 (own_of_isNew hmade h)

theorem fits_of_isScalar {addr : Nat} (hmade : L.Made r addr v) (hscalar : v.isScalar = true)
    (h : v.IsNew addr) : L.Fits r v :=
  fits_of_isNew hmade (Bool.and_eq_true_iff.1 hscalar).1 h

theorem fits_array {addr : Nat} {elements : List Value}
    (hmade : L.Made r addr (.array addr elements)) (h : ∀ v ∈ elements, L.Fits r v) :
    L.Fits r (.array addr elements) :=
  Value.all_array.2 ⟨own_of_isNew hmade (Value.isNew_array _ _), h⟩

theorem fits_hash {addr : Nat} {entries : List (HashKey × Value)}
    (hmade : L.Made r addr (.hash addr entries)) (h : ∀ e ∈ entries, L.Fits r e.2) :
    L.Fits r (.hash addr entries) :=
  Value.all_hash.2 ⟨L.own_of_made hmade rfl fun _ hc => (nomatch hc), h⟩

theorem fits_returned {addr : Nat} (hmade : L.Made r addr (.returned addr v)) (h : L.Fits r v) :
    L.Fits r (.returned addr v) :=
  Value.all_returned.2 ⟨L.own_of_made hmade rfl fun _ hc => (nomatch hc), h⟩

/-- A function or a macro of a scope that is known. -/
theorem fits_closure {addr : Nat} {c : Closure} (hmade : L.Made r addr v) (hleaf : v.isLeaf = true)
    (haddr : v.addr? = some addr) (hc : v.closure? = some c) (hscope : L.Knows r c.scope) :
    L.Fits r v := by
  refine (Value.all_iff_of_isLeaf hleaf).2 (L.own_of_made hmade haddr fun d hd => ?_)
  rw [hc, Option.some.injEq] at hd
  exact hd ▸ hscope

/-! ### Steps -/

/-- Only the number of active calls is changed. -/
theorem Describes.setCallDepth {s : State} (hs : L.Describes r s) (depth : Nat) :
    L.Describes r { s with callDepth := depth } :=
  ⟨hs.registry, hs.counts, hs.stores.congr rfl id⟩

namespace Keeps

variable {α β : Type} {Q : L.Record → α → Prop} {Q' : L.Record → β → Prop}

theorem pure {v : α} (h : ∀ b, r ≤ b → Q b v) : L.Keeps r Q (pure v) := by
  intro b s w t hrb hs hrun
  cases hrun
  exact ⟨.refl s, b, le_refl b, hs, h b hrb⟩

/-- A value that was in order before. -/
theorem pure_fits {v : Value} (h : L.Fits r v) : L.Keeps r L.Fits (Pure.pure v) :=
  pure fun _ hrb => h.mono hrb

theorem stuck : L.Keeps r Q Eval.stuck := by
  intro b s v t _ _ hrun
  cases hrun

theorem bind {x : Eval α} {k : α → Eval β} (hx : L.Keeps r Q x)
    (hk : ∀ b v, r ≤ b → Q b v → L.Keeps b Q' (k v)) : L.Keeps r Q' (x >>= k) := by
  intro b s w u hrb hs hrun
  obtain ⟨v, t, hxs, hkt⟩ := Eval.bind_eq_some_iff.1 hrun
  obtain ⟨hst, c, hbc, ht, hv⟩ := hx b s v t hrb hs hxs
  have hrest := hk c v (le_trans hrb hbc) hv
  obtain ⟨htu, d, hcd, hu, hw⟩ := hrest c t w u (le_refl c) ht hkt
  exact ⟨hst.trans htu, d, le_trans hbc hcd, hu, hw⟩

theorem andThen {x : Eval Value} {k : Value → Eval Value} (hx : L.Keeps r L.Fits x)
    (hk : ∀ b v, r ≤ b → L.Fits b v → L.Keeps b L.Fits (k v)) :
    L.Keeps r L.Fits (Machine.andThen x k) := by
  refine bind hx fun b v hrb hv => ?_
  split
  · exact pure_fits hv
  · exact hk b v hrb hv

/-- What is made of a new address is written down. -/
theorem fresh {k : Nat → Eval β} (made : Nat → Value)
    (hk : ∀ b addr, r ≤ b → L.Made b addr (made addr) → L.Keeps b Q' (k addr)) :
    L.Keeps r Q' (Eval.fresh >>= k) := by
  intro b s w u hrb hs hrun
  obtain ⟨addr, t, hfresh, hkt⟩ := Eval.bind_eq_some_iff.1 hrun
  cases hfresh
  obtain ⟨c, hbc, hcounts, hmade⟩ := L.fresh (made s.nextAddress) hs.counts
  have ht : L.Describes c { s with nextAddress := s.nextAddress + 1 } :=
    ⟨hs.registry, hcounts, (hs.stores.imp fun _ hv => hv.mono hbc).congr rfl id⟩
  have honward : s.Onward { s with nextAddress := s.nextAddress + 1 } :=
    ⟨⟨Nat.le_refl _, Nat.le_succ _, Nat.le_refl _⟩, rfl, rfl, rfl, id, [], rfl⟩
  have hrest := hk c s.nextAddress (le_trans hrb hbc) hmade
  obtain ⟨htu, d, hcd, hu, hw⟩ :=
    hrest c { s with nextAddress := s.nextAddress + 1 } w u (le_refl c) ht hkt
  exact ⟨honward.trans htu, d, le_trans hbc hcd, hu, hw⟩

/-- A value that is made at a new address. -/
theorem allocate {make : Nat → Value}
    (h : ∀ b addr, r ≤ b → L.Made b addr (make addr) → L.Fits b (make addr)) :
    L.Keeps r L.Fits (Machine.allocate make) :=
  fresh make fun b addr hrb hmade => pure_fits (h b addr hrb hmade)

theorem raise (e : EvalError) : L.Keeps r L.Fits (Machine.raise e) :=
  allocate fun _ _ _ hmade => fits_of_isNew hmade rfl (e.isNew_toValue _)

theorem newScope (outer : Option Nat) : L.Keeps r L.Knows (Eval.newScope outer) := by
  intro b s scope t _ hs hrun
  cases hrun
  obtain ⟨c, hbc, hcounts, hknows⟩ := L.newScope hs.counts
  have hextent : State.extent { s with scopes := s.scopes.add outer } =
      { s.extent with scopes := s.scopes.size + 1 } := by simp [State.extent]
  have hstores := (hs.stores.imp fun _ hv => hv.mono hbc).newScope outer
  exact ⟨⟨s.extent_le_newScope outer, rfl, rfl, rfl, id, [], rfl⟩, c, hbc,
    ⟨hs.registry, hextent ▸ hcounts, hstores⟩, hknows⟩

theorem setName {v : Value} (hv : L.Fits r v) (scope : Nat) (name : String) :
    L.Keeps r (fun _ _ => True) (Eval.setName scope name v) := by
  intro b s _ t hrb hs hrun
  cases hrun
  have hextent := s.extent_setName scope name v
  have hstores := hs.stores.setName (hv.mono hrb) scope name
  exact ⟨.of_extent_eq hextent rfl rfl rfl id rfl, b, le_refl b,
    ⟨hs.registry, hextent.symm ▸ hs.counts, hstores⟩, trivial⟩

theorem setNames {bindings : List (String × Value)} (scope : Nat) :
    ∀ {r : L.Record}, (∀ b ∈ bindings, L.Fits r b.2) →
      L.Keeps r (fun _ _ => True) (Machine.setNames scope bindings) := by
  induction bindings with
  | nil => exact fun _ => pure fun _ _ => trivial
  | cons entry rest ih =>
    obtain ⟨name, value⟩ := entry
    intro r h
    rw [List.forall_mem_cons] at h
    exact bind (setName h.1 scope name) fun b _ hrb _ => ih fun e he => (h.2 e he).mono hrb

theorem findName (scope : Nat) (name : String) :
    L.Keeps r (fun b found => ∀ v, found = some v → L.Fits b v)
      (Eval.findName scope name) := by
  intro b s found t _ hs hrun
  cases hrun
  exact ⟨.refl s, b, le_refl b, hs, fun _ hv => hs.stores.find? hv⟩

theorem printLines (lines : List String) :
    L.Keeps r (fun _ _ => True) (Eval.printLines lines) := by
  intro b s _ t _ hs hrun
  cases hrun
  exact ⟨⟨s.extent.le_refl, rfl, rfl, rfl, id, lines, rfl⟩, b, le_refl b,
    ⟨hs.registry, hs.counts, hs.stores.congr rfl id⟩, trivial⟩

/-- What leaves the state as it is, and gives nothing that has to be in order. -/
theorem ask {f : State → α} : L.Keeps r (fun _ _ => True) (fun s => some (f s, s)) := by
  intro b s _ t _ hs hrun
  cases hrun
  exact ⟨.refl s, b, le_refl b, hs, trivial⟩

/-- The body of a function runs with one call more. -/
theorem inCall {x : Eval Value} {k : Value → Eval β} (hx : L.Keeps r L.Fits x)
    (hk : ∀ b v, r ≤ b → L.Fits b v → L.Keeps b Q' (k v)) :
    L.Keeps r Q' (do Eval.enterCall; let v ← x; Eval.leaveCall; k v) := by
  intro b s w u hrb hs hrun
  obtain ⟨_, s', henter, hrun⟩ := Eval.bind_eq_some_iff.1 hrun
  cases henter
  obtain ⟨v, t, hxs, hrun⟩ := Eval.bind_eq_some_iff.1 hrun
  obtain ⟨_, t', hleave, hkt⟩ := Eval.bind_eq_some_iff.1 hrun
  cases hleave
  obtain ⟨hst, c, hbc, ht, hv⟩ := hx b _ v t hrb (hs.setCallDepth _) hxs
  -- the body has left as many calls as it entered, so that the count is back where it was
  have hmiddle : s.Onward { t with callDepth := t.callDepth - 1 } :=
    ⟨hst.extent_le, by rw [hst.callDepth_eq]; rfl, hst.maxCallDepth_eq,
      hst.spawnFailure_eq, hst.answer?, hst.output⟩
  obtain ⟨hend, d, hcd, hu, hw⟩ :=
    hk c v (le_trans hrb hbc) hv c _ w u (le_refl c) (ht.setCallDepth _) hkt
  exact ⟨hmiddle.trans hend, d, le_trans hbc hcd, hu, hw⟩

theorem onOwnCount {x : Eval α} (hx : L.Keeps r Q x) : L.Keeps r Q (Eval.onOwnCount x) := by
  intro b s a t hrb hs hrun
  obtain ⟨u, hbody, rfl⟩ := Eval.onOwnCount_eq_some_iff.1 hrun
  obtain ⟨hsu, c, hbc, hu, ha⟩ := hx b _ a u hrb (hs.setCallDepth 0) hbody
  exact ⟨⟨hsu.extent_le, rfl, hsu.maxCallDepth_eq, hsu.spawnFailure_eq, hsu.answer?, hsu.output⟩,
    c, hbc, hu.setCallDepth _, ha⟩

theorem registerTask : L.Keeps r (fun _ _ => True) Eval.registerTask := by
  intro b s _ t _ hs hrun
  cases hrun
  obtain ⟨c, hbc, hcounts⟩ := L.registerTask hs.counts
  have hanswer : ∀ {id v}, s.tasks.answer? id = some v →
      s.tasks.register.2.answer? id = some v := by
    intro id v h
    rwa [Tasks.answer?_register hs.registry]
  have hstores := (hs.stores.imp fun _ hv => hv.mono hbc).registerTask
  exact ⟨⟨s.extent_le_register, rfl, rfl, rfl, hanswer, [], rfl⟩, c, hbc,
    ⟨hs.registry.register, hcounts, hstores⟩, trivial⟩

/-- A step of the tasks that gives no number out and takes no answer back. -/
theorem changeTasks {f : State → Tasks} {a : State → α}
    (hnext : ∀ s, (f s).nextId = s.tasks.nextId)
    (hvalid : ∀ s, s.tasks.Valid → (f s).Valid)
    (hanswer : ∀ {s : State} {id : Nat} {v : Value}, s.tasks.answer? id = some v →
      (f s).answer? id = some v)
    (hstores : ∀ {b : L.Record} {s : State}, r ≤ b → s.Stores (L.Fits b) →
      State.Stores (L.Fits b) { s with tasks := f s }) :
    L.Keeps r (fun _ _ => True) (fun s => some (a s, { s with tasks := f s })) := by
  intro b s _ t hrb hs hrun
  cases hrun
  have hextent : State.extent { s with tasks := f s } = s.extent := by
    simp only [State.extent, hnext]
  exact ⟨.of_extent_eq hextent rfl rfl rfl hanswer rfl, b, le_refl b,
    ⟨hvalid s hs.registry, hextent.symm ▸ hs.counts, hstores hrb hs.stores⟩, trivial⟩

theorem finishTask (id : Nat) {result : Value} (hresult : L.Fits r result) :
    L.Keeps r (fun _ _ => True) (Eval.finishTask id result) :=
  changeTasks (fun s => s.tasks.nextId_finish id result) (fun _ h => h.finish id result)
    (fun h => Tasks.answer?_finish h id result)
    fun hrb hs => hs.finishTask id (hresult.mono hrb)

theorem closeTask (id : Nat) : L.Keeps r (fun _ _ => True) (Eval.closeTask id) :=
  changeTasks (fun s => s.tasks.nextId_close id) (fun _ h => h.close id)
    (fun h => Tasks.answer?_close h id) fun _ hs => hs.closeTask id

theorem joinTask (id : Nat) :
    L.Keeps r (fun b found => ∀ v, found = some v → L.Fits b v) (Eval.joinTask id) := by
  intro b s found t _ hs hrun
  obtain ⟨hreply, rfl⟩ := Eval.joinTask_eq_some_iff.1 hrun
  have hextent : State.extent { s with tasks := (s.tasks.join id).2 } = s.extent := by
    simp only [State.extent, Tasks.nextId_join]
  have hanswer : ∀ {other v}, s.tasks.answer? other = some v →
      (s.tasks.join id).2.answer? other = some v := by
    intro other v h
    rwa [Tasks.answer?_join]
  refine ⟨.of_extent_eq hextent rfl rfl rfl hanswer rfl, b, le_refl b,
    ⟨hs.registry.join id, hextent.symm ▸ hs.counts, hs.stores.joinTask fits_null id⟩,
    fun v hv => ?_⟩
  subst hv
  exact hs.stores.answer? fits_null (Tasks.join_eq_result_iff.1 hreply)

/-- The start of a task keeps to the ledger, if its body does. -/
theorem start {x : Eval Value} (hx : ∀ b, r ≤ b → L.Keeps b L.Fits x) :
    L.Keeps r L.Fits (Machine.start x) := by
  rw [start_eq]
  refine bind registerTask fun b id hrb _ => bind ask fun c refusal hbc _ => ?_
  cases refusal with
  | some reason => exact bind (closeTask id) fun _ _ _ _ => raise _
  | none =>
    refine bind (hx c (le_trans hrb hbc)).onOwnCount fun d v _ hv => ?_
    exact bind (finishTask id hv.unwrapReturn) fun _ _ _ _ =>
      pure_fits (fits_of_addr?_eq_none rfl rfl)

end Keeps

/-! ### Statements and lists of expressions -/

/-- What lists of expressions give: parts that `Q` holds for, or an abrupt value. -/
def PartsFit (L : Ledger) {α : Type} (Q : L.Record → α → Prop) (r : L.Record) :
    Except Value α → Prop
  | .ok parts => Q r parts
  | .error v => L.Fits r v

/-- Values of which each is in order. -/
def AllFit (L : Ledger) (r : L.Record) (vs : List Value) : Prop := ∀ v ∈ vs, L.Fits r v

/-- Entries of hashes with values that are in order. -/
def EntriesFit (L : Ledger) (r : L.Record) (es : Entries Value) : Prop := ∀ e ∈ es, L.Fits r e.2

theorem AllFit.mono {vs : List Value} (h : L.AllFit r vs) (hle : r ≤ r') : L.AllFit r' vs :=
  fun v hv => (h v hv).mono hle

theorem EntriesFit.mono {es : Entries Value} (h : L.EntriesFit r es) (hle : r ≤ r') :
    L.EntriesFit r' es :=
  fun e he => (h e he).mono hle

section

variable {eval : Expr → Nat → Eval Value} {scope : Nat}

theorem evalStmt_keeps (h : L.KeptBy eval) (hscope : L.Knows r scope) (st : Stmt) :
    L.Keeps r L.Fits (evalStmt eval st scope) := by
  cases st with
  | letBe name value =>
    refine .andThen (h r value scope hscope) fun b v _ hv => ?_
    exact .bind (.setName hv scope name) fun _ _ hbc _ => .pure_fits (hv.mono hbc)
  | ret value =>
    refine .andThen (h r value scope hscope) fun b v _ hv => ?_
    exact .allocate fun _ _ hbc hmade => fits_returned hmade (hv.mono hbc)
  | expr value => exact h r value scope hscope

theorem evalBodyFrom_keeps (h : L.KeptBy eval) (body : List Stmt) :
    ∀ {r : L.Record} {last : Value}, L.Knows r scope → L.Fits r last →
      L.Keeps r L.Fits (evalBodyFrom eval scope last body) := by
  induction body with
  | nil => exact fun _ hlast => .pure_fits hlast
  | cons st rest ih =>
    intro r last hscope _
    exact .andThen (evalStmt_keeps h hscope st) fun b v hrb hv => ih (L.knows_mono hrb hscope) hv

theorem evalBody_keeps (h : L.KeptBy eval) (hscope : L.Knows r scope) (body : Block) :
    L.Keeps r L.Fits (evalBody eval body scope) :=
  evalBodyFrom_keeps h body hscope fits_null

theorem evalProgram_keeps (h : L.KeptBy eval) (hscope : L.Knows r scope) (program : Program) :
    L.Keeps r L.Fits (evalProgram eval program scope) :=
  .bind (evalBody_keeps h hscope program) fun _ _ _ hv => .pure_fits hv.unwrapReturn

theorem evalArgs_keeps (h : L.KeptBy eval) (args : List Expr) : ∀ {r : L.Record},
    L.Knows r scope → L.Keeps r (L.PartsFit L.AllFit) (evalArgs eval scope args) := by
  induction args with
  | nil => exact fun _ => .pure fun _ _ => List.forall_mem_nil _
  | cons e rest ih =>
    intro r hscope
    refine .bind (h r e scope hscope) fun b v hrb hv => ?_
    split
    · exact .pure fun _ hbc => hv.mono hbc
    · refine .bind (ih (L.knows_mono hrb hscope)) fun c parts hbc hparts => ?_
      cases parts with
      | ok vs =>
        have hall : L.AllFit c (v :: vs) := List.forall_mem_cons.2 ⟨hv.mono hbc, hparts⟩
        exact .pure fun _ hcd => hall.mono hcd
      | error w => exact .pure fun _ hcd => Fits.mono hparts hcd

theorem evalPairs_keeps (h : L.KeptBy eval) (pairs : List (Expr × Expr)) :
    ∀ {r : L.Record} {entries : Entries Value}, L.Knows r scope → L.EntriesFit r entries →
      L.Keeps r (L.PartsFit L.EntriesFit) (evalPairs eval scope entries pairs) := by
  induction pairs with
  | nil => exact fun _ hentries => .pure fun _ hrb => hentries.mono hrb
  | cons pair rest ih =>
    obtain ⟨key, value⟩ := pair
    intro r entries hscope hentries
    refine .bind (h r key scope hscope) fun b k hrb hk => ?_
    have hscope' := L.knows_mono hrb hscope
    split
    · exact .pure fun _ hbc => hk.mono hbc
    · cases k.hashKey? with
      | none => exact .bind (.raise _) fun _ _ _ herr => .pure fun _ hcd => Fits.mono herr hcd
      | some hashKey =>
        refine .bind (h b value scope hscope') fun c v hbc hv => ?_
        split
        · exact .pure fun _ hcd => hv.mono hcd
        · have hentries' := hentries.mono (le_trans hrb hbc)
          exact ih (L.knows_mono hbc hscope') (Entries.insert_all hv hentries')

/-! ### Calls and tasks -/

theorem callClosure_keeps (h : L.KeptBy eval) (c : Closure) {args : List Value}
    (hargs : L.AllFit r args) : L.Keeps r L.Fits (callClosure eval c args) := by
  rw [callClosure_eq]
  refine .bind .ask fun b refusal hrb _ => ?_
  cases refusal with
  | some e => exact .raise e
  | none =>
    refine .bind (.newScope _) fun b' inner hbb' hinner => ?_
    -- each parameter is bound to one of the arguments
    have hbindings : ∀ e ∈ c.params.zip args, L.Fits b' e.2 :=
      fun e he => (hargs e.2 (List.of_mem_zip he).2).mono (le_trans hrb hbb')
    refine .bind (.setNames inner hbindings) fun d _ hd _ => ?_
    refine .inCall (evalBody_keeps h (L.knows_mono hd hinner) c.body) fun e v _ hv => ?_
    exact .pure_fits hv.unwrapReturn

theorem evalText_keeps (h : L.KeptBy eval) (argument : Value) :
    L.Keeps r L.Fits (evalText eval argument scope) := by
  unfold evalText
  split
  · split
    · exact .bind (.newScope _) fun _ _ _ hinner => evalProgram_keeps h hinner _
    · exact .raise _
  · exact .raise _

theorem launch_keeps (h : L.KeptBy eval) (argument : Value) :
    L.Keeps r L.Fits (launch eval argument scope) := by
  unfold launch
  split
  · refine .bind (.newScope _) fun b inner _ hinner => .start fun c hbc => ?_
    exact evalBody_keeps h (L.knows_mono hbc hinner) _
  · exact .raise _

theorem awaitTask_keeps (argument : Value) : L.Keeps r L.Fits (awaitTask argument) := by
  unfold awaitTask
  split
  · refine .bind (.joinTask _) fun b found _ hfound => ?_
    cases found with
    | some value => exact .pure_fits (hfound value rfl)
    | none => exact .raise _
  · exact .raise _

theorem callIntrinsic_keeps (h : L.KeptBy eval) (i : Intrinsic) (args : List Value) :
    L.Keeps r L.Fits (callIntrinsic eval i args scope) := by
  unfold callIntrinsic
  split
  · cases i with
    | eval => exact evalText_keeps h _
    | launch => exact launch_keeps h _
    | await => exact awaitTask_keeps _
  · exact .raise _

theorem callBuiltin_keeps (b : Builtin) {args : List Value} (hargs : L.AllFit r args) :
    L.Keeps r L.Fits (callBuiltin b args) :=
  .bind (.printLines _) fun _ _ hrb _ => .allocate fun _ _ hbc hmade =>
    b.apply_all_of_new (hargs.mono (le_trans hrb hbc)) (own_of_isNew hmade)

/-- **A call keeps to every ledger**, whatever is called. -/
theorem applyValue_keeps (h : L.KeptBy eval) (callee : Value) {args : List Value}
    (hargs : L.AllFit r args) : L.Keeps r L.Fits (applyValue eval callee args scope) := by
  rw [applyValue_eq]
  split
  · exact callClosure_keeps h _ hargs
  · exact callBuiltin_keeps _ hargs
  · exact callIntrinsic_keeps h _ args
  · exact .raise _

/-! ### Quoting -/

/-- The first error of a quote so far, if there is one, is in order. -/
def FailureFits (L : Ledger) (r : L.Record) (failure : Option Value) : Prop :=
  ∀ v, failure = some v → L.Fits r v

theorem FailureFits.mono {failure : Option Value} (h : L.FailureFits r failure) (hle : r ≤ r') :
    L.FailureFits r' failure :=
  fun v hv => (h v hv).mono hle

theorem failureFits_none : L.FailureFits r none := fun _ hv => nomatch hv

/-- Effects of rewriting that keep to a ledger, from `r` on. -/
def quoting (L : Ledger) (r : L.Record) :
    EffectRelation (StateT (Option Value) Eval) (StateT (Option Value) Eval) where
  Related {α} x _ := ∀ b failure, r ≤ b → L.FailureFits b failure →
    L.Keeps b (fun c (p : α × Option Value) => L.FailureFits c p.2) (x.run failure)
  pure _ _ _ _ hfailure := .pure fun _ hbc => hfailure.mono hbc
  bind hx hk b failure hrb hfailure := by
    rw [StateT.run_bind]
    refine .bind (hx b failure hrb hfailure) fun c p hbc hp => ?_
    exact hk p.1 c p.2 (le_trans hrb hbc) hp

theorem unquoteVisit_keeps (h : L.KeptBy eval) (hscope : L.Knows r scope) (e : Expr) :
    (L.quoting r).Related (unquoteVisit eval scope e) (unquoteVisit eval scope e) := by
  intro b failure hrb hfailure
  cases failure with
  | some err =>
    rw [run_unquoteVisit_some]
    exact .pure fun _ hbc => hfailure.mono hbc
  | none =>
    rw [run_unquoteVisit_none]
    split
    · exact .pure fun _ _ => failureFits_none
    · refine .bind (h b _ scope (L.knows_mono hrb hscope)) fun c v _ hv => ?_
      split
      · refine .pure fun d hcd w hw => ?_
        cases hw
        exact hv.unwrapReturn.mono hcd
      · exact .pure fun _ _ => failureFits_none

theorem quoteArgs_keeps (h : L.KeptBy eval) (hscope : L.Knows r scope) (args : List Expr) :
    L.Keeps r L.Fits (quoteArgs eval args scope) := by
  cases args with
  | nil => exact .raise _
  | cons e rest =>
    have hvisit : ∀ e, (L.quoting r).Related (unquoteVisit eval scope e)
        (unquoteVisit eval scope e) := unquoteVisit_keeps h hscope
    have hquoted :=
      Expr.rewriteM_related (L.quoting r) hvisit e r none (le_refl r) failureFits_none
    refine .bind hquoted fun b p _ hp => ?_
    obtain ⟨node, failure⟩ := p
    cases failure with
    | some err => exact .pure_fits (hp err rfl)
    | none => exact .allocate fun _ _ _ hmade => fits_of_isNew hmade rfl (Value.isNew_quote _ _)

/-! ### Expressions and programs -/

theorem evalName_keeps (name : String) : L.Keeps r L.Fits (evalName name scope) := by
  unfold evalName
  split
  · exact .pure_fits (fits_of_addr?_eq_none rfl rfl)
  · refine .bind (.findName scope name) fun b found _ hfound => ?_
    split
    · next value => exact .pure_fits (hfound value rfl)
    · split
      · exact .pure_fits (fits_of_addr?_eq_none rfl rfl)
      · exact .raise _

theorem evalBranch_keeps (h : L.KeptBy eval) (hscope : L.Knows r scope) (branch : Option Block) :
    L.Keeps r L.Fits (evalBranch eval branch scope) := by
  cases branch with
  | none => exact .pure_fits fits_null
  | some body => exact evalBody_keeps h hscope body

/-- One level of evaluation keeps to a ledger, if the evaluation of the parts does. -/
theorem evalStep_keeps (h : L.KeptBy eval) : L.KeptBy (evalStep eval) := by
  intro r e scope hscope
  -- what is known stays known in later records
  have hlater : ∀ {b : L.Record}, r ≤ b → L.Knows b scope := fun hrb => L.knows_mono hrb hscope
  cases e with
  | ident name => exact evalName_keeps name
  | int value => exact .pure_fits (fits_of_addr?_eq_none rfl rfl)
  | bool value => exact .pure_fits (fits_of_addr?_eq_none rfl rfl)
  | str text =>
    exact .allocate fun _ _ _ hmade => fits_of_isNew hmade rfl (Value.isNew_string _ _)
  -- what an operator gives has no parts, and a new address at most
  | unary op right =>
    refine .andThen (h r right scope hscope) fun b v _ _ => ?_
    exact .allocate fun _ addr _ hmade => fits_of_isScalar hmade (op.isScalar_apply v addr)
      (op.isNew_apply v addr)
  | binary op left right =>
    refine .andThen (h r left scope hscope) fun b v hrb _ => ?_
    refine .andThen (h b right scope (hlater hrb)) fun c w _ _ => ?_
    exact .allocate fun _ addr _ hmade => fits_of_isScalar hmade (op.isScalar_apply v w addr)
      (op.isNew_apply v w addr)
  | cond condition consequence alternative =>
    refine .andThen (h r condition scope hscope) fun b v hrb _ => ?_
    exact evalBranch_keeps h (hlater hrb) _
  -- a closure knows the scope that it was made in
  | fn params body =>
    exact .allocate fun b addr hrb hmade => fits_closure hmade rfl rfl rfl (hlater hrb)
  | macroFn params body =>
    exact .allocate fun b addr hrb hmade => fits_closure hmade rfl rfl rfl (hlater hrb)
  | call callee args =>
    simp only [evalStep]
    split
    · exact quoteArgs_keeps h hscope args
    · refine .andThen (h r callee scope hscope) fun b f hrb _ => ?_
      refine .bind (evalArgs_keeps h args (hlater hrb)) fun c parts _ hparts => ?_
      cases parts with
      | ok vs => exact applyValue_keeps h f hparts
      | error v => exact .pure_fits hparts
  | array elements =>
    refine .bind (evalArgs_keeps h elements hscope) fun b parts _ hparts => ?_
    cases parts with
    | ok vs =>
      exact .allocate fun c addr hbc hmade => fits_array hmade (AllFit.mono hparts hbc)
    | error v => exact .pure_fits hparts
  | index base position =>
    refine .andThen (h r base scope hscope) fun b v hrb hv => ?_
    refine .andThen (h b position scope (hlater hrb)) fun c w hbc _ => ?_
    exact .allocate fun d addr hcd hmade =>
      Value.at_all_of_new (hv.mono (le_trans hbc hcd)) w (own_of_isNew hmade)
  | hash pairs =>
    refine .bind (evalPairs_keeps h pairs hscope (List.forall_mem_nil _)) fun b parts _ hparts => ?_
    cases parts with
    | ok entries =>
      exact .allocate fun c addr hbc hmade => fits_hash hmade (EntriesFit.mono hparts hbc)
    | error v => exact .pure_fits hparts

end

/-- **Evaluation keeps to every ledger.** -/
theorem evaluate_keeps (L : Ledger) (budget : Nat) : L.KeptBy (evaluate budget) := by
  induction budget with
  | zero => exact fun _ _ _ _ => .stuck
  | succ n ih => exact evalStep_keeps ih

/-- **So do programs**, from every state that is in order. -/
theorem Describes.runProgram {s t : State} (hs : L.Describes r s) {scope : Nat}
    (hscope : L.Knows r scope) {budget : Nat} {program : Program} {v : Value}
    (hrun : Monkey.runProgram budget program scope s = some (v, t)) :
    s.Onward t ∧ ∃ r', r ≤ r' ∧ L.Describes r' t ∧ L.Fits r' v :=
  evalProgram_keeps (L.evaluate_keeps budget) hscope program r s v t (le_refl r) hs hrun

end Ledger

end Monkey
