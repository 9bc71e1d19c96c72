import Monkey.Proofs.Handles
import Monkey.Proofs.SharedRegistry
import Monkey.Session

/-!
# Hosts

A host runs programs one after another on one registry of tasks.  Between them it may define and
expand macros, create scopes, and change over to another interpreter with a limit and an output of
its own.  The tasks that were started go on meanwhile, and their threads and that of the host take
turns as they like.  No handle that turns up in all this dangles, if there was none at the
beginning.

## Main definitions

* `Job`, `HostEvent`, `Host.Step` — what a host does, and what goes on in it.
* `Host.Runs` — the run of a host.
* `Pool.Safe` — points of a run where all handles are those of tasks.

## Main results

* `Host.Runs.upkeep` — the threads of a host deal with known handles only.
* `handles_never_dangle` — **no handle ever dangles.**
-/

namespace Monkey

/-! ### The run of a host -/

/-- What a host has its own thread do. -/
inductive Job
  /-- To run a program. -/
  | run (budget : Nat) (program : Program) (scope : Nat)
  /-- To define the macros of a program and to expand the calls of macros in the rest. -/
  | expand (budget macros : Nat) (program : Program)

/-- What the thread of the host has to do then. -/
def Job.code : Job → Code Unit
  | .run budget program scope => do
    let _ ← runProgramOn Code budget program scope
    return ()
  | .expand budget macros program => do
    let rest ← defineMacros macros program
    let _ ← expandMacros (evaluateOn Code budget) macros rest
    return ()

/-- What happens in a host. -/
inductive HostEvent : Type 1
  | moved (m : Option Nat × Label)
  | began (job : Job)
  | switched (limit : Nat) (output : Output)
  | enclosed (outer : Option Nat)

/-- One step of what goes on in a host.  A thread moves; or, when the thread of the host is done,
the host gives it another job or creates a scope.  The threads of several interpreters may take
turns, so that the limit and the output may change before any move. -/
inductive Host.Step : Pool Unit → HostEvent → Pool Unit → Prop
  | move {p q : Pool Unit} {m : Option Nat × Label} : Pool.Step p m q → Step p (.moved m) q
  | begin (s : State) (depth : Nat) (ts : List (Thread Unit)) (job : Job) (depth' : Nat) :
    Step ⟨s, ⟨.pure (), depth⟩, ts⟩ (.began job) ⟨s, ⟨job.code, depth'⟩, ts⟩
  | switch (p : Pool Unit) (limit : Nat) (output : Output) :
    Step p (.switched limit output)
      { p with state := { p.state with maxCallDepth := limit, output := output } }
  | enclose (s : State) (depth : Nat) (ts : List (Thread Unit)) (outer : Option Nat) :
    Step ⟨s, ⟨.pure (), depth⟩, ts⟩ (.enclosed outer)
      ⟨{ s with scopes := s.scopes.add outer }, ⟨.pure (), depth⟩, ts⟩

/-- What goes on in a host, step by step. -/
inductive Host.Runs : Pool Unit → List HostEvent → Pool Unit → Prop
  | refl {p : Pool Unit} : Runs p [] p
  | step {p q r : Pool Unit} {e : HostEvent} {es : List HostEvent} :
    Step p e q → Runs q es r → Runs p (e :: es) r

/-- The number of the task that the event registers, if it registers one. -/
def HostEvent.issued? : HostEvent → Option Nat
  | .moved m => m.2.issued?
  | _ => none

/-! ### Values that turn up -/

/-- The values that are noted. -/
def Note.values : Note → List Value
  | .gave v | .resulted v => [v]
  | .operands vs => vs
  | .applied callee args => callee :: args
  | .raised _ => []

/-- The values that an action deals with. -/
def Action.values : {β : Type} → Action β → List Value
  | _, .note n => n.values
  | _, .setName _ _ v | _, .send _ v => [v]
  | _, .permit _ args => args
  | _, _ => []

/-- The task that an action asks for the result of. -/
def Action.asked? : {β : Type} → Action β → Option Nat
  | _, .join id => some id
  | _, _ => none

/-- The values that turn up in a move. -/
def Label.values : Label → List Value
  | .acted _ a _ => a.values
  | _ => []

/-- The values that turn up in an event. -/
def HostEvent.values : HostEvent → List Value
  | .moved m => m.2.values
  | _ => []

section

variable {n : Nat}

theorem AllMatch.handlesIn {vs : List Value} (h : AllMatch (knownTasks.matching n) vs vs) :
    ∀ v ∈ vs, v.HandlesIn (· < n) :=
  fun v hv => handlesIn_iff_matches.2 (List.forall₂_same.1 h v hv)

/-- Who keeps to the discipline of known handles asks for the results of known tasks only. -/
theorem Action.Alike.asked_lt {β : Type} {a : Action β} (h : a.Alike knownTasks n a) {id : Nat}
    (hid : a.asked? = some id) : id < n := by
  cases h with
  | join hij =>
    cases hid
    exact hij.2
  | _ => cases hid

/-- Who keeps to the discipline of known handles deals with values that have no others. -/
theorem Label.Obeys.handlesIn {l : Label} (h : l.Obeys knownTasks.rules n) :
    ∀ v ∈ l.values, v.HandlesIn (· < n) := by
  have hone {v : Value} (hv : Value.Matches (knownTasks.matching n) v v) :
      ∀ w ∈ [v], w.HandlesIn (· < n) :=
    List.forall_mem_singleton.2 (handlesIn_iff_matches.2 hv)
  cases l with
  | started | refused => exact List.forall_mem_nil _
  | acted bodies a b =>
    -- whatever is handed over stands for itself, so that its handles are known
    cases (h : a.Alike knownTasks n a) with
    | setName name _ hv => exact hone hv
    | send _ hv => exact hone hv
    | permit _ hvs => exact AllMatch.handlesIn hvs
    | note hnote =>
      cases hnote with
      | gave hv => exact hone hv
      | resulted hv => exact hone hv
      | operands hvs => exact AllMatch.handlesIn hvs
      | applied hf hvs =>
        exact List.forall_mem_cons.2 ⟨handlesIn_iff_matches.2 hf, AllMatch.handlesIn hvs⟩
      | raised => exact List.forall_mem_nil _
    | stuck | fresh | newScope | look | print | enterCall | leaveCall | register | close | join =>
      exact List.forall_mem_nil _

end

/-! ### What a host keeps up -/

/-- Every job deals with known handles only. -/
theorem Job.abide (job : Job) (n : Nat) :
    job.code.Abide knownTasks.rules n anyResults job.code := by
  have hend : ∀ {n : Nat}, (Code.pure ()).Abide knownTasks.rules n anyResults (.pure ()) :=
    .pure trivial
  cases job with
  | run budget program scope =>
    exact (knownTasks.runProgramOn _ program rfl).bind fun _ _ _ _ _ => hend
  | expand budget macros program =>
    refine .bind (P := fun _ => Eq) ?_ fun w rest rest' _ hrest => ?_
    · refine (knownTasks.bindMacros (macroDefinitions program) rfl).bind fun _ _ _ _ _ => ?_
      exact .pure rfl
    · subst hrest
      refine (knownTasks.expandMacros _ (fun _ => trivial) rest rfl).bind ?_
      exact fun _ _ _ _ _ => hend

/-- What has become of a host, after what happened in it. -/
structure Pool.Upkeep (es : List HostEvent) (n : Nat) (p : Pool Unit) : Prop where
  abides : p.Abides handling n anyResults
  values : ∀ e ∈ es, ∀ v ∈ e.values, v.HandlesIn (· < n)
  found : ∀ i bodies id, .moved (i, .acted bodies (.join id) none) ∉ es

/-- Only where there is no such task somebody is told so. -/
theorem Pool.Step.get?_eq_none {α : Type} {p q : Pool α} {i : Option Nat} {bodies : List Closure}
    {id : Nat} (h : p.Step (i, .acted bodies (.join id) none) q) :
    p.state.tasks.get? id = none := by
  have hjoin {s t : State} (hrun : (Action.join id).run s = some (none, t)) :
      s.tasks.get? id = none :=
    Tasks.join_eq_unknown_iff.1 (Eval.joinTask_eq_some_iff.1 hrun).1
  cases h with
  | main hstep | task _ hstep =>
    cases hstep with
    | act hrun => exact (hjoin hrun :)

namespace Host

variable {p q : Pool Unit} {e : HostEvent} {es before : List HostEvent} {n : Nat}

/-- **Whatever happens in a host, its threads deal with known handles only.** -/
theorem Step.upkeep (h : Step p e q) (hp : p.Upkeep before n) :
    ∃ n', n ≤ n' ∧ q.Upkeep (before ++ [e]) n' := by
  obtain ⟨habides, hvalues, hfound⟩ := hp
  have hknows : p.state.Knows n := habides.holds
  -- what happened before is as good as it was
  have hevents {n' : Nat} (hle : n ≤ n') (he : ∀ v ∈ e.values, v.HandlesIn (· < n')) :
      ∀ f ∈ before ++ [e], ∀ v ∈ f.values, v.HandlesIn (· < n') := by
    intro f hf v hv
    rcases List.mem_append.1 hf with hf | hf
    · exact (hvalues f hf v hv).mono fun _ hid => Nat.lt_of_lt_of_le hid hle
    · rw [List.mem_singleton.1 hf] at hv
      exact he v hv
  have hjoins (he : ∀ i bodies id, e ≠ .moved (i, .acted bodies (.join id) none)) :
      ∀ i bodies id, .moved (i, .acted bodies (.join id) none) ∉ before ++ [e] := by
    intro i bodies id hmem
    rcases List.mem_append.1 hmem with hmem | hmem
    · exact hfound i bodies id hmem
    · exact he i bodies id (List.mem_singleton.1 hmem).symm
  cases h with
  | @move p q m hstep =>
    obtain ⟨hobeys, n', hle, hq⟩ := hstep.abides lasting_anyResults habides
    refine ⟨n', hle, hq, hevents hle fun v hv => ?_, hjoins ?_⟩
    · exact (hobeys.handlesIn v hv).mono fun _ hid => Nat.lt_of_lt_of_le hid hle
    · rintro i bodies id heq
      cases heq
      -- whose number is known is there
      have hlt : id < n := Action.Alike.asked_lt hobeys rfl
      have hsome := (hknows.registry.isSome_get?_iff id).2 (hknows.nextId_eq ▸ hlt)
      rw [hstep.get?_eq_none] at hsome
      cases hsome
  | begin s depth ts job depth' =>
    refine ⟨n, Nat.le_refl n, ⟨hknows, job.abide n, habides.tasks⟩, ?_, hjoins nofun⟩
    exact hevents (Nat.le_refl n) (List.forall_mem_nil _)
  | switch p limit output =>
    refine ⟨n, Nat.le_refl n, ⟨?_, habides.main, habides.tasks⟩, ?_, hjoins nofun⟩
    · exact ⟨hknows.registry, hknows.nextId_eq, hknows.handles.bound, hknows.handles.result⟩
    · exact hevents (Nat.le_refl n) (List.forall_mem_nil _)
  | enclose s depth ts outer =>
    refine ⟨n, Nat.le_refl n, ⟨?_, habides.main, habides.tasks⟩, ?_, hjoins nofun⟩
    · exact ⟨hknows.registry, hknows.nextId_eq, hknows.handles.newScope outer⟩
    · exact hevents (Nat.le_refl n) (List.forall_mem_nil _)

/-- So it is in every run. -/
theorem Runs.upkeep (h : Runs p es q) (hp : p.Upkeep before n) :
    ∃ n', n ≤ n' ∧ q.Upkeep (before ++ es) n' := by
  induction h generalizing before n with
  | refl => exact ⟨n, Nat.le_refl n, by rwa [List.append_nil]⟩
  | step hstep _ ih =>
    obtain ⟨n₁, hle₁, hq⟩ := hstep.upkeep hp
    obtain ⟨n₂, hle₂, hr⟩ := ih hq
    rw [List.append_assoc] at hr
    exact ⟨n₂, Nat.le_trans hle₁ hle₂, hr⟩

theorem Step.leads (h : Step p e q) : ∃ answered,
    p.state.tasks.Leads e.issued?.toList answered q.state.tasks := by
  cases h with
  | move hmove => exact ⟨_, hmove.leads⟩
  | begin | switch | enclose => exact ⟨[], .refl _⟩

/-- What goes on in a host, threads that share the registry can do to it. -/
theorem Runs.leads (h : Runs p es q) : ∃ answered,
    p.state.tasks.Leads (es.filterMap HostEvent.issued?) answered q.state.tasks := by
  induction h with
  | refl => exact ⟨[], .refl _⟩
  | @step _ _ _ e es hstep _ ih =>
    obtain ⟨answered, hrest⟩ := ih
    obtain ⟨answered', hfirst⟩ := hstep.leads
    refine ⟨answered' ++ answered, ?_⟩
    cases hid : e.issued? with
    | none =>
      rw [hid] at hfirst
      rw [List.filterMap_cons_none hid]
      exact hfirst.trans hrest
    | some id =>
      rw [hid] at hfirst
      rw [List.filterMap_cons_some hid]
      exact hfirst.trans hrest

theorem Runs.trans {r : Pool Unit} {more : List HostEvent} (h : Runs p es q)
    (h' : Runs q more r) : Runs p (es ++ more) r := by
  induction h with
  | refl => exact h'
  | step hstep _ ih => exact .step hstep (ih h')

/-- The moves of a pool are what may happen in a host. -/
theorem runs_of_moves {ms : List (Option Nat × Label)} (h : Pool.Runs p ms q) :
    Runs p (ms.map .moved) q := by
  induction h with
  | refl => exact .refl
  | step hstep _ ih => exact .step (.move hstep) ih

/-- A host that is idle can run a program on the spot. -/
theorem runs_of_run {budget scope : Nat} {program : Program} {s t : State} {v : Value}
    (h : runProgram budget program scope s = some (v, t)) (depth idle : Nat)
    (ts : List (Thread Unit)) : ∃ es new,
      Runs ⟨{ s with callDepth := idle }, ⟨.pure (), depth⟩, ts⟩ es
        ⟨{ t with callDepth := idle }, ⟨.pure (), t.callDepth⟩, ts ++ new⟩ := by
  have hcode : (Job.run budget program scope).code.run s = some ((), t) := by
    change Code.run (runProgramOn Code budget program scope >>= fun _ => .pure ()) s = _
    rw [Code.run_bind, Code.run_runProgramOn]
    exact Eval.bind_eq_some_iff.2 ⟨v, t, h, rfl⟩
  obtain ⟨ms, new, hruns⟩ := Pool.runs_of_run hcode ts idle
  exact ⟨_, new, .step (.begin _ depth ts (.run budget program scope) s.callDepth)
    (runs_of_moves hruns)⟩

end Host

/-! ### What a thread does -/

/-- What a thread that has code to do does in some moves, and what it has to do then.  Other threads
may move in between, so that it need not find the state as it has left it. -/
inductive Code.Does {α : Type} : Code α → List Label → Code α → Prop
  | refl (x : Code α) : Does x [] x
  | step {s t : State} {x y z : Code α} {depth depth' : Nat} {l : Label} {ls : List Label}
    {new : List (Thread Unit)} : Thread.Step s ⟨x, depth⟩ l t ⟨y, depth'⟩ new → Does y ls z →
    Does x (l :: ls) z

namespace Code.Does

variable {α β : Type} {ls : List Label} {v : α} {bodies : List Closure}

theorem of_pure {a : α} (h : (Code.pure a).Does ls (.pure v)) : ls = [] ∧ v = a := by
  cases h with
  | refl => exact ⟨rfl, rfl⟩
  | step hstep => cases hstep

theorem of_act {a : Action β} {k : β → Code α} (h : (Code.act bodies a k).Does ls (.pure v)) :
    ∃ b rest, ls = .acted bodies a b :: rest ∧ (k b).Does rest (.pure v) := by
  cases h with
  | step hstep hrest =>
    generalize hth : Thread.mk (Code.act bodies a k) _ = th at hstep
    cases hstep <;> cases hth
    exact ⟨_, _, rfl, hrest⟩

theorem of_spawn {id : Nat} {task : Code Value} {k : Option String → Code α}
    (h : (Code.spawn bodies id task k).Does ls (.pure v)) :
    (∃ rest, ls = .started bodies id :: rest ∧ (k none).Does rest (.pure v)) ∨
      ∃ reason rest, ls = .refused bodies id reason :: rest ∧
        (k (some reason)).Does rest (.pure v) := by
  cases h with
  | step hstep hrest =>
    cases hstep with
    | start => exact .inl ⟨_, rfl, hrest⟩
    | refuse _ _ _ _ _ reason => exact .inr ⟨reason, _, rfl, hrest⟩

end Code.Does

/-- A launch registers one task.  It gives the handle with the number of this task if the host
starts it, and else an error. -/
theorem launch_does {eval : Expr → Nat → Code Value} {addr scope : Nat} {c : Closure}
    {ls : List Label} {v : Value}
    (h : (launch eval (.function addr c) scope).Does ls (.pure v)) :
    ∃ id, ls.filterMap Label.issued? = [id] ∧
      (.started [] id ∈ ls ∧ v = .task id ∨
        ∃ reason fresh, .refused [] id reason ∈ ls ∧
          v = (EvalError.launchFailed reason).toValue fresh) := by
  obtain ⟨inner, _, rfl, hrest⟩ := Code.Does.of_act h
  obtain ⟨id, _, rfl, hspawn⟩ := Code.Does.of_act hrest
  refine ⟨id, ?_⟩
  rcases Code.Does.of_spawn hspawn with ⟨_, rfl, hend⟩ | ⟨reason, _, rfl, hraise⟩
  · obtain ⟨rfl, rfl⟩ := Code.Does.of_pure hend
    exact ⟨rfl, .inl ⟨by simp, rfl⟩⟩
  · -- the error is noted, and made at a new address
    obtain ⟨_, _, rfl, hfresh⟩ := Code.Does.of_act hraise
    obtain ⟨fresh, _, rfl, hend⟩ := Code.Does.of_act hfresh
    obtain ⟨rfl, rfl⟩ := Code.Does.of_pure hend
    exact ⟨rfl, .inr ⟨reason, fresh, by simp, rfl⟩⟩

/-- Whoever awaits a task gives its result, or was told that there is no such task. -/
theorem awaitTask_does {id : Nat} {ls : List Label} {v : Value}
    (h : (awaitTask (m := Code) (.task id)).Does ls (.pure v)) :
    .acted [] (.join id) (some v) ∈ ls ∨ .acted [] (.join id) none ∈ ls := by
  obtain ⟨found, _, rfl, hend⟩ := Code.Does.of_act h
  cases found with
  | none => exact .inr List.mem_cons_self
  | some value =>
    obtain ⟨rfl, rfl⟩ := Code.Does.of_pure hend
    exact .inl List.mem_cons_self

/-! ### No handle dangles -/

/-- After these events in a host, which had no tasks at first, all handles that can be come by are
those of tasks. -/
structure Pool.Safe (es : List HostEvent) (p : Pool Unit) : Prop where
  /-- Tasks were registered under the numbers below the next number, in this order. -/
  issued_eq : es.filterMap HostEvent.issued? = List.range p.state.tasks.nextId
  /-- These are the numbers that have an entry, -/
  isSome_slot?_iff : ∀ id, (p.state.tasks.slot? id).isSome ↔ id < p.state.tasks.nextId
  /-- there are as many entries, -/
  size_eq : p.state.tasks.size = p.state.tasks.nextId
  /-- and each of them is found when it is looked up. -/
  isSome_get?_iff : ∀ id, (p.state.tasks.get? id).isSome ↔ id < p.state.tasks.nextId
  /-- The handles in scopes and in the results of tasks are those of registered tasks. -/
  registered : p.state.Registered
  /-- So are the handles in the values that turned up. -/
  values : ∀ e ∈ es, ∀ v ∈ e.values, v.HandlesIn (· < p.state.tasks.nextId)
  /-- Nobody who awaited a task was told that there is no such task. -/
  found : ∀ i bodies id, .moved (i, .acted bodies (.join id) none) ∉ es

/-- **No handle ever dangles** in the run of a host, from a state on without tasks and handles, in
whatever turns its threads move.  Each task is registered under the number of those that were
registered before it, so that no two handles are the same.  What is looked up with success once is
so ever after.  And whatever thread launches a function registers one task, whose handle it gives if
the host starts the task, while awaiting a handle gives the result of its task. -/
theorem handles_never_dangle {s : State} (hempty : s.tasks = .empty)
    (hfree : ∀ scope name v id, (name, v) ∈ s.scopes.bindings scope → ¬ v.Holds (.task id))
    {es : List HostEvent} {p : Pool Unit} (hrun : Host.Runs (.alone s (.pure ())) es p) :
    p.Safe es ∧
    (∀ before e after id, es = before ++ e :: after → e.issued? = some id →
      id = (before.filterMap HostEvent.issued?).length) ∧
    (es.filterMap HostEvent.issued?).Nodup ∧
    (∀ more q, Host.Runs p more q → ∀ id,
      (p.state.tasks.get? id).isSome → (q.state.tasks.get? id).isSome) ∧
    (∀ (eval : Expr → Nat → Code Value) addr c scope (ls : List Label) v,
      (launch eval (.function addr c) scope).Does ls (.pure v) →
      ∃ id, ls.filterMap Label.issued? = [id] ∧
        (.started [] id ∈ ls ∧ v = .task id ∨
          ∃ reason fresh, .refused [] id reason ∈ ls ∧
            v = (EvalError.launchFailed reason).toValue fresh)) ∧
    (∀ id (ls : List Label) v, (awaitTask (m := Code) (.task id)).Does ls (.pure v) →
      .acted [] (.join id) (some v) ∈ ls ∨ .acted [] (.join id) none ∈ ls) := by
  have hvalid : s.tasks.Valid := hempty ▸ Tasks.valid_empty
  have hnext : s.tasks.nextId = 0 := by
    rw [hempty]
    rfl
  have hknows := (State.registered_of_empty hempty hfree).knows hvalid
  have hstart : (Pool.alone s (.pure ())).Upkeep [] s.tasks.nextId :=
    ⟨⟨hknows, .pure trivial, List.forall_mem_nil _⟩, List.forall_mem_nil _,
      fun _ _ _ => List.not_mem_nil⟩
  obtain ⟨n, -, habides, hvalues, hfound⟩ := hrun.upkeep hstart
  obtain ⟨answered, hleads⟩ := hrun.leads
  have hp : p.state.Knows n := habides.holds
  obtain rfl := hp.nextId_eq
  have hissued : es.filterMap HostEvent.issued? = List.range p.state.tasks.nextId := by
    obtain ⟨hrange, hcount⟩ := hleads.issued_eq
    rw [hrange, hcount]
    change List.range' s.tasks.nextId _ = List.range (s.tasks.nextId + _)
    rw [hnext, Nat.zero_add, List.range_eq_range']
  refine ⟨⟨hissued, hp.registry.isSome_slot?_iff, hp.registry.size_eq,
    hp.registry.isSome_get?_iff, hp.handles, hvalues, hfound⟩, ?_, ?_, ?_,
    fun _ _ _ _ _ _ => launch_does, fun _ _ _ => awaitTask_does⟩
  · rintro before e after id rfl hid
    -- the numbers that were given out stand at their own places
    have hget : (List.range p.state.tasks.nextId)[(before.filterMap HostEvent.issued?).length]? =
        some id := by
      rw [← hissued, List.filterMap_append, List.filterMap_cons_some hid,
        List.getElem?_append_right (Nat.le_refl _), Nat.sub_self, List.getElem?_cons_zero]
    obtain ⟨_, rfl⟩ := List.getElem?_eq_some_iff.1 hget
    exact List.getElem_range _
  · rw [hissued]
    exact List.nodup_range
  · intro more q hmore id hid
    obtain ⟨answered', hleads'⟩ := hmore.leads
    rw [hp.registry.isSome_get?_iff] at hid
    rw [(hleads'.valid hp.registry).isSome_get?_iff, hleads'.issued_eq.2]
    exact Nat.lt_add_right _ hid

/-- The program `let t = launch(fn() { [launch(fn() { 1 })] });`, whose task has the handle of
another one for a result. -/
def nestedLaunchProgram : Program :=
  [.letBe "t" (.call (.ident "launch")
    [.fn [] [.expr (.array [.call (.ident "launch") [.fn [] [.expr (.int 1)]]])]])]

/-- The program `await(await(t)[0]);`. -/
def nestedAwaitProgram : Program :=
  [.expr (.call (.ident "await")
    [.index (.call (.ident "await") [.ident "t"]) (.int 0)])]

/-- The handle of a task that a task launched gets through its result to a program that runs later,
in another interpreter and another scope, and is good there. -/
theorem handles_never_dangle_nested : ∃ es p,
    Host.Runs (.alone (Session.start 9 .empty).state (.pure ())) es p ∧ p.Safe es ∧
      es.filterMap HostEvent.issued? = [0, 1] ∧
      p.state.tasks.describeTask 1 =
        some "TaskHandle \x7b id: ThreadId(1), joined: Some(true) \x7d" := by
  have hfree : ∀ scope name v id,
      (name, v) ∈ (Session.start 9 .empty).state.scopes.bindings scope → ¬ v.Holds (.task id) := by
    intro scope name v id hmem
    have hnone := Scopes.mem_bindings_of_add (Scopes.mem_bindings_of_add hmem)
    cases hnone
  let s := (Session.start 9 .empty).state
  -- between the programs the host sets another limit and creates a scope
  let between (t : State) : State :=
    { t with maxCallDepth := 2, output := .empty, scopes := t.scopes.add (some 0) }
  have hends : ((runProgram 9 nestedLaunchProgram 0 s).bind fun r =>
      runProgram 9 nestedAwaitProgram 4 (between r.2)).map (fun r =>
        (r.2.tasks.nextId, r.2.tasks.describeTask 1)) =
      some (2, some "TaskHandle \x7b id: ThreadId(1), joined: Some(true) \x7d") := by
    decide +kernel
  obtain ⟨⟨v, u⟩, hboth, hu⟩ := Option.map_eq_some_iff.1 hends
  obtain ⟨⟨w, t⟩, hlaunch, hawait⟩ := Option.bind_eq_some_iff.1 hboth
  obtain ⟨hnext, hjoined⟩ := Prod.mk.inj hu
  obtain ⟨es, ts, hfirst⟩ := Host.runs_of_run hlaunch 0 s.callDepth []
  obtain ⟨es', ts', hsecond⟩ := Host.runs_of_run hawait t.callDepth s.callDepth ([] ++ ts)
  -- each program run on the spot is a run of the host
  have hrun := hfirst.trans (.step (.switch _ 2 .empty) (.step (.enclose _ _ _ (some 0)) hsecond))
  obtain ⟨hsafe, -⟩ := handles_never_dangle rfl hfree hrun
  refine ⟨_, _, hrun, hsafe, ?_, hjoined⟩
  rw [hsafe.issued_eq]
  exact congrArg List.range hnext

end Monkey
