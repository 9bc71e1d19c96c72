import Monkey.Proofs.Footing
import Monkey.Session

/-!
# Reserved names

The names of the intrinsics can be bound like any other names: by a `let`, as parameters, or from
outside.  But they are never looked up in a scope, so it does not matter what they are bound to, or
whether they are bound at all.  Threads that run programs and tasks can do the very same moves in
states that differ in nothing else, and then the states go on differing in nothing else.

## Main definitions

* `intrinsicNames` — the reserved names.
* `Scopes.EqualBut`, `State.EqualBut` — stores and states that are equal but for what some names are
  bound to.
* `Code.Blind` — code that looks up no reserved name.

## Main results

* `Code.blind_runProgramOn` — no program looks a reserved name up.
* `Thread.Step.equalBut`, `Pool.Step.equalBut` — one move leaves the states equal but for that.
* `runs_blind` — **threads are blind to what the reserved names are bound to.**
-/

namespace Monkey

/-- The names that are reserved for the intrinsics. -/
def intrinsicNames : List String := ["eval", "launch", "await"]

theorem Intrinsic.ofName?_eq_none_iff {name : String} :
    Intrinsic.ofName? name = none ↔ name ∉ intrinsicNames := by
  rw [ofName?, List.find?_eq_none]
  simp only [all, intrinsicNames, List.forall_mem_cons, Intrinsic.name, beq_iff_eq,
    eq_comm (b := name)]
  simp

/-! ### Stores and states -/

/-- The two stores have the same scopes, each inside the same one, and every scope binds in both of
them the same names to the same values, except perhaps the names in `hidden`. -/
structure Scopes.EqualBut (hidden : List String) (s t : Scopes) : Prop where
  size_eq : s.size = t.size
  outer?_eq : ∀ id, s.outer? id = t.outer? id
  findBinding_eq : ∀ id {name}, name ∉ hidden →
    (s.bindings id).find? name = (t.bindings id).find? name

/-- The two states are equal except perhaps for what the names in `hidden` are bound to. -/
structure State.EqualBut (hidden : List String) (s t : State) : Prop where
  scopes : s.scopes.EqualBut hidden t.scopes
  tasks_eq : s.tasks = t.tasks
  output_eq : s.output = t.output
  nextAddress_eq : s.nextAddress = t.nextAddress
  callDepth_eq : s.callDepth = t.callDepth
  maxCallDepth_eq : s.maxCallDepth = t.maxCallDepth
  spawnFailure_eq : s.spawnFailure = t.spawnFailure

namespace Scopes

variable {hidden : List String} {s t : Scopes}

namespace EqualBut

theorem refl (s : Scopes) : s.EqualBut hidden s := ⟨rfl, fun _ => rfl, fun _ _ _ => rfl⟩

theorem symm (h : s.EqualBut hidden t) : t.EqualBut hidden s :=
  ⟨h.size_eq.symm, fun id => (h.outer?_eq id).symm, fun id _ hname =>
    (h.findBinding_eq id hname).symm⟩

theorem add (h : s.EqualBut hidden t) (outer : Option Nat) :
    (s.add outer).EqualBut hidden (t.add outer) where
  size_eq := by rw [size_add, size_add, h.size_eq]
  outer?_eq id := by rw [outer?_add, outer?_add, h.size_eq, h.outer?_eq]
  findBinding_eq id _ hname := by rw [bindings_add, bindings_add, h.findBinding_eq id hname]

theorem set (h : s.EqualBut hidden t) (id : Nat) (name : String) (value : Value) :
    (s.set id name value).EqualBut hidden (t.set id name value) where
  size_eq := by rw [size_set, size_set, h.size_eq]
  outer?_eq other := by rw [outer?_set, outer?_set, h.outer?_eq]
  findBinding_eq other key hkey := by
    have hstored := h.findBinding_eq other hkey
    rw [bindings_set, bindings_set, h.size_eq]
    split
    · rw [Bindings.find?_set, Bindings.find?_set, hstored]
    · exact hstored

/-- It does not matter what a hidden name is bound to. -/
theorem set_right (h : s.EqualBut hidden t) (id : Nat) {name : String} (hname : name ∈ hidden)
    (value : Value) : s.EqualBut hidden (t.set id name value) where
  size_eq := by rw [size_set, h.size_eq]
  outer?_eq other := by rw [outer?_set, h.outer?_eq]
  findBinding_eq other key hkey := by
    have hne : key ≠ name := fun heq => hkey (heq ▸ hname)
    rw [h.findBinding_eq other hkey, bindings_set]
    split
    · rw [Bindings.find?_set, if_neg hne]
    · rfl

/-- **Both stores say the same of a name that is not hidden.** -/
theorem look_eq (h : s.EqualBut hidden t) {name : String} (hname : name ∉ hidden) (id : Nat) :
    s.look id name = t.look id name := by
  rw [look, look, h.findBinding_eq id hname, h.outer?_eq]

end EqualBut

end Scopes

theorem State.EqualBut.symm {hidden : List String} {s t : State} (h : s.EqualBut hidden t) :
    t.EqualBut hidden s :=
  ⟨h.scopes.symm, h.tasks_eq.symm, h.output_eq.symm, h.nextAddress_eq.symm, h.callDepth_eq.symm,
    h.maxCallDepth_eq.symm, h.spawnFailure_eq.symm⟩

/-! ### Code that looks up no reserved name -/

/-- No reserved name is looked up.  Everything stands for itself. -/
def unreserved : Footing Unit where
  toKnowledge := .identity
  Looks name := name ∉ intrinsicNames
  looks := Intrinsic.ofName?_eq_none_iff.1

/-- Code that looks up no reserved name, nor do the tasks that it starts. -/
def Code.Blind {α : Type} (x : Code α) : Prop := x.Abide unreserved.rules () anyResults x

/-- **No program looks a reserved name up.** -/
theorem Code.blind_runProgramOn (budget : Nat) (program : Program) (scope : Nat) :
    (runProgramOn Code budget program scope).Blind :=
  (unreserved.runProgramOn _ program rfl).imp fun _ _ _ _ _ => trivial

/-- Looking up no reserved name is a discipline, which needs nothing of the state. -/
def blindness : Discipline Unit where
  toRules := unreserved.rules
  Holds _ _ := True
  holds_callDepth _ _ := trivial
  step {_ w _ _ _ _} _ _ hrun := ⟨w, le_refl w, trivial, Action.gives_self rfl rfl hrun⟩

/-! ### The same moves -/

section

variable {s t s' : State} {α : Type}

/-- **An action that looks up no reserved name does the same** in states that are equal but for what
these names are bound to. -/
theorem Action.Alike.equalBut {β : Type} {a : Action β} {b : β} (ha : a.Alike unreserved () a)
    (hst : s.EqualBut intrinsicNames t) (hrun : a.run s = some (b, s')) :
    ∃ t', a.run t = some (b, t') ∧ s'.EqualBut intrinsicNames t' := by
  have htasks := hst.tasks_eq
  cases ha with
  | stuck => cases hrun
  -- other names than the reserved ones are bound as in the other state
  | look hscope hname =>
    cases hrun
    exact ⟨t, congrArg (fun found => some (found, t)) (hst.scopes.look_eq hname _).symm, hst⟩
  -- what is given out is the same, since as much was given out before
  | newScope hscope =>
    cases hrun
    exact ⟨_, congrArg (fun n => some (n, _)) hst.scopes.size_eq.symm,
      { hst with scopes := hst.scopes.add _ }⟩
  | setName name hscope hv =>
    cases hrun
    exact ⟨_, rfl, { hst with scopes := hst.scopes.set _ _ _ }⟩
  | fresh =>
    cases hrun
    have hnext := hst.nextAddress_eq
    exact ⟨_, congrArg (fun n => some (n, _)) hnext.symm,
      { hst with nextAddress_eq := congrArg Nat.succ hnext }⟩
  | print line =>
    cases hrun
    exact ⟨_, rfl, { hst with output_eq := by rw [hst.output_eq] }⟩
  -- the counts of calls are equal
  | permit hc hargs =>
    cases hrun
    refine ⟨t, ?_, hst⟩
    rw [Action.run, Eval.permit, hst.callDepth_eq, hst.maxCallDepth_eq]
  | enterCall =>
    cases hrun
    exact ⟨_, rfl, { hst with callDepth_eq := congrArg Nat.succ hst.callDepth_eq }⟩
  | leaveCall =>
    cases hrun
    exact ⟨_, rfl, { hst with callDepth_eq := congrArg Nat.pred hst.callDepth_eq }⟩
  | register =>
    cases hrun
    exact ⟨_, congrArg (fun n => some (n, _)) (congrArg Tasks.nextId htasks).symm,
      { hst with tasks_eq := congrArg (fun tasks => tasks.register.2) htasks }⟩
  | @send id _ v =>
    cases hrun
    exact ⟨_, rfl, { hst with tasks_eq := congrArg (fun tasks => (tasks.send id v).2) htasks }⟩
  | @close id =>
    cases hrun
    exact ⟨_, rfl, { hst with tasks_eq := congrArg (fun tasks => (tasks.close id).2) htasks }⟩
  | @join id =>
    obtain ⟨hreply, rfl⟩ := Eval.joinTask_eq_some_iff.1 hrun
    rw [htasks] at hreply
    exact ⟨_, Eval.joinTask_eq_some_iff.2 ⟨hreply, rfl⟩,
      { hst with tasks_eq := congrArg (fun tasks => (tasks.join id).2) htasks }⟩
  | note =>
    cases hrun
    exact ⟨t, rfl, hst⟩

/-- One move leaves the states equal but for the reserved names. -/
theorem Thread.Step.equalBut {th th' : Thread α} {l : Label} {new : List (Thread Unit)}
    {Q : Unit → α → α → Prop} (h : Thread.Step s th l s' th' new)
    (hth : th.code.Abide unreserved.rules () Q th.code) (hst : s.EqualBut intrinsicNames t) :
    ∃ t', Thread.Step t th l t' th' new ∧ s'.EqualBut intrinsicNames t' := by
  cases h with
  | @act _ _ _ _ _ depth _ hrun =>
    cases hth with
    | act hmay _ =>
      -- the action is done with the count of the thread in both states
      have hst₀ : State.EqualBut intrinsicNames { s with callDepth := depth }
          { t with callDepth := depth } := { hst with callDepth_eq := rfl }
      obtain ⟨u', hrun', hu⟩ := Action.Alike.equalBut hmay hst₀ hrun
      refine ⟨{ u' with callDepth := t.callDepth }, ?_,
        { hu with callDepth_eq := hst.callDepth_eq }⟩
      rw [hu.callDepth_eq]
      exact .act hrun'
  | start => exact ⟨t, .start .., hst⟩
  | refuse _ id =>
    have htasks := congrArg (fun tasks => (Tasks.close tasks id).2) hst.tasks_eq
    exact ⟨_, .refuse .., { hst with tasks_eq := htasks }⟩

end

namespace Pool

variable {α : Type} {p q : Pool α} {u : State} {Q : Unit → α → α → Prop}

/-- One move leaves the states equal but for the reserved names, and the threads equal. -/
theorem Step.equalBut {m : Option Nat × Label} (h : Step p m q) (hp : p.Abides blindness () Q)
    (hpu : p.state.EqualBut intrinsicNames u) :
    ∃ u', Step { p with state := u } m { q with state := u' } ∧
      q.state.EqualBut intrinsicNames u' := by
  cases h with
  | main hstep =>
    obtain ⟨u', hstep', hu'⟩ := hstep.equalBut hp.main hpu
    exact ⟨u', .main hstep', hu'⟩
  | task hget hstep =>
    obtain ⟨u', hstep', hu'⟩ := hstep.equalBut (hp.tasks _ (List.mem_of_getElem? hget)) hpu
    exact ⟨u', .task hget hstep', hu'⟩

/-- So do all the moves of a run. -/
theorem Runs.equalBut (hQ : Lasting Q) {ms : List (Option Nat × Label)} (h : Runs p ms q)
    (hp : p.Abides blindness () Q) (hpu : p.state.EqualBut intrinsicNames u) :
    ∃ u', Runs { p with state := u } ms { q with state := u' } ∧
      q.state.EqualBut intrinsicNames u' := by
  induction h generalizing u with
  | refl => exact ⟨u, .refl, hpu⟩
  | step hstep _ ih =>
    obtain ⟨u₁, hstep', hu₁⟩ := hstep.equalBut hp hpu
    obtain ⟨-, _, -, hnext⟩ := hstep.abides hQ hp
    obtain ⟨u₂, hruns', hu₂⟩ := ih hnext hu₁
    exact ⟨u₂, .step hstep' hruns', hu₂⟩

end Pool

/-- **Threads are blind to what the reserved names are bound to.**  Let two states be equal except
that scopes bind `eval`, `launch` and `await` to other values, or do not bind them, in the one and
in the other.  A program is run, and the tasks that were started before and the ones that it starts
take turns with it.  Whatever moves the threads make from the one state, they can make the very same
moves from the other one.  After them the threads are the same, so that the program has ended with
the same value if it has ended; and the states, with their output and their tasks, are equal but for
those bindings.  Threads of tasks that look up no reserved name go on like this, and start no
others, so that the same holds of the next program. -/
theorem runs_blind {s t : State} (h : s.EqualBut intrinsicNames t) {tasks : List (Thread Unit)}
    (htasks : ∀ th ∈ tasks, th.code.Blind) (budget : Nat) (program : Program) (scope depth : Nat) :
    (∀ ms p, Pool.Runs ⟨s, ⟨runProgramOn Code budget program scope, depth⟩, tasks⟩ ms p →
      ∃ u, Pool.Runs ⟨t, ⟨runProgramOn Code budget program scope, depth⟩, tasks⟩ ms
        { p with state := u } ∧ p.state.EqualBut intrinsicNames u) ∧
    (∀ ms p, Pool.Runs ⟨t, ⟨runProgramOn Code budget program scope, depth⟩, tasks⟩ ms p →
      ∃ u, Pool.Runs ⟨s, ⟨runProgramOn Code budget program scope, depth⟩, tasks⟩ ms
        { p with state := u } ∧ u.EqualBut intrinsicNames p.state) ∧
    ∀ ms p, Pool.Runs ⟨s, ⟨runProgramOn Code budget program scope, depth⟩, tasks⟩ ms p →
      ∀ th ∈ p.tasks, th.code.Blind := by
  have habides (s : State) : Pool.Abides blindness () anyResults
      ⟨s, ⟨runProgramOn Code budget program scope, depth⟩, tasks⟩ :=
    ⟨trivial, Code.blind_runProgramOn budget program scope, htasks⟩
  refine ⟨fun ms p hruns => hruns.equalBut lasting_anyResults (habides s) h, fun ms p hruns => ?_,
    fun ms p hruns => ?_⟩
  · obtain ⟨u, hruns', hu⟩ := hruns.equalBut lasting_anyResults (habides t) h.symm
    exact ⟨u, hruns', hu.symm⟩
  · obtain ⟨_, -, hp⟩ := hruns.abides lasting_anyResults (habides s)
    exact hp.tasks

/-- The program `let launch = 1; let f = fn(await) { launch(fn() { puts(3);
eval("let eval = 4; 5") }) }; await(f(2));`, which binds reserved names and calls the intrinsics by
them. -/
def reboundProgram : Program :=
  [.letBe "launch" (.int 1),
    .letBe "f" (.fn ["await"] [.expr (.call (.ident "launch") [.fn []
      [.expr (.call (.ident "puts") [.int 3]),
        .expr (.call (.ident "eval") [.str "let eval = 4; 5"])]])]),
    .expr (.call (.ident "await") [.call (.ident "f") [.int 2]])]

/-- A program that binds reserved names itself does the same where two of them are bound already. -/
theorem runs_blind_rebound :
    let s := (Session.start 9 .empty).state
    let t := { s with scopes := (s.scopes.set 0 "eval" (.integer 6)).set 0 "await" .null }
    s.EqualBut intrinsicNames t ∧ ∃ ms p u v,
      Pool.Runs ⟨s, ⟨runProgramOn Code 9 reboundProgram 0, 0⟩, []⟩ ms p ∧
      Pool.Runs ⟨t, ⟨runProgramOn Code 9 reboundProgram 0, 0⟩, []⟩ ms { p with state := u } ∧
      p.state.EqualBut intrinsicNames u ∧ p.main.code = .pure v ∧
      v.inspect = "5" ∧ p.state.output.text = "3\n" ∧ p.state.tasks.size = 1 := by
  intro s t
  have hscopes : s.scopes.EqualBut intrinsicNames t.scopes :=
    ((Scopes.EqualBut.refl s.scopes).set_right 0 (by decide) _).set_right 0 (by decide) _
  have hst : s.EqualBut intrinsicNames t := ⟨hscopes, rfl, rfl, rfl, rfl, rfl, rfl⟩
  have hend : (runProgram 9 reboundProgram 0 s).map
      (fun p => (p.1.inspect, p.2.output.text, p.2.tasks.size)) = some ("5", "3\n", 1) := by
    decide +kernel
  obtain ⟨⟨v, s'⟩, hrun, hshown⟩ := Option.map_eq_some_iff.1 hend
  rw [← Code.run_runProgramOn] at hrun
  obtain ⟨ms, new, hruns⟩ := Pool.runs_of_run hrun [] s.callDepth
  -- what is done on the spot in the first state is done in the second one
  obtain ⟨hforth, -⟩ := runs_blind hst (List.forall_mem_nil _) 9 reboundProgram 0 0
  obtain ⟨u, hruns', hu⟩ := hforth ms _ hruns
  simp only [Prod.mk.injEq] at hshown
  exact ⟨hst, ms, _, u, v, hruns, hruns', hu, rfl, hshown⟩

end Monkey
