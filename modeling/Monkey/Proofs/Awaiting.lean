import Monkey.Proofs.ActiveCalls
import Monkey.Proofs.Budget

/-!
# Launching and awaiting at once

A function without parameters that is written where it is launched sees what it would see if it were
called there.  Awaiting its task at once gives what the call gives, in the state that the call ends
in, but for one more task in the registry.

There are three differences between the two runs.  The task counts its own calls, so that more of
them may be nested in it; it has a number already, so that a task launched on the way has another
one; and it is not finished, so that whoever asks for it by its number waits for ever.  The last one
takes a handle of another registry.

## Main definitions

* `State.inTask` — the state in which a task does what a call does.
* `Label.launches`, `Label.asksFor` — moves where the two runs part.
* `Code.QuietRun` — runs on the spot without such moves.

## Main results

* `Tasks.join_register` — a task that is registered disturbs no other one.
* `Code.QuietRun.inTask` — **what makes no such move is done in a task as it is in a call.**
* `evaluate_await_launch` — **awaiting a function literal that is launched gives what calling it
  gives.**
* `evaluate_await_self` — **a task that awaits its own number never ends.**
-/

namespace Monkey

open Eval Machine

/-- Whether a task is registered, started or ended. -/
def Label.launches : Label → Bool
  | .acted _ .register _ | .acted _ (.send _ _) _ | .acted _ (.close _) _ => true
  | .started _ _ | .refused _ _ _ => true
  | _ => false

/-- Whether the result of a given task is asked for. -/
def Label.asksFor (id : Nat) : Label → Bool
  | .acted _ (.join other) _ => other == id
  | _ => false

/-- Nothing in the move tells a call from a task that has a given number. -/
def Label.isQuiet (id : Nat) (l : Label) : Bool :=
  !l.isOverflow && !l.launches && !l.asksFor id

/-! ### A registry with one more task -/

namespace Tasks

variable (t : Tasks) {id : Nat}

theorem put_register (state : TaskState) (h : id ≠ t.nextId) :
    t.register.2.put id state = (t.put id state).register.2 := by
  obtain ⟨entries, nextId⟩ := t
  have hid : id ≠ nextId := h
  have hne : nextId ≠ id := fun heq => h heq.symm
  -- the two tables have the same entries in the same order
  refine congrArg (Tasks.mk · (nextId + 1)) ?_
  induction entries with
  | nil =>
    change [(nextId, if nextId = id then _ else _)] = _
    rw [if_neg hne]
    rfl
  | cons first rest ih =>
    obtain ⟨key, entry⟩ := first
    simp only [register, put, insertEntry, List.map_cons] at ih ⊢
    split
    · rw [List.map_cons, if_neg hne]
    · rw [List.map_cons, ih hid]

/-- A task that is registered disturbs no other one. -/
theorem join_register (h : id ≠ t.nextId) :
    t.register.2.join id = ((t.join id).1, (t.join id).2.register.2) := by
  unfold join
  rw [t.get?_register_of_ne h]
  cases t.get? id with
  | none => rfl
  | some state =>
    cases state with
    | ended sent => simp only [t.put_register _ h]
    | _ => rfl

/-- A task that was registered last has its result once it is finished. -/
theorem join_finish_register (result : Value) :
    ((t.register.2.send t.nextId result).2.close t.nextId).2.join t.nextId =
      (.result result, t.register.2.put t.nextId (.joined result)) := by
  have hslot : t.register.2.slot? t.nextId = some ⟨true, .running none⟩ := by
    rw [slot?_register, if_pos rfl]
  have hput : ∀ state, (t.register.2.put t.nextId state).slot? t.nextId = some ⟨true, state⟩ := by
    intro state
    rw [slot?_put, if_pos rfl, hslot]
    rfl
  -- the new task goes through its three states: sent, closed and joined
  have hsend : (t.register.2.send t.nextId result).2 =
      t.register.2.put t.nextId (.running (some result)) := by
    simp only [send, hslot, Option.map_some]
  have hclose : (t.register.2.put t.nextId (.running (some result))).close t.nextId =
      (true, t.register.2.put t.nextId (.ended (some result))) := by
    simp only [close, hput, Option.map_some, put_put]
  have hget : (t.register.2.put t.nextId (.ended (some result))).get? t.nextId =
      some (.ended (some result)) := by
    rw [get?_of_slot? (hput _), if_pos rfl]
  rw [hsend, hclose, join, hget]
  simp only [Option.getD_some, put_put]

end Tasks

/-! ### The same moves in a call and in a task -/

/-- The state in which a task does what a call does in `s`: the task is registered and runs, and
fewer calls may be active. -/
def State.inTask (s : State) (depth : Nat) : State :=
  { s with tasks := s.tasks.register.2, callDepth := depth }

namespace Code

variable {α β γ : Type} {id : Nat} {s t : State}

/-- On the spot, the code leads from one state to another one with a result, and nothing on the way
tells a call from a task of a given number. -/
def QuietRun (id : Nat) (x : Code α) (s : State) (a : α) (t : State) : Prop :=
  x.run s = some (a, t) ∧ ∀ m ∈ x.moves s, m.1.isQuiet id

theorem quietRun_act {bodies : List Closure} {a : Action β} {k : β → Code α} {c : α} :
    QuietRun id (.act bodies a k) s c t ↔ ∃ b u, a.run s = some (b, u) ∧
      (Label.acted bodies a b).isQuiet id ∧ QuietRun id (k b) u c t := by
  unfold QuietRun moves
  rw [run, bind_eq_some_iff, record]
  constructor
  · rintro ⟨⟨b, u, ha, hk⟩, hquiet⟩
    rw [ha] at hquiet
    obtain ⟨hfirst, hrest⟩ := List.forall_mem_cons.1 hquiet
    exact ⟨b, u, ha, hfirst, hk, hrest⟩
  · rintro ⟨b, u, ha, hfirst, hk, hrest⟩
    refine ⟨⟨b, u, ha, hk⟩, ?_⟩
    rw [ha]
    exact List.forall_mem_cons.2 ⟨hfirst, hrest⟩

/-- Nothing is quiet that starts a task. -/
theorem not_quietRun_spawn {bodies : List Closure} {j : Nat} {task : Code Value}
    {k : Option String → Code α} {a : α} : ¬QuietRun id (.spawn bodies j task k) s a t := by
  rintro ⟨-, hquiet⟩
  rw [moves, record] at hquiet
  split at hquiet
  · cases (List.forall_mem_cons.1 hquiet).1
  · -- the start is the first move, whether the task ends or not
    have hstart : (Label.started bodies j).isQuiet id := by
      refine hquiet (.started bodies j, s) ?_
      simp only
      split <;> exact List.mem_cons_self
    cases hstart

theorem quietRun_bind {x : Code α} {f : α → Code β} : ∀ {s : State} {b : β},
    QuietRun id (x >>= f) s b t ↔ ∃ a u, QuietRun id x s a u ∧ QuietRun id (f a) u b t := by
  induction x with
  | pure a =>
    intro s b
    constructor
    · exact fun h => ⟨a, s, ⟨rfl, List.forall_mem_nil _⟩, h⟩
    · rintro ⟨a', u, ⟨hrun, -⟩, h⟩
      cases hrun
      exact h
  | act bodies a k ih =>
    intro s b
    rw [act_bind, quietRun_act]
    simp only [quietRun_act, ih]
    constructor
    · rintro ⟨c, u, ha, hfirst, d, w, hk, hf⟩
      exact ⟨d, w, ⟨c, u, ha, hfirst, hk⟩, hf⟩
    · rintro ⟨d, w, ⟨c, u, ha, hfirst, hk⟩, hf⟩
      exact ⟨c, u, ha, hfirst, d, w, hk, hf⟩
  -- a quiet run starts no task
  | spawn bodies j task k =>
    intro s b
    rw [spawn_bind]
    refine iff_of_false not_quietRun_spawn ?_
    rintro ⟨a, u, h, -⟩
    exact not_quietRun_spawn h

/-- The functions around do not matter. -/
theorem quietRun_inBody {c : Closure} {x : Code α} : ∀ {s : State} {a : α},
    QuietRun id (x.inBody c) s a t ↔ QuietRun id x s a t := by
  induction x with
  | pure a => exact Iff.rfl
  | act bodies a k ih =>
    intro s b
    rw [Code.inBody, quietRun_act, quietRun_act]
    refine exists_congr fun d => exists_congr fun u => and_congr_right fun _ => ?_
    have hlabel : (Label.acted (bodies ++ [c]) a d).isQuiet id =
        (Label.acted bodies a d).isQuiet id := by
      cases a <;> rfl
    rw [hlabel, ih]
  | spawn bodies j task k =>
    exact iff_of_false not_quietRun_spawn not_quietRun_spawn

/-- **An action that is quiet is done in a task as it is in a call**, and no task is registered. -/
theorem run_inTask {bodies : List Closure} {a : Action β} {b : β} {depth : Nat}
    (hrun : a.run s = some (b, t)) (hquiet : (Label.acted bodies a b).isQuiet s.tasks.nextId)
    (hdepth : depth ≤ s.callDepth) : t.tasks.nextId = s.tasks.nextId ∧
      ∃ depth', depth' ≤ t.callDepth ∧ a.run (s.inTask depth) = some (b, t.inTask depth') := by
  cases a with
  | stuck => cases hrun
  | register | send | close => cases hquiet
  | enterCall =>
    cases hrun
    exact ⟨rfl, depth + 1, Nat.succ_le_succ hdepth, rfl⟩
  | leaveCall =>
    cases hrun
    exact ⟨rfl, depth - 1, Nat.sub_le_sub_right hdepth 1, rfl⟩
  | permit c args =>
    cases hrun
    refine ⟨rfl, depth, hdepth, congrArg (fun e => some (e, s.inTask depth)) ?_⟩
    -- where the call is not beyond the limit, the task is not either
    change c.refusal? args depth s.maxCallDepth = c.refusal? args s.callDepth s.maxCallDepth
    unfold Closure.refusal?
    split
    · rfl
    · next hargs =>
      have hallowed : ¬s.maxCallDepth ≤ s.callDepth := by
        intro hle
        rw [Closure.refusal?, if_neg hargs, if_pos hle] at hquiet
        cases hquiet
      rw [if_neg hallowed, if_neg (by omega)]
  | join other =>
    have hother : other ≠ s.tasks.nextId := by
      rintro rfl
      simp [Label.isQuiet, Label.asksFor] at hquiet
    obtain ⟨hreply, rfl⟩ := joinTask_eq_some_iff.1 hrun
    refine ⟨s.tasks.nextId_join other, depth, hdepth, joinTask_eq_some_iff.2 ?_⟩
    have hjoin := s.tasks.join_register hother
    exact ⟨(congrArg Prod.fst hjoin).trans hreply,
      congrArg (fun tasks => { s with tasks := tasks, callDepth := depth })
        (congrArg Prod.snd hjoin).symm⟩
  | note | fresh | newScope | setName | look | print =>
    cases hrun
    exact ⟨rfl, depth, hdepth, rfl⟩

/-- **What is quiet is done in a task as it is in a call**, with no more calls active, and no task
is registered. -/
theorem QuietRun.inTask {x : Code α} : ∀ {s : State} {a : α} {depth : Nat},
    QuietRun s.tasks.nextId x s a t → depth ≤ s.callDepth → t.tasks.nextId = s.tasks.nextId ∧
      ∃ depth', x.run (s.inTask depth) = some (a, t.inTask depth') := by
  induction x with
  | pure a =>
    intro s a' depth h _
    cases h.1
    exact ⟨rfl, depth, rfl⟩
  | act bodies a k ih =>
    intro s c depth h hdepth
    obtain ⟨b, u, hrun, hquiet, hrest⟩ := quietRun_act.1 h
    -- a quiet action does the same in the task, where fewer calls are active
    obtain ⟨hnext, depth', hdepth', hrun'⟩ := run_inTask hrun hquiet hdepth
    rw [← hnext] at hrest
    obtain ⟨hnext', depth'', hrest'⟩ := ih b hrest hdepth'
    exact ⟨hnext'.trans hnext, depth'', bind_eq_some_iff.2 ⟨b, _, hrun', hrest'⟩⟩
  | spawn => exact fun h => absurd h not_quietRun_spawn

end Code

/-! ### Calling and launching a function literal -/

/-- The state in which the body begins of a function literal that is called in a scope. -/
def State.calling (s : State) (scope : Nat) : State :=
  { s with
    scopes := s.scopes.add (some scope)
    nextAddress := s.nextAddress + 1
    callDepth := s.callDepth + 1 }

/-- The state in which the body begins of a function literal that is launched in a scope. -/
def State.launching (s : State) (scope : Nat) : State := (s.calling scope).inTask 0

section

variable {scope : Nat} {body : Block} {s t : State} {v : Value}

/-- Where the call of a function literal without parameters is quiet, so is its body. -/
theorem Code.QuietRun.body_of_call {id n : Nat}
    (h : QuietRun id (evaluateOn Code (n + 2) (.call (.fn [] body) []) scope) s v t) :
    ∃ w u,
      QuietRun id (evalBody (evaluateOn Code (n + 1)) body s.scopes.size) (s.calling scope) w u ∧
      v = w.unwrapReturn ∧ t = { u with callDepth := u.callDepth - 1 } := by
  -- the literal makes a function, which is called with no argument
  obtain ⟨f, s₁, h, hgave⟩ := quietRun_bind.1 h
  obtain ⟨_, _, hnote, -, hend⟩ := quietRun_act.1 hgave
  cases hnote
  cases hend.1
  obtain ⟨addr, _, hfresh, -, h⟩ := quietRun_act.1 h
  cases hfresh
  obtain ⟨_, _, hnote, -, h⟩ := quietRun_act.1 h
  cases hnote
  obtain ⟨_, _, hnote, -, h⟩ := quietRun_act.1 h
  cases hnote
  obtain ⟨refusal, _, hpermit, hquiet, h⟩ := quietRun_act.1 h
  cases hpermit
  cases hrefusal : Closure.refusal? ⟨[], body, scope⟩ [] s.callDepth s.maxCallDepth with
  | some e =>
    -- without parameters there is no other reason to refuse the call than the limit
    rw [hrefusal] at hquiet
    simp only [Closure.refusal?, List.length_nil, Nat.lt_irrefl, if_false] at hrefusal
    split at hrefusal
    · cases hrefusal
      cases hquiet
    · cases hrefusal
  | none =>
    rw [hrefusal] at h
    obtain ⟨inner, _, hscope, -, h⟩ := quietRun_act.1 h
    cases hscope
    change QuietRun id (inCall ⟨[], body, scope⟩
      (evalBody (evaluateOn Code (n + 1)) body s.scopes.size) >>= leave) _ _ _ at h
    obtain ⟨w, u, h, hleave⟩ := quietRun_bind.1 h
    obtain ⟨_, _, hnote, -, hresult⟩ := quietRun_act.1 hleave
    cases hnote
    cases hresult.1
    obtain ⟨_, _, henter, -, h⟩ := quietRun_act.1 h
    cases henter
    obtain ⟨w', u', hbody, h⟩ := quietRun_bind.1 (quietRun_inBody.1 h)
    obtain ⟨_, _, hdown, -, h⟩ := quietRun_act.1 h
    cases hdown
    cases h.1
    exact ⟨w, u', hbody, rfl, rfl⟩

/-- Launching a function literal registers a task, lets its body run, and finishes it, if the host
starts the task. -/
theorem evaluate_launch_fn (hhost : s.spawnFailure s.tasks.nextId = none) (n : Nat) :
    evaluate (n + 2) (.call (.ident "launch") [.fn [] body]) scope s =
      (evalBody (evaluate (n + 1)) body s.scopes.size (s.launching scope)).map fun p =>
        (.task s.tasks.nextId,
          { p.2 with
            tasks := ((p.2.tasks.send s.tasks.nextId p.1.unwrapReturn).2.close s.tasks.nextId).2
            callDepth := s.callDepth }) := by
  rw [show "launch" = Intrinsic.launch.name from rfl, evaluate_call_intrinsic]
  exact start_apply (evalBody (evaluate (n + 1)) body s.scopes.size)
    (s := { s with scopes := s.scopes.add (some scope), nextAddress := s.nextAddress + 1 }) hhost

/-- **Awaiting a function literal that is launched gives what calling it gives.**  Let the call of a
function literal without parameters end, from any state, without launching a task, and let no call
on the way be refused for being one too many and no task be asked for by the number that the next
task gets.  Then awaiting the launched literal ends with the same value in the same state, its task
being joined, if the host starts that task. -/
theorem evaluate_await_launch {budget : Nat}
    (hcall : evaluate budget (.call (.fn [] body) []) scope s = some (v, t))
    (hquiet : ∀ m ∈ (evaluateOn Code budget (.call (.fn [] body) []) scope).moves s,
      m.1.isOverflow = false ∧ m.1.launches = false ∧ m.1.asksFor s.tasks.nextId = false)
    (hhost : s.spawnFailure s.tasks.nextId = none) :
    evaluate (budget + 1) (.call (.ident "await") [.call (.ident "launch") [.fn [] body]]) scope s =
      some (v, { t with tasks := t.tasks.register.2.put s.tasks.nextId (.joined v) }) := by
  match budget with
  | 0 => cases hcall
  | 1 => cases hcall
  | n + 2 =>
    have hrun : Code.QuietRun s.tasks.nextId
        (evaluateOn Code (n + 2) (.call (.fn [] body) []) scope) s v t := by
      refine ⟨by rw [Code.run_evaluateOn, hcall], fun m hm => ?_⟩
      obtain ⟨hoverflow, hlaunch, hasks⟩ := hquiet m hm
      simp only [Label.isQuiet, hoverflow, hlaunch, hasks, Bool.not_false, Bool.and_true]
    obtain ⟨w, u, hbody, rfl, rfl⟩ := hrun.body_of_call
    obtain ⟨hnext, depth, hinTask⟩ := hbody.inTask (Nat.zero_le (s.calling scope).callDepth)
    rw [Code.run_evalBody] at hinTask
    have hlaunched : evaluate (n + 2) (.call (.ident "launch") [.fn [] body]) scope s =
        (evalBody (evaluate (n + 1)) body s.scopes.size ((s.calling scope).inTask 0)).map _ :=
      evaluate_launch_fn hhost n
    rw [hinTask, Option.map_some] at hlaunched
    have hnumber : s.tasks.nextId = u.tasks.nextId := hnext.symm
    have hjoin := u.tasks.join_finish_register w.unwrapReturn
    rw [← hnumber] at hjoin
    rw [show "await" = Intrinsic.await.name from rfl, evaluate_call_intrinsic]
    refine bind_eq_some_iff.2 ⟨_, _, hlaunched, ?_⟩
    change awaitTask (m := Eval) (.task s.tasks.nextId) _ = _
    -- the body leaves the count as it was, so that the call and the task do
    have hdepth : u.callDepth - 1 = s.callDepth := by
      have hcount : u.callDepth = s.callDepth + 1 :=
        (evalBody_callDepth (by rw [← Code.run_evalBody]; exact hbody.1)).1
      rw [hcount, Nat.add_sub_cancel]
    rw [awaitTask_task_eq]
    simp only [State.inTask, hjoin, hdepth]

/-- **A task that awaits its own number never ends.**  The number of a task is known before the task
is launched to whoever has a handle from another registry. -/
theorem evaluate_await_self {name : String} (hname : Intrinsic.ofName? name = none)
    (hscope : scope < s.scopes.size)
    (hfound : s.scopes.find? scope name = some (.task s.tasks.nextId))
    (hhost : s.spawnFailure s.tasks.nextId = none) (budget : Nat) :
    evaluate budget (.call (.ident "await") [.call (.ident "launch")
      [.fn [] [.expr (.call (.ident "await") [.ident name])]]]) scope s = none := by
  refine Option.eq_none_iff_forall_ne_some.2 ?_
  rintro ⟨v, t⟩ h
  have hends := evaluate_mono (Nat.le_add_right budget 4) h
  -- the body of the task awaits the number that the task has got
  have hnumber : (s.launching scope).scopes.find? s.scopes.size name =
      some (.task s.tasks.nextId) := by
    rw [← hfound]
    exact s.scopes.find?_add_self name hscope
  have hjoin : ((s.launching scope).tasks.join s.tasks.nextId).1 = .wouldBlock := by
    change (s.tasks.register.2.join s.tasks.nextId).1 = _
    rw [Tasks.join, Tasks.get?_register_self]
  have hawait : evaluate (budget + 2) (.call (.ident "await") [.ident name]) s.scopes.size
      (s.launching scope) = none := by
    rw [show "await" = Intrinsic.await.name from rfl, evaluate_call_intrinsic]
    change ((evaluate (budget + 1) (.ident name) s.scopes.size (s.launching scope)).bind _) = _
    rw [evaluate_ident hname hnumber, Option.bind_some]
    change awaitTask (m := Eval) (.task s.tasks.nextId) _ = _
    rw [awaitTask_task_eq, hjoin]
  have hbody : evalBody (evaluate (budget + 2)) [.expr (.call (.ident "await") [.ident name])]
      s.scopes.size (s.launching scope) = none := by
    change (evaluate (budget + 2) _ _ _).bind _ = _
    rw [hawait, Option.bind_none]
  rw [show "await" = Intrinsic.await.name from rfl, evaluate_call_intrinsic] at hends
  obtain ⟨_, _, hlaunched, -⟩ := bind_eq_some_iff.1 hends
  rw [evaluate_launch_fn hhost] at hlaunched
  cases hlaunched.symm.trans (congrArg _ hbody)

end

/-- A state in which a scope binds `base` to an array and `h` to the handle of a task that has
ended. -/
def endedTaskState : State :=
  { State.start 10 .empty with
    scopes := ((Scopes.empty.add none).set 0 "base" (.array 0 [.integer 1])).set 0 "h" (.task 0)
    tasks := ⟨[(0, ⟨true, .ended (some (.integer 7))⟩)], 1⟩
    nextAddress := 1 }

/-- The body `puts(base); let x = await(h); return [x, base];`. -/
def puttingBody : Block :=
  [.expr (.call (.ident "puts") [.ident "base"]),
    .letBe "x" (.call (.ident "await") [.ident "h"]),
    .ret (.array [.ident "x", .ident "base"])]

/-- A function literal that prints, awaits another task and returns can be launched instead. -/
theorem evaluate_await_launch_returning : ∃ v t,
    evaluate 5 (.call (.fn [] puttingBody) []) 0 endedTaskState = some (v, t) ∧
    evaluate 6 (.call (.ident "await") [.call (.ident "launch") [.fn [] puttingBody]]) 0
      endedTaskState = some (v, { t with tasks := t.tasks.register.2.put 1 (.joined v) }) := by
  have hrun : (evaluate 5 (.call (.fn [] puttingBody) []) 0 endedTaskState).isSome := by
    decide +kernel
  have hquiet : ∀ m ∈ (evaluateOn Code 5 (.call (.fn [] puttingBody) []) 0).moves endedTaskState,
      m.1.isOverflow = false ∧ m.1.launches = false ∧
        m.1.asksFor endedTaskState.tasks.nextId = false := by
    decide +kernel
  obtain ⟨⟨v, t⟩, hcall⟩ := Option.isSome_iff_exists.1 hrun
  exact ⟨v, t, hcall, evaluate_await_launch hcall hquiet rfl⟩

/-- A state in which a scope binds `h` to a handle of another registry: the number is the one that
the next task gets. -/
def foreignHandleState : State :=
  { State.start 10 .empty with scopes := (Scopes.empty.add none).set 0 "h" (.task 0) }

/-- The body `await(h)`. -/
def foreignBody : Block := [.expr (.call (.ident "await") [.ident "h"])]

/-- Called, the literal does not find the task, and no task is launched and no call refused; but
launched and awaited it never ends. -/
theorem evaluate_await_launch_foreign :
    (∃ v t, evaluate 5 (.call (.fn [] foreignBody) []) 0 foreignHandleState = some (v, t) ∧
      v.message? = some "thread not found: 0") ∧
    (∀ m ∈ (evaluateOn Code 5 (.call (.fn [] foreignBody) []) 0).moves foreignHandleState,
      m.1.isOverflow = false ∧ m.1.launches = false) ∧
    ∀ budget, evaluate budget
      (.call (.ident "await") [.call (.ident "launch") [.fn [] foreignBody]]) 0
      foreignHandleState = none := by
  have hrun : (evaluate 5 (.call (.fn [] foreignBody) []) 0 foreignHandleState).map
      (fun p => p.1.message?) = some (some "thread not found: 0") := by
    decide +kernel
  have hfound : foreignHandleState.scopes.find? 0 "h" = some (.task 0) := by
    rw [Scopes.find?_eq_or]
    rfl
  obtain ⟨⟨v, t⟩, hcall, hmessage⟩ := Option.map_eq_some_iff.1 hrun
  refine ⟨⟨v, t, hcall, hmessage⟩, by decide +kernel, fun budget => ?_⟩
  exact evaluate_await_self (by decide) (by decide) hfound rfl budget

end Monkey
