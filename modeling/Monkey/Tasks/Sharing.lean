import Monkey.Tasks

/-!
# A registry that threads share

The threads of a program register tasks, send results, close senders and ask for results, all on one
registry and in any order.  Each of these is one step but for the last.  A thread that asks for a
result takes the lock on it, takes one value after another out of the channel of the task until the
channel is empty and closed, puts the last of them down as the result, and gives the lock back.
Nobody else is given the result before that; once it was put down, everybody is given it at once.

The channel has room for one value.  A join that is under way makes room in it, so a task whose
result is waited for may send more than one.

## Main definitions

* `Tasks.receive` — taking a value out of the channel of a task.
* `Join`, `SharedTasks` — a join that is under way, and a registry with such joins.
* `TaskEvent`, `SharedTasks.Step` — what a thread does to the registry in one step.
* `SharedTasks.Runs` — what the threads do to it, step by step.
-/

namespace Monkey

/-- Takes the value out of the channel of a task, if there is one. -/
def Tasks.receive (t : Tasks) (id : Nat) : Option (Value × Tasks) :=
  match t.get? id with
  | some (.running (some value)) => some (value, t.put id (.running none))
  | some (.ended (some value)) => some (value, t.put id (.ended none))
  | _ => none

/-- A join that holds the lock on a result. -/
structure Join where
  /-- The thread that asked for the result. -/
  joiner : Nat
  /-- The value that was taken out of the channel last; before the first it is `null`. -/
  last : Value

/-- A registry with the joins that are under way. -/
structure SharedTasks where
  tasks : Tasks
  /-- The join that holds the lock on the result of a task. -/
  joins : Nat → Option Join

/-- What a thread did to the registry. -/
inductive TaskEvent
  | registered (id : Nat)
  /-- A value went into the channel. -/
  | accepted (id : Nat) (value : Value)
  /-- The sender was closed. -/
  | closed (id : Nat)
  /-- A thread that asked for the result took the lock on it. -/
  | locked (joiner id : Nat)
  /-- The thread with the lock took a value out of the channel. -/
  | received (id : Nat) (value : Value)
  /-- A thread that asked for the result was given it. -/
  | returned (joiner id : Nat) (value : Value)

/-- The task that an event is about. -/
def TaskEvent.id : TaskEvent → Nat
  | .registered id => id
  | .accepted id _ => id
  | .closed id => id
  | .locked _ id => id
  | .received id _ => id
  | .returned _ id _ => id

namespace SharedTasks

/-- The registry at first: there is no task and no join. -/
def start : SharedTasks := ⟨.empty, fun _ => none⟩

/-- Puts down which join holds the lock on the result of a task. -/
def setJoin (r : SharedTasks) (id : Nat) (join : Option Join) : SharedTasks :=
  { r with joins := fun other => if other = id then join else r.joins other }

/-- One step of a thread.  Where no step is given, a thread waits: with a value until there is room
in the channel, for the lock until nobody holds it, and with the lock until there is a value in the
channel or the sender is closed. -/
inductive Step : SharedTasks → TaskEvent → SharedTasks → Prop
  | register {r : SharedTasks} :
    Step r (.registered r.tasks.register.1) { r with tasks := r.tasks.register.2 }
  | send {r : SharedTasks} {id : Nat} {value : Value} {tasks : Tasks} :
    r.tasks.send id value = (.sent, tasks) → Step r (.accepted id value) { r with tasks := tasks }
  | close {r : SharedTasks} {id : Nat} {tasks : Tasks} :
    r.tasks.close id = (true, tasks) → Step r (.closed id) { r with tasks := tasks }
  /-- There is no result yet, and nobody else is waiting for it with the lock. -/
  | lock {r : SharedTasks} {joiner id : Nat} {state : TaskState} :
    r.joins id = none → r.tasks.get? id = some state → (∀ value, state ≠ .joined value) →
    Step r (.locked joiner id) (r.setJoin id (some ⟨joiner, .null⟩))
  | receive {r : SharedTasks} {id : Nat} {join : Join} {value : Value} {tasks : Tasks} :
    r.joins id = some join → r.tasks.receive id = some (value, tasks) →
    Step r (.received id value)
      ({ r with tasks := tasks }.setJoin id (some { join with last := value }))
  /-- The channel is empty and closed: the value that was taken last is the result. -/
  | finish {r : SharedTasks} {id : Nat} {join : Join} :
    r.joins id = some join → r.tasks.get? id = some (.ended none) →
    Step r (.returned join.joiner id join.last)
      ({ r with tasks := r.tasks.put id (.joined join.last) }.setJoin id none)
  /-- The result was put down before. -/
  | ask {r : SharedTasks} {joiner id : Nat} {value : Value} :
    r.joins id = none → r.tasks.get? id = some (.joined value) →
    Step r (.returned joiner id value) r

/-- What threads do, one step after another. -/
inductive Runs : SharedTasks → List TaskEvent → SharedTasks → Prop
  | refl {r : SharedTasks} : Runs r [] r
  | step {r s t : SharedTasks} {e : TaskEvent} {es : List TaskEvent} :
    Step r e s → Runs s es t → Runs r (e :: es) t

@[simp] theorem joins_setJoin_self (r : SharedTasks) (id : Nat) (join : Option Join) :
    (r.setJoin id join).joins id = join := if_pos rfl

theorem joins_setJoin_of_ne (r : SharedTasks) {id other : Nat} (join : Option Join)
    (h : other ≠ id) : (r.setJoin id join).joins other = r.joins other := if_neg h

/-- Only the join that was put down last counts. -/
theorem setJoin_setJoin (r : SharedTasks) (tasks : Tasks) (id : Nat) (join join' : Option Join) :
    setJoin ⟨tasks, (r.setJoin id join).joins⟩ id join' = setJoin ⟨tasks, r.joins⟩ id join' := by
  refine congrArg (SharedTasks.mk tasks) (funext fun other => ?_)
  by_cases hother : other = id
  · rw [if_pos hother, if_pos hother]
  · rw [if_neg hother, if_neg hother, joins_setJoin_of_ne r join hother]

theorem setJoin_eq_self {r : SharedTasks} {id : Nat} {join : Option Join}
    (h : r.joins id = join) : r.setJoin id join = r := by
  refine congrArg (SharedTasks.mk r.tasks) (funext fun other => ?_)
  by_cases hother : other = id
  · rw [if_pos hother, hother, h]
  · rw [if_neg hother]

@[simp] theorem tasks_setJoin (r : SharedTasks) (id : Nat) (join : Option Join) :
    (r.setJoin id join).tasks = r.tasks := rfl

end SharedTasks

end Monkey
