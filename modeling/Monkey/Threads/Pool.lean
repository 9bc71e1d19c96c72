import Monkey.Threads.Code

/-!
# Threads that take turns

A pool has the thread that runs programs and the threads of the tasks that were started.  They share
the scopes, the registry, the output and the addresses, and each counts its own active calls.  A
move is one action of one of them, or its start of a task: then there is one thread more, or the
host has refused it for some reason.  Who moves next is left open, and so is what the host refuses.
A thread whose next action cannot be done, as it awaits a task that still runs, does not move.

## Main definitions

* `Thread`, `Thread.Step` — a thread, and what it does in one move.
* `Pool`, `Pool.Step`, `Pool.Runs` — threads on one state, and what they do in turn.
* `Pool.begin` — the first thread has something new to do, while the tasks go on.
-/

namespace Monkey

/-- What a thread has still to do, and the number of its calls that are active. -/
structure Thread (α : Type) where
  code : Code α
  depth : Nat

/-- The thread of a task.  No call is active in it at first. -/
def Thread.ofTask (id : Nat) (task : Code Value) : Thread Unit := ⟨Code.finishing id task, 0⟩

/-- One move of a thread: what it does to the state, what it is afterwards, and the threads that it
starts. -/
inductive Thread.Step {α : Type} :
    State → Thread α → Label → State → Thread α → List (Thread Unit) → Prop
  | act {s t : State} {β : Type} {bodies : List Closure} {a : Action β} {k : β → Code α}
    {depth : Nat} {b : β} (h : a.run { s with callDepth := depth } = some (b, t)) :
    Step s ⟨.act bodies a k, depth⟩ (.acted bodies a b) { t with callDepth := s.callDepth }
      ⟨k b, t.callDepth⟩ []
  | start (s : State) (bodies : List Closure) (id : Nat) (task : Code Value)
    (k : Option String → Code α) (depth : Nat) :
    Step s ⟨.spawn bodies id task k, depth⟩ (.started bodies id) s ⟨k none, depth⟩
      [.ofTask id task]
  /-- The sender of the task is given up. -/
  | refuse (s : State) (bodies : List Closure) (id : Nat) (task : Code Value)
    (k : Option String → Code α) (depth : Nat) (reason : String) :
    Step s ⟨.spawn bodies id task k, depth⟩ (.refused bodies id reason)
      { s with tasks := (s.tasks.close id).2 } ⟨k (some reason), depth⟩ []

/-- Threads that share a state.  The number of active calls in the state is nobody's. -/
structure Pool (α : Type) where
  state : State
  /-- The thread that runs programs. -/
  main : Thread α
  /-- The threads of tasks, in the order in which they were started. -/
  tasks : List (Thread Unit)

namespace Pool

variable {α β : Type}

/-- One move of one thread, with the place of that thread among those of tasks. -/
inductive Step : Pool α → Option Nat × Label → Pool α → Prop
  | main {s t : State} {m m' : Thread α} {ts new : List (Thread Unit)} {l : Label} :
    Thread.Step s m l t m' new → Step ⟨s, m, ts⟩ (none, l) ⟨t, m', ts ++ new⟩
  | task {s t : State} {m : Thread α} {ts new : List (Thread Unit)} {l : Label} {i : Nat}
    {th th' : Thread Unit} : ts[i]? = some th → Thread.Step s th l t th' new →
    Step ⟨s, m, ts⟩ (some i, l) ⟨t, m, ts.set i th' ++ new⟩

/-- What the threads do, one move after another. -/
inductive Runs : Pool α → List (Option Nat × Label) → Pool α → Prop
  | refl {p : Pool α} : Runs p [] p
  | step {p q r : Pool α} {m : Option Nat × Label} {ms : List (Option Nat × Label)} :
    Step p m q → Runs q ms r → Runs p (m :: ms) r

/-- One thread alone. -/
def alone (s : State) (code : Code α) : Pool α := ⟨s, ⟨code, s.callDepth⟩, []⟩

/-- The first thread is given something to do, while the tasks that were started go on. -/
def begin (p : Pool α) (code : Code β) : Pool β := ⟨p.state, ⟨code, p.main.depth⟩, p.tasks⟩

namespace Runs

variable {p q r : Pool α} {ms ns : List (Option Nat × Label)}

theorem trans (hpq : Runs p ms q) (hqr : Runs q ns r) : Runs p (ms ++ ns) r := by
  induction hpq with
  | refl => exact hqr
  | step hstep _ ih => exact .step hstep (ih hqr)

theorem single {m : Option Nat × Label} (h : Step p m q) : Runs p [m] q := .step h .refl

/-- What every move keeps is kept by a run. -/
theorem preserves {P : Pool α → Prop} (hstep : ∀ {p m q}, Step p m q → P p → P q)
    (h : Runs p ms q) (hp : P p) : P q := by
  induction h with
  | refl => exact hp
  | step hmove _ ih => exact ih (hstep hmove hp)

end Runs

/-- A move of a thread that has others before and behind it. -/
theorem Step.at {s t : State} {new : List (Thread Unit)} {l : Label} {th th' : Thread Unit}
    (h : Thread.Step s th l t th' new) (m : Thread α) (before after : List (Thread Unit)) :
    Step ⟨s, m, before ++ th :: after⟩ (some before.length, l)
      ⟨t, m, before ++ th' :: (after ++ new)⟩ := by
  have hget : (before ++ th :: after)[before.length]? = some th := by simp
  have hstep : Step ⟨s, m, _⟩ _ _ := .task hget h
  rwa [List.set_append_right _ _ (Nat.le_refl _), Nat.sub_self, List.set_cons_zero,
    List.append_assoc, List.cons_append] at hstep

end Pool

end Monkey
