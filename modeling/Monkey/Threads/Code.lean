import Monkey.Evaluation

/-!
# The code of a thread

What a thread has to do, written down as a tree: each action is followed by what is done with its
result.  Evaluating on this machine does nothing yet; it only makes the tree.  The body of a task is
a tree of its own, which is handed to the thread that is started for it.

A tree can be run on the spot, without any other thread, and the tasks to their ends where they are
started.  That is what evaluation does on the machine that changes the state.  A record of such a
run says what was done and in which state it ended.

Every action is marked with the functions in whose bodies it is done.  The marks come from where the
body stands in the evaluator, and not from the count of active calls.

## Main definitions

* `Code` — what a thread has to do; a machine of its own.
* `Label` — what a thread does in one move.
* `Code.run`, `Code.record` — running on the spot, and the record of such a run.
* `Code.finishing` — what the thread of a task has to do.
-/

namespace Monkey

/-- What a thread has to do until it has a result. -/
inductive Code : Type → Type 1
  | pure {α : Type} (a : α) : Code α
  /-- An action, done in the given bodies of functions, of which the innermost one comes first. -/
  | act {α β : Type} (bodies : List Closure) (a : Action β) (k : β → Code α) : Code α
  /-- The start of a task, which the host refuses for a reason or not. -/
  | spawn {α : Type} (bodies : List Closure) (id : Nat) (task : Code Value)
    (k : Option String → Code α) : Code α

/-- What a thread does in one move. -/
inductive Label : Type 1
  | acted {β : Type} (bodies : List Closure) (a : Action β) (b : β)
  | started (bodies : List Closure) (id : Nat)
  | refused (bodies : List Closure) (id : Nat) (reason : String)

namespace Code

variable {α β γ : Type}

/-- Does one thing after another. -/
protected def bind : {α : Type} → Code α → (α → Code β) → Code β
  | _, .pure a, f => f a
  | _, .act bodies a k, f => .act bodies a fun b => (k b).bind f
  | _, .spawn bodies id task k, f => .spawn bodies id task fun r => (k r).bind f

instance : Monad Code where
  pure := Code.pure
  bind := Code.bind

/-- Marks what is done with one more body around it.  The thread of a task is in no body. -/
protected def inBody (c : Closure) : {α : Type} → Code α → Code α
  | _, .pure a => .pure a
  | _, .act bodies a k => .act (bodies ++ [c]) a fun b => (k b).inBody c
  | _, .spawn bodies id task k => .spawn (bodies ++ [c]) id task fun r => (k r).inBody c

/-- Looks a name up scope by scope, in at most as many as given. -/
def lookOutward : (scopes : Nat) → (scope : Nat) → (name : String) → Code (Option Value)
  | 0, _, _ => .pure none
  | n + 1, scope, name => .act [] (.look scope name) fun
    | .inl value => .pure (some value)
    | .inr (some outer) => lookOutward n outer name
    | .inr none => .pure none

/-- Prints line by line. -/
def printEach : List String → Code Unit
  | [] => .pure ()
  | line :: rest => .act [] (.print line) fun _ => printEach rest

/-- The machine on which evaluation writes down what is to be done.  A scope lies inside scopes with
smaller numbers only. -/
instance : Machine Code where
  act a := .act [] a .pure
  noted n x := .act [] (.note n) fun _ => x
  giving x := x.bind fun v => .act [] (.note (.gave v)) fun _ => .pure v
  inBody c x := Code.inBody c x
  find scope name := lookOutward (scope + 1) scope name
  print := printEach
  spawn id task := .spawn [] id task .pure

/-- What the thread of a task has to do: after the task itself it sends the result and closes the
sender. -/
def finishing (id : Nat) (task : Code Value) : Code Unit :=
  task.bind fun v => .act [] (.send id v) fun _ => .act [] (.close id) .pure

/-- Runs on the spot; tasks run to their ends where they are started. -/
def run : {α : Type} → Code α → Eval α
  | _, .pure a => Pure.pure a
  | _, .act _ a k => a.run >>= fun b => (k b).run
  | _, .spawn _ id task k => Eval.spawn id task.run >>= fun r => (k r).run

/-- The record of a run on the spot, with the state after each move, and its end, if it has one. -/
def record : {α : Type} → Code α → State → List (Label × State) × Option (α × State)
  | _, .pure a, s => ([], some (a, s))
  | _, .act bodies a k, s =>
    match a.run s with
    | none => ([], none)
    | some (b, t) =>
      let rest := (k b).record t
      ((.acted bodies a b, t) :: rest.1, rest.2)
  | _, .spawn bodies id task k, s =>
    match s.spawnFailure id with
    | some reason =>
      let t := { s with tasks := (s.tasks.close id).2 }
      let rest := (k (some reason)).record t
      ((.refused bodies id reason, t) :: rest.1, rest.2)
    | none =>
      let body := task.record { s with callDepth := 0 }
      let entries := (.started bodies id, s) :: body.1
      match body.2 with
      | none => (entries, none)
      | some (v, t) =>
        let sent := { t with tasks := (t.tasks.send id v).2, callDepth := s.callDepth }
        let closed := { sent with tasks := (sent.tasks.close id).2 }
        let rest := (k none).record closed
        (entries ++ (.acted [] (.send id v) (), sent) :: (.acted [] (.close id) (), closed) ::
          rest.1, rest.2)

/-- The moves of a run on the spot, each with the state after it. -/
def moves (x : Code α) (s : State) : List (Label × State) := (x.record s).1

/-! ### One thing after another -/

@[simp] theorem pure_eq (a : α) : (Code.pure a : Code α) = Pure.pure a := rfl

@[simp] theorem bind_eq (x : Code α) (f : α → Code β) : x.bind f = x >>= f := rfl

@[simp] theorem act_bind (bodies : List Closure) (a : Action γ) (k : γ → Code α)
    (f : α → Code β) : Code.act bodies a k >>= f = .act bodies a fun b => k b >>= f := rfl

@[simp] theorem spawn_bind (bodies : List Closure) (id : Nat) (task : Code Value)
    (k : Option String → Code α) (f : α → Code β) :
    Code.spawn bodies id task k >>= f = .spawn bodies id task fun r => k r >>= f := rfl

private theorem bind_pure_comp_self (x : Code α) : (x >>= fun a => Code.pure a) = x := by
  induction x with
  | pure a => rfl
  | act bodies a k ih => exact congrArg (Code.act bodies a) (funext ih)
  | spawn bodies id task k _ ih => exact congrArg (Code.spawn bodies id task) (funext ih)

private theorem bind_assoc_self (x : Code α) (f : α → Code β) (g : β → Code γ) :
    x >>= f >>= g = x >>= fun a => f a >>= g := by
  induction x with
  | pure a => rfl
  | act bodies a k ih => exact congrArg (Code.act bodies a) (funext fun b => ih b f)
  | spawn bodies id task k _ ih =>
    exact congrArg (Code.spawn bodies id task) (funext fun r => ih r f)

instance : LawfulMonad Code :=
  LawfulMonad.mk' Code bind_pure_comp_self (fun _ _ => rfl) bind_assoc_self

end Code

end Monkey
