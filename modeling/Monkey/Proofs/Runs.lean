import Monkey.Evaluation

/-!
# Running evaluations

Equations for running sequences and bodies, for running the visit that rewriting pays to an
expression inside `quote`, for awaiting tasks, and for evaluating calls of intrinsics, names and
indexes.

## Main results

* `Eval.bind_eq_some_iff` — a sequence ends exactly if both of its parts do.
* `andThen_apply`, `andThen_of_normal`, `andThen_of_abrupt` — where evaluation goes on, and where it
  does not.
* `Eval.onOwnCount_eq_some_iff`, `Eval.joinTask_eq_some_iff`, `Eval.spawn_eq_some` — where tasks and
  joins end.
* `callClosure_eq` — a call, one step after another.
* `run_unquoteVisit_none`, `run_unquoteVisit_some` — what a visit does before and after the first
  error.
* `awaitTask_task_eq` — what awaiting a task does.
* `evaluate_call_intrinsic`, `evaluate_ident` — calling an intrinsic by its name, and the value of a
  name that a scope knows.
* `evaluate_index`, `evaluate_binary` — the value of an index, and of an infix operator.
-/

namespace Monkey

open Eval Machine

/-- The second part of a sequence runs from where the first part ends. -/
theorem Eval.bind_apply {α β : Type} (x : Eval α) (k : α → Eval β) (s : State) :
    (x >>= k) s = (x s).bind fun r => k r.1 r.2 := rfl

/-- A sequence ends exactly if both of its parts do. -/
theorem Eval.bind_eq_some_iff {α β : Type} {x : Eval α} {k : α → Eval β} {s t : State} {b : β} :
    (x >>= k) s = some (b, t) ↔ ∃ a u, x s = some (a, u) ∧ k a u = some (b, t) := by
  rw [Eval.bind_apply, Option.bind_eq_some_iff]
  constructor
  · rintro ⟨⟨a, u⟩, hx, hk⟩
    exact ⟨a, u, hx, hk⟩
  · rintro ⟨a, u, hx, hk⟩
    exact ⟨(a, u), hx, hk⟩

/-- What runs on a count of its own ends where it ends with no call active at first. -/
theorem Eval.onOwnCount_eq_some_iff {α : Type} {x : Eval α} {s t : State} {a : α} :
    onOwnCount x s = some (a, t) ↔
      ∃ u, x { s with callDepth := 0 } = some (a, u) ∧ t = { u with callDepth := s.callDepth } := by
  unfold onOwnCount
  cases x { s with callDepth := 0 } with
  | none =>
    refine iff_of_false (fun h => nomatch h) ?_
    rintro ⟨_, h, _⟩
    cases h
  | some r =>
    obtain ⟨b, u⟩ := r
    constructor
    · intro h
      cases h
      exact ⟨u, rfl, rfl⟩
    · rintro ⟨u, hrun, rfl⟩
      cases hrun
      rfl

theorem Eval.onOwnCount_apply {α : Type} (x : Eval α) (s : State) :
    onOwnCount x s = (x { s with callDepth := 0 }).map fun p =>
      (p.1, { p.2 with callDepth := s.callDepth }) := by
  unfold onOwnCount
  cases x { s with callDepth := 0 } <;> rfl

/-- The count does not matter to what is made of the result. -/
theorem Eval.onOwnCount_map {α β : Type} (x : Eval α) (f : α → β) :
    onOwnCount (x >>= fun a => pure (f a)) = onOwnCount x >>= fun a => pure (f a) := by
  funext s
  rw [bind_apply]
  unfold onOwnCount
  rw [bind_apply]
  cases x { s with callDepth := 0 } <;> rfl

/-- Where a join ends, it has done to the registry what a join does, and gives its reply. -/
theorem Eval.joinTask_eq_some_iff {id : Nat} {s t : State} {found : Option Value} :
    joinTask id s = some (found, t) ↔
      (s.tasks.join id).1 = found.elim .unknown .result ∧
        t = { s with tasks := (s.tasks.join id).2 } := by
  unfold joinTask
  rcases s.tasks.join id with ⟨_ | _ | value, tasks⟩ <;> cases found <;>
    simp [eq_comm]

/-- A task that the host refuses is given up. -/
theorem Eval.spawn_of_refused {id : Nat} {x : Eval Value} {s : State} {reason : String}
    (h : s.spawnFailure id = some reason) :
    Eval.spawn id x s = some (some reason, { s with tasks := (s.tasks.close id).2 }) := by
  unfold Eval.spawn
  rw [bind_apply, askHost, Option.bind_some, h]
  rfl

/-- A task that the host starts runs to its end. -/
theorem Eval.spawn_of_started {id : Nat} {x : Eval Value} {s : State}
    (h : s.spawnFailure id = none) :
    Eval.spawn id x s = (x { s with callDepth := 0 }).map fun p =>
      (none, { p.2 with
        tasks := ((p.2.tasks.send id p.1).2.close id).2, callDepth := s.callDepth }) := by
  unfold Eval.spawn
  rw [bind_apply, askHost, Option.bind_some, h]
  change (onOwnCount x >>= fun v => finishTask id v >>= fun _ => pure none) s = _
  rw [bind_apply, onOwnCount_apply]
  cases x { s with callDepth := 0 } <;> rfl

/-- The host refuses a task, or the task runs to its end. -/
theorem Eval.spawn_eq_some {id : Nat} {x : Eval Value} {s t : State} {refusal : Option String}
    (h : Eval.spawn id x s = some (refusal, t)) :
    (∃ reason, s.spawnFailure id = some reason ∧ refusal = some reason ∧
      t = { s with tasks := (s.tasks.close id).2 }) ∨
    (s.spawnFailure id = none ∧ refusal = none ∧ ∃ v u, onOwnCount x s = some (v, u) ∧
      t = { u with tasks := ((u.tasks.send id v).2.close id).2 }) := by
  obtain ⟨_, _, hask, hrest⟩ := bind_eq_some_iff.1 h
  cases hask
  cases hhost : s.spawnFailure id with
  | some reason =>
    rw [hhost] at hrest
    cases hrest
    exact .inl ⟨reason, rfl, rfl, rfl⟩
  | none =>
    rw [hhost] at hrest
    obtain ⟨v, u, hbody, hfinish⟩ := bind_eq_some_iff.1 hrest
    cases hfinish
    exact .inr ⟨rfl, rfl, v, u, hbody, rfl⟩

/-- A call is permitted if every parameter has an argument and the limit is not reached. -/
theorem Closure.refusal?_eq_none_iff {c : Closure} {args : List Value} {depth limit : Nat} :
    c.refusal? args depth limit = none ↔ c.params.length ≤ args.length ∧ depth < limit := by
  unfold Closure.refusal?
  split
  · exact iff_of_false (fun h => nomatch h) fun h => by omega
  · split
    · exact iff_of_false (fun h => nomatch h) fun h => by omega
    · exact iff_of_true rfl (by omega)

/-- Going on with a value runs from where the value was found, unless that is abrupt. -/
theorem andThen_apply (x : Eval Value) (k : Value → Eval Value) (s : State) :
    andThen x k s = (x s).bind fun r => if r.1.isAbrupt then some r else k r.1 r.2 := by
  rw [andThen, bind_apply]
  congr 1
  funext r
  split <;> rfl

theorem andThen_of_normal {x : Eval Value} {s t : State} {v : Value} (hx : x s = some (v, t))
    (hv : v.isAbrupt = false) (k : Value → Eval Value) : andThen x k s = k v t := by
  rw [andThen_apply, hx, Option.bind_some, hv]
  rfl

theorem andThen_of_abrupt {x : Eval Value} {s t : State} {v : Value} (hx : x s = some (v, t))
    (hv : v.isAbrupt = true) (k : Value → Eval Value) : andThen x k s = some (v, t) := by
  rw [andThen_apply, hx, Option.bind_some, hv]
  rfl

section

universe u

variable {m : Type → Type u} [Monad m] [LawfulMonad m] (eval : Expr → Nat → m Value)

/-- After the first error every expression stays as it is. -/
theorem run_unquoteVisit_some (scope : Nat) (e : Expr) (err : Value) :
    (unquoteVisit eval scope e).run (some err) = pure (e, some err) := by
  simp [unquoteVisit]

/-- Before the first error a call of `unquote` is replaced, and every other expression stays as it
is. -/
theorem run_unquoteVisit_none (scope : Nat) (e : Expr) :
    (unquoteVisit eval scope e).run none =
      match e.unquoted? with
      | none => pure (e, none)
      | some argument => do
        let v ← eval argument scope
        if v.unwrapReturn.isError then return (e, some v.unwrapReturn)
        else return (v.unwrapReturn.toExpr?.getD e, none) := by
  cases h : e.unquoted? with
  | none => simp [unquoteVisit, h]
  | some argument =>
    simp only [unquoteVisit, h, StateT.run_bind, StateT.run_get, pure_bind, StateT.run_monadLift,
      monadLift_self, bind_assoc]
    -- the value decides which of the two answers the visit gives
    refine congrArg _ (funext fun v => ?_)
    split <;> simp

/-- The value of a body with one expression. -/
theorem evalBody_singleton [Machine m] (e : Expr) (scope : Nat) :
    evalBody eval [.expr e] scope = eval e scope := by
  simp only [evalBody, evalBodyFrom, evalStmt, andThen, ite_self, bind_pure]

end

/-- The call of a value is noted and goes on as the value demands. -/
theorem applyValue_eq (eval : Expr → Nat → Eval Value) (callee : Value) (args : List Value)
    (scope : Nat) :
    applyValue eval callee args scope =
      match callee with
      | .function _ c => callClosure eval c args
      | .builtin b => callBuiltin b args
      | .intrinsic i => callIntrinsic eval i args scope
      | callee => raise (.notAFunction callee.type) := rfl

/-- A call, one step after another. -/
theorem callClosure_eq (eval : Expr → Nat → Eval Value) (c : Closure) (args : List Value) :
    callClosure eval c args =
      permit c args >>= fun
        | some e => raise e
        | none => do
          let scope ← newScope (some c.scope)
          setNames scope (c.params.zip args)
          enterCall
          let v ← evalBody eval c.body scope
          leaveCall
          return v.unwrapReturn := by
  refine congrArg (permit c args >>= ·) (funext fun refusal => ?_)
  cases refusal with
  | some e => rfl
  | none =>
    change ((newScope (some c.scope) >>= fun inner =>
      setNames inner (c.params.zip args) >>= fun _ => pure inner) >>= fun inner =>
        (enterCall >>= fun _ => evalBody eval c.body inner >>= fun v =>
          leaveCall >>= fun _ => pure v) >>= fun v => pure v.unwrapReturn) = _
    simp only [bind_assoc, pure_bind]

/-- The start of a task, one step after another. -/
theorem start_eq (x : Eval Value) :
    start x = registerTask >>= fun id =>
      askHost id >>= fun
        | some reason => do
          closeTask id
          raise (.launchFailed reason)
        | none => do
          let v ← onOwnCount x
          finishTask id v.unwrapReturn
          return .task id := by
  refine congrArg (registerTask >>= ·) (funext fun id => ?_)
  change ((askHost id >>= fun
    | some reason => closeTask id >>= fun _ => pure (some reason)
    | none => onOwnCount (x >>= fun v => pure v.unwrapReturn) >>= fun v =>
      finishTask id v >>= fun _ => pure none) >>= _) = _
  rw [bind_assoc]
  -- the host decides, and both ways end as they are written here
  refine congrArg (askHost id >>= ·) (funext fun refusal => ?_)
  cases refusal with
  | some reason => simp only [bind_assoc, pure_bind]
  | none =>
    rw [onOwnCount_map]
    simp only [bind_assoc, pure_bind]

/-- The start of a task by a host that starts it. -/
theorem start_apply (x : Eval Value) {s : State} (hhost : s.spawnFailure s.tasks.nextId = none) :
    start x s = (x { s with tasks := s.tasks.register.2, callDepth := 0 }).map fun p =>
      (.task s.tasks.nextId,
        { p.2 with
          tasks := ((p.2.tasks.send s.tasks.nextId p.1.unwrapReturn).2.close s.tasks.nextId).2
          callDepth := s.callDepth }) := by
  have hask : (askHost s.tasks.nextId) { s with tasks := s.tasks.register.2 } =
      some (none, { s with tasks := s.tasks.register.2 }) := by
    rw [askHost, hhost]
  rw [start_eq, bind_apply]
  change (askHost s.tasks.nextId >>= _) { s with tasks := s.tasks.register.2 } = _
  rw [bind_apply, hask, Option.bind_some]
  change (onOwnCount x >>= _) { s with tasks := s.tasks.register.2 } = _
  rw [bind_apply, onOwnCount_apply]
  cases x { s with tasks := s.tasks.register.2, callDepth := 0 } <;> rfl

/-- What awaiting a task does. -/
theorem awaitTask_task_eq (id : Nat) (s : State) :
    awaitTask (m := Eval) (.task id) s =
      match (s.tasks.join id).1 with
      | .result value => some (value, { s with tasks := (s.tasks.join id).2 })
      | .unknown => raise (m := Eval) (.taskNotFound id) { s with tasks := (s.tasks.join id).2 }
      | .wouldBlock => none := by
  change (joinTask id s).bind _ = _
  unfold joinTask
  rcases s.tasks.join id with ⟨_ | _ | _, tasks⟩ <;> rfl

/-- Calling an intrinsic by its name. -/
theorem evaluate_call_intrinsic (n : Nat) (i : Intrinsic) (e : Expr) (scope : Nat) :
    evaluate (n + 2) (.call (.ident i.name) [e]) scope =
      andThen (evaluate (n + 1) e scope) fun v =>
        callIntrinsic (evaluate (n + 1)) i [v] scope := by
  have hname : evaluate (n + 1) (.ident i.name) scope = pure (.intrinsic i) := by
    rw [evaluate_succ]
    simp only [evalStep, evalName, Intrinsic.ofName?_name]
  have hquote : (Expr.ident i.name).name? ≠ some "quote" := by
    cases i <;> decide
  rw [evaluate_succ]
  simp only [evalStep, if_neg hquote, hname, andThen, evalArgs, pure_bind, bind_assoc,
    Value.isAbrupt]
  refine bind_congr fun v => ?_
  split <;> rfl

/-- The value of a name that a scope knows. -/
theorem evaluate_ident {s : State} {scope : Nat} {name : String} {v : Value}
    (hname : Intrinsic.ofName? name = none) (hfound : s.scopes.find? scope name = some v)
    (n : Nat) :
    evaluate (n + 1) (.ident name) scope s = some (v, s) := by
  rw [evaluate_succ]
  simp only [evalStep, evalName, hname]
  refine bind_eq_some_iff.2 ⟨some v, s, ?_, rfl⟩
  change findName scope name s = _
  rw [findName, hfound]

/-- The value of an index, where both of its parts have values that are not abrupt. -/
theorem evaluate_index {n scope : Nat} {base position : Expr} {s₀ s₁ s₂ : State} {b p : Value}
    (hbase : evaluate n base scope s₀ = some (b, s₁)) (hb : b.isAbrupt = false)
    (hposition : evaluate n position scope s₁ = some (p, s₂)) (hp : p.isAbrupt = false) :
    evaluate (n + 1) (.index base position) scope s₀ =
      some (b.at p s₂.nextAddress, { s₂ with nextAddress := s₂.nextAddress + 1 }) := by
  rw [evaluate_succ, evalStep, andThen_of_normal hbase hb, andThen_of_normal hposition hp]
  rfl

/-- The value of an infix operator, where both of its operands have values that are not abrupt. -/
theorem evaluate_binary {n scope : Nat} (op : InfixOp) {left right : Expr} {s₀ s₁ s₂ : State}
    {a b : Value} (hleft : evaluate n left scope s₀ = some (a, s₁)) (ha : a.isAbrupt = false)
    (hright : evaluate n right scope s₁ = some (b, s₂)) (hb : b.isAbrupt = false) :
    evaluate (n + 1) (.binary op left right) scope s₀ =
      some (op.apply a b s₂.nextAddress, { s₂ with nextAddress := s₂.nextAddress + 1 }) := by
  rw [evaluate_succ, evalStep, andThen_of_normal hleft ha, andThen_of_normal hright hb]
  rfl

end Monkey
