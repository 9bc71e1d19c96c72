import Monkey.Proofs.Frame
import Monkey.Proofs.Onward
import Monkey.Proofs.Simulation

/-!
# Runs that do not depend on each other

A call writes into no scope that was there before it, and nor does a task.  So a later run finds
everything that it can reach as it would have found it without the earlier one; only the numbers of
its own allocations differ, and no text shows them.  A call can therefore be repeated, and two tasks
can run in either order.

## Main definitions

* `State.Untouched` — a later state in which nothing that was there before has changed.
* `Value.Alike` — values of the same type, text and message.
* `taskRun`, `completeTask` — the run of a task, and the run with its result being sent.

## Main results

* `call_repeats` — **a call made again at once ends alike and prints the same.**
* `tasks_commute` — **two tasks end alike and print the same in whatever order they run.**
-/

namespace Monkey

/-! ### States in which nothing has changed -/

/-- The renaming under which a run that starts in the later state `t` allocates what it would have
allocated in `s`. -/
def State.renamingTo (s t : State) : Renaming where
  since := s.extent
  scopesBy := t.scopes.size - s.scopes.size
  addressesBy := t.nextAddress - s.nextAddress

/-- The later state `t` has every scope of `s` as it was, and no task was registered since. -/
structure State.Untouched (s t : State) : Prop where
  onward : s.Onward t
  get?_eq : ∀ {id : Nat}, id < s.scopes.size → t.scopes.get? id = s.scopes.get? id
  registry : t.tasks.Valid
  tasks_eq : t.tasks.nextId = s.tasks.nextId

/-- The same type, text and, of errors, message. -/
structure Value.Alike (v w : Value) : Prop where
  typeName : w.typeName = v.typeName
  inspect : w.inspect = v.inspect
  message? : w.message? = v.message?

theorem Value.alike_rename (ρ : Renaming) (v : Value) : v.Alike (v.rename ρ) :=
  ⟨v.typeName_rename ρ, v.inspect_rename ρ, v.message?_rename ρ⟩

namespace State

variable {s t : State}

/-- A scope that had been created is kept by a renaming of the later ones. -/
theorem Allocated.rename_scope (hs : s.Allocated) {ρ : Renaming} (hρ : ρ.since = s.extent)
    {n : Nat} {scope : Scope} (hget : s.scopes.get? n = some scope) : scope.rename ρ = scope := by
  obtain ⟨bindings, outer⟩ := scope
  have hentry : ∀ entry ∈ bindings, Prod.map id (Value.rename ρ) entry = entry := by
    intro entry hentry
    have hmem : (entry.1, entry.2) ∈ s.scopes.bindings n := by
      simpa only [Scopes.bindings, hget] using hentry
    have hwithin : entry.2.Within ρ.since := hρ ▸ hs.bound hmem
    exact Prod.ext rfl (hwithin.rename_eq ρ)
  have hbindings : bindings.rename ρ = bindings :=
    (List.map_congr_left hentry).trans (List.map_id bindings)
  have houter : outer.map ρ.scope = outer := by
    cases outer with
    | none => rfl
    | some around =>
      -- a scope is created after the one around it
      have hlt : around < s.scopes.size :=
        Nat.lt_trans (s.scopes.outer_lt hget rfl) (Scopes.lt_size_of_get? hget)
      have hsince : around < ρ.since.scopes := hρ ▸ hlt
      rw [Option.map_some, ρ.scope_of_lt hsince]
  simp only [Scope.rename, hbindings, houter]

/-- Where no task was registered, no number was given out for one. -/
theorem Allocated.nextId_eq (hs : s.Allocated) (ht : t.Allocated)
    (hsize : t.tasks.size = s.tasks.size) : t.tasks.nextId = s.tasks.nextId := by
  rw [← ht.registry.size_eq, ← hs.registry.size_eq, hsize]

/-- **A later state in which nothing has changed is a renamed one.** -/
theorem Untouched.renamed (h : s.Untouched t) (hs : s.Allocated) :
    s.Renamed (s.renamingTo t) t where
  since_le := Extent.le_refl _
  scopes_eq := by
    have hle : s.scopes.size ≤ t.scopes.size := h.onward.extent_le.1
    simp only [renamingTo]
    omega
  addresses_eq := by
    have hle : s.nextAddress ≤ t.nextAddress := h.onward.extent_le.2.1
    simp only [renamingTo]
    omega
  registry := hs.registry
  registry' := h.registry
  tasks_eq := h.tasks_eq
  get?_scopes id := by
    by_cases hid : id < s.scopes.size
    · have hsince : id < (s.renamingTo t).since.scopes := hid
      rw [Renaming.scope_of_lt _ hsince, h.get?_eq hid]
      cases hget : s.scopes.get? id with
      | none => rfl
      | some scope => rw [Option.map_some, hs.rename_scope rfl hget]
    · -- neither state has a scope of this number
      have hle : s.scopes.size ≤ id := Nat.le_of_not_lt hid
      have hsince : (s.renamingTo t).since.scopes ≤ id := hle
      have hle' : t.scopes.size ≤ id + (s.renamingTo t).scopesBy := by
        simp only [renamingTo]
        omega
      rw [Renaming.scope_of_le _ hsince, t.scopes.get?_of_size_le hle',
        s.scopes.get?_of_size_le hle]
      rfl
  get?_tasks id hid := by
    have hle : s.tasks.nextId ≤ id := hid
    rw [h.registry.get?_eq_none (h.tasks_eq ▸ hle), hs.registry.get?_eq_none hle]
    rfl
  answer? hv := by
    have hwithin : Value.Within (s.renamingTo t).since _ := hs.answer? hv
    rw [hwithin.rename_eq]
    exact h.onward.answer? hv
  callDepth_eq := h.onward.callDepth_eq
  maxCallDepth_eq := h.onward.maxCallDepth_eq
  spawnFailure_eq := h.onward.spawnFailure_eq

end State

/-- What a run prints, it prints in a later state in which nothing has changed as well, and it ends
alike: what it allocates there is moved to where that state goes on. -/
theorem Eval.Follows.again {x y : Eval Value} {s t s' : State} {v : Value}
    (hxy : Eval.Follows (s.renamingTo t) (Value.Matches (s.renamingTo t).matching) x y)
    (hs : s.Allocated) (hst : s.Untouched t) (hrun : x s = some (v, s')) :
    ∃ t', y t = some (v.rename (s.renamingTo t), t') ∧
      ∃ lines, s'.output = s.output.printLines lines ∧ t'.output = t.output.printLines lines := by
  obtain ⟨w, t', lines, hy, hvw, -, hout, hout'⟩ := hxy s t v s' (hst.renamed hs) hrun
  rw [hvw.eq_rename] at hy
  exact ⟨t', hy, lines, hout, hout'⟩

/-! ### Calls -/

section

variable {s t : State} {callee v : Value} {args : List Value} {budget scope : Nat}

/-- A call that registers no task leaves everything that was there before as it was. -/
theorem applyValue_untouched (hs : s.Allocated) (hargs : ∀ v ∈ args, v.Within s.extent)
    (hcall : applyValue (evaluate budget) callee args scope s = some (v, t))
    (hlaunch : t.tasks.size = s.tasks.size) : s.Untouched t := by
  obtain ⟨honward, ht, -⟩ :=
    applyValue_allocates (evaluate_allocates budget) callee hargs s v t (Extent.le_refl _) hs hcall
  have hwrites := applyValue_writesOnly (evaluate_writesOnly budget) callee args scope s v t hcall
  exact ⟨honward, fun hid => hwrites.get?_eq hid not_false, ht.registry,
    hs.nextId_eq ht hlaunch⟩

end

/-- **Function calls are repeatable.**  Let a call of a function end, from any state whose values
mention only what was allocated, without starting a task.  The same call made again at once ends
too, with a value of the same type, text and, if it is an error, message, and it prints the same
lines.  All that the first call allocated the second one allocates anew. -/
theorem call_repeats {s t : State} (hs : s.Allocated) {addr : Nat} {c : Closure}
    (hf : (Value.function addr c).Within s.extent) {args : List Value}
    (hargs : ∀ v ∈ args, v.Within s.extent) {budget scope : Nat} {v : Value}
    (hcall : applyValue (evaluate budget) (.function addr c) args scope s = some (v, t))
    (hlaunch : t.tasks.size = s.tasks.size) :
    ∃ w u, applyValue (evaluate budget) (.function addr c) args scope t = some (w, u) ∧
      v.Alike w ∧ w = v.rename (s.renamingTo t) ∧
      ∃ lines, t.output = s.output.printLines lines ∧ u.output = t.output.printLines lines := by
  have hst := applyValue_untouched hs hargs hcall hlaunch
  have hfollows := Comparison.applyValue (C := (s.renamingTo t).comparison) (w := ())
    ((s.renamingTo t).comparison.evaluateOn budget) (Value.function addr c).matches_rename
    (allMatch_rename args) (a := scope) rfl
  obtain ⟨u, hagain, hlines⟩ := hfollows.again hs hst hcall
  -- the function and its arguments were there before the first call
  have hf' : (Value.function addr c).rename (s.renamingTo t) = .function addr c :=
    Value.Within.rename_eq (s.renamingTo t) hf
  have hargs' : args.map (Value.rename (s.renamingTo t)) = args :=
    (List.map_congr_left fun w hw => (hargs w hw).rename_eq (s.renamingTo t)).trans
      (List.map_id args)
  rw [hf', renameAll_eq_map, hargs'] at hagain
  exact ⟨_, u, hagain, v.alike_rename _, rfl, hlines⟩

/-- A state in which a scope binds `base` to an array, one address more was given out, and two tasks
are to be run. -/
def sharedArrayState : State :=
  { State.start 10 .empty with
    scopes := (Scopes.empty.add none).set 0 "base" (.array 0 [.integer 1])
    nextAddress := 2
    tasks := Tasks.empty.register.2.register.2 }

theorem sharedArrayState_allocated : sharedArrayState.Allocated where
  registry := Tasks.valid_empty.register.register
  bound {id name v} hmem := by
    cases id with
    | zero =>
      change (name, v) ∈ [("base", .array 0 [.integer 1])] at hmem
      cases List.mem_singleton.1 hmem
      exact ⟨by decide, trivial, trivial⟩
    | succ n => cases hmem
  result {id state v} hget hv := by
    -- both tasks were registered, and neither has sent a result
    rcases Tasks.get?_of_register hget with rfl | hget
    · cases hv
    · rcases Tasks.get?_of_register hget with rfl | hget
      · cases hv
      · rw [Tasks.valid_empty.get?_eq_none (Nat.zero_le id)] at hget
        cases hget

/-- The function `fn(x) { puts(x == base, [x] == base); [x, fn() { base }] }`. -/
def comparingFunction : Value :=
  .function 1 ⟨["x"], [
    .expr (.call (.ident "puts") [.binary .eq (.ident "x") (.ident "base"),
      .binary .eq (.array [.ident "x"]) (.ident "base")]),
    .expr (.array [.ident "x", .fn [] [.expr (.ident "base")]])], 0⟩

/-- A function that compares arrays and makes new ones can be called twice. -/
theorem call_repeats_comparing : ∃ v t w u,
    applyValue (evaluate 5) comparingFunction [.array 0 [.integer 1]] 0 sharedArrayState =
      some (v, t) ∧
    applyValue (evaluate 5) comparingFunction [.array 0 [.integer 1]] 0 t = some (w, u) ∧
    v.Alike w ∧
    ∃ lines, t.output = sharedArrayState.output.printLines lines ∧
      u.output = t.output.printLines lines := by
  have hrun : (applyValue (evaluate 5) comparingFunction [.array 0 [.integer 1]] 0
      sharedArrayState).map (fun p => p.2.tasks.size) = some 2 := by decide +kernel
  obtain ⟨⟨v, t⟩, hcall, hsize⟩ := Option.map_eq_some_iff.1 hrun
  -- the function and its argument lie in the state
  have hf : comparingFunction.Within sharedArrayState.extent := ⟨by decide, by decide⟩
  have hargs : ∀ w ∈ [Value.array 0 [.integer 1]], w.Within sharedArrayState.extent := by
    intro w hw
    cases List.mem_singleton.1 hw
    exact ⟨by decide, trivial, trivial⟩
  obtain ⟨w, u, hagain, halike, -, hlines⟩ :=
    call_repeats sharedArrayState_allocated hf hargs hcall hsize
  exact ⟨v, t, w, u, hcall, hagain, halike, hlines⟩

/-! ### Tasks -/

section

variable (eval : Expr → Nat → Eval Value)

open Eval

/-- The run of a task: the body of its function in a new scope inside that of the caller, with no
call active. -/
def taskRun (c : Closure) (scope : Nat) : Eval Value := do
  let inner ← newScope (some scope)
  let v ← onOwnCount (evalBody eval c.body inner)
  return v.unwrapReturn

/-- The run of the task of a given number to its end, its result being sent. -/
def completeTask (id : Nat) (c : Closure) (scope : Nat) : Eval Value := do
  let result ← taskRun eval c scope
  finishTask id result
  return result

/-- Launching a function registers a task and completes it, if the host starts its thread. -/
theorem launch_function_eq (addr : Nat) (c : Closure) (scope : Nat) :
    launch eval (.function addr c) scope = do
      let id ← registerTask
      match ← askHost id with
      | some reason => do
        let _ ← newScope (some scope)
        closeTask id
        Machine.raise (.launchFailed reason)
      | none => do
        let _ ← completeTask eval id c scope
        return .task id := by
  change (newScope (some scope) >>= fun inner => Machine.start (evalBody eval c.body inner)) = _
  funext s
  simp only [start_eq, bind_apply, registerTask, askHost, newScope, Option.bind_some]
  cases s.spawnFailure s.tasks.register.1 with
  | some reason => rfl
  | none =>
    simp only [completeTask, taskRun, bind_assoc, pure_bind]
    rfl

end

section

variable {s t : State} {f : Closure} {id budget scope : Nat} {v : Value}

/-- A task writes into no scope that was there before it. -/
theorem completeTask_writesOnly (budget id : Nat) (f : Closure) (scope : Nat) :
    Eval.WritesOnly noScope (completeTask (evaluate budget) id f scope) := by
  have hrun : Eval.WritesOnly noScope (taskRun (evaluate budget) f scope) :=
    newScope_bind_writesNone fun inner =>
      .bind (evalBody_writesOnly (evaluate_writesOnly budget) f.body inner).onOwnCount fun _ =>
        .pure _
  exact .bind hrun fun _ => .bind (.of_step fun _ => rfl) fun _ => .pure _

theorem taskRun_allocates (budget : Nat) (a : Extent) (f : Closure) (scope : Nat) :
    Eval.Allocates a Value.Within (taskRun (evaluate budget) f scope) :=
  .bind (.newScope _) fun _ _ _ hinner =>
    .bind (evalBody_allocates (evaluate_allocates budget) f.body hinner).onOwnCount fun _ _ _ hv =>
      .pure fun _ hbc => hv.unwrapReturn.mono hbc

theorem taskRun_follows (ρ : Renaming) (budget : Nat) (f : Closure) (scope : Nat) :
    Eval.Follows ρ (Value.Matches ρ.matching) (taskRun (evaluate budget) f scope)
      (taskRun (evaluate budget) f (ρ.scope scope)) :=
  .bind (.newScope rfl) fun _ _ hinner =>
    .bind (Comparison.evalBody (C := ρ.comparison) (w := ()) (ρ.comparison.evaluateOn budget) f.body
      hinner).onOwnCount fun _ _ hv => .pure hv.unwrapReturn

/-- A task that registers no other leaves everything that was there before as it was. -/
theorem completeTask_untouched (hs : s.Allocated)
    (hrun : completeTask (evaluate budget) id f scope s = some (v, t))
    (hlaunch : t.tasks.size = s.tasks.size) : s.Untouched t := by
  have hallocates : Eval.Allocates s.extent Value.Within
      (completeTask (evaluate budget) id f scope) :=
    .bind (taskRun_allocates budget _ f scope) fun _ _ _ hv =>
      .bind (.finishTask id hv) fun _ _ hbc _ => .pure fun _ hcd => (hv.mono hbc).mono hcd
  obtain ⟨honward, ht, -⟩ := hallocates s v t (Extent.le_refl _) hs hrun
  have hwrites := completeTask_writesOnly budget id f scope s v t hrun
  exact ⟨honward, fun hid => hwrites.get?_eq hid not_false, ht.registry, hs.nextId_eq ht hlaunch⟩

/-- A task completed in a later state in which nothing has changed ends alike. -/
theorem completeTask_again (hs : s.Allocated) (hscope : scope < s.scopes.size)
    (hst : s.Untouched t) {s' : State}
    (hrun : completeTask (evaluate budget) id f scope s = some (v, s')) :
    ∃ w t', completeTask (evaluate budget) id f scope t = some (w, t') ∧ v.Alike w ∧
      ∃ lines, s'.output = s.output.printLines lines ∧ t'.output = t.output.printLines lines := by
  obtain ⟨result, u, hbody, hrest⟩ := Eval.bind_eq_some_iff.1 hrun
  cases hrest
  have hkept : (s.renamingTo t).scope scope = scope :=
    Renaming.scope_of_lt _ (show scope < (s.renamingTo t).since.scopes from hscope)
  have hfollows := taskRun_follows (s.renamingTo t) budget f scope
  rw [hkept] at hfollows
  obtain ⟨u', hbody', hlines⟩ := hfollows.again hs hst hbody
  -- sending the result prints nothing
  exact ⟨_, _, Eval.bind_eq_some_iff.2 ⟨_, u', hbody', rfl⟩, v.alike_rename _, hlines⟩

end

/-- **The order in which two tasks run does not matter.**  Let the tasks of two functions, launched
from one scope, each run to its end from a state whose values mention only what was allocated,
without starting a further task.  Then each of them also runs to its end after the other one.  In
both orders each task gives a value of the same type, text and, if it is an error, message, and
prints the same lines; and every scope that was there before is as it was. -/
theorem tasks_commute {s : State} (hs : s.Allocated) {scope : Nat}
    (hscope : scope < s.scopes.size) {f g : Closure} {i j budget budget' : Nat} {v w : Value}
    {afterF afterG : State}
    (hf : completeTask (evaluate budget) i f scope s = some (v, afterF))
    (hg : completeTask (evaluate budget') j g scope s = some (w, afterG))
    (hlaunchF : afterF.tasks.size = s.tasks.size) (hlaunchG : afterG.tasks.size = s.tasks.size) :
    ∃ v' w' afterFG afterGF,
      completeTask (evaluate budget') j g scope afterF = some (w', afterFG) ∧
      completeTask (evaluate budget) i f scope afterG = some (v', afterGF) ∧
      v.Alike v' ∧ w.Alike w' ∧
      (∃ lines, afterF.output = s.output.printLines lines ∧
        afterGF.output = afterG.output.printLines lines) ∧
      (∃ lines, afterG.output = s.output.printLines lines ∧
        afterFG.output = afterF.output.printLines lines) ∧
      ∀ n, n < s.scopes.size → afterFG.scopes.get? n = s.scopes.get? n ∧
        afterGF.scopes.get? n = s.scopes.get? n := by
  -- neither task touches what there was, so that the other one does the same after it as before
  have hsF := completeTask_untouched hs hf hlaunchF
  have hsG := completeTask_untouched hs hg hlaunchG
  obtain ⟨v', afterGF, hf', hv, hlines⟩ := completeTask_again hs hscope hsG hf
  obtain ⟨w', afterFG, hg', hw, hlines'⟩ := completeTask_again hs hscope hsF hg
  refine ⟨v', w', afterFG, afterGF, hg', hf', hv, hw, hlines, hlines', fun n hn => ⟨?_, ?_⟩⟩
  · have hn' : n < afterF.scopes.size := Nat.lt_of_lt_of_le hn hsF.onward.extent_le.1
    have hgrown := completeTask_writesOnly budget' j g scope afterF w' afterFG hg'
    rw [hgrown.get?_eq hn' not_false, hsF.get?_eq hn]
  · have hn' : n < afterG.scopes.size := Nat.lt_of_lt_of_le hn hsG.onward.extent_le.1
    have hgrown := completeTask_writesOnly budget i f scope afterG v' afterGF hf'
    rw [hgrown.get?_eq hn' not_false, hsG.get?_eq hn]

/-- The function `fn() { puts(base); base }`. -/
def readingFunction : Closure :=
  ⟨[], [.expr (.call (.ident "puts") [.ident "base"]), .expr (.ident "base")], 0⟩

/-- The function `fn() { let base = [base]; puts(base); return base; }`. -/
def rebindingFunction : Closure :=
  ⟨[], [.letBe "base" (.array [.ident "base"]), .expr (.call (.ident "puts") [.ident "base"]),
    .ret (.ident "base")], 0⟩

/-- A task that rebinds a name of the scope around it does not disturb one that reads the name. -/
theorem tasks_commute_rebinding : ∃ v w afterF afterG v' w' afterFG afterGF,
    completeTask (evaluate 5) 0 readingFunction 0 sharedArrayState = some (v, afterF) ∧
    completeTask (evaluate 5) 1 rebindingFunction 0 sharedArrayState = some (w, afterG) ∧
    completeTask (evaluate 5) 1 rebindingFunction 0 afterF = some (w', afterFG) ∧
    completeTask (evaluate 5) 0 readingFunction 0 afterG = some (v', afterGF) ∧
    v.Alike v' ∧ w.Alike w' ∧
    afterFG.scopes.get? 0 = sharedArrayState.scopes.get? 0 ∧
    afterGF.scopes.get? 0 = sharedArrayState.scopes.get? 0 := by
  have hrunF : (completeTask (evaluate 5) 0 readingFunction 0 sharedArrayState).map
      (fun p => p.2.tasks.size) = some 2 := by decide +kernel
  have hrunG : (completeTask (evaluate 5) 1 rebindingFunction 0 sharedArrayState).map
      (fun p => p.2.tasks.size) = some 2 := by decide +kernel
  obtain ⟨⟨v, afterF⟩, hf, hsizeF⟩ := Option.map_eq_some_iff.1 hrunF
  obtain ⟨⟨w, afterG⟩, hg, hsizeG⟩ := Option.map_eq_some_iff.1 hrunG
  obtain ⟨v', w', afterFG, afterGF, hg', hf', hv, hw, -, -, hscopes⟩ :=
    tasks_commute sharedArrayState_allocated (by decide) hf hg hsizeF hsizeG
  have hkept := hscopes 0 (by decide)
  exact ⟨v, w, afterF, afterG, v', w', afterFG, afterGF, hf, hg, hg', hf', hv, hw, hkept.1,
    hkept.2⟩

end Monkey
