import Monkey.Proofs.Expanding
import Monkey.Threads.Pool

/-!
# Code that runs on the spot

Code that was written down and is then run on the spot does what evaluation does that changes the
state at once.  Of the runs of a pool it is the one in which every task runs to its end as soon as
it is started, if the host starts it, and nobody else gets a turn meanwhile.

## Main definitions

* `spot` — the code of an evaluation, run on the spot, compares with the evaluation.
* `Pool.Finishes` — code that the thread of a task can run on the spot.

## Main results

* `run_evaluateOn`, `run_runProgramOn`, `run_expandMacros` — **running the code of an evaluation on
  the spot is evaluating.**
* `Pool.runs_of_run` — **running on the spot is a run of a pool.**
-/

namespace Monkey

open Machine

/-! ### Code and evaluation -/

namespace Code

variable {α β : Type}

@[simp] theorem run_bind (x : Code α) (f : α → Code β) :
    (x >>= f).run = x.run >>= fun a => (f a).run := by
  induction x with
  | pure a => exact (pure_bind a fun a => (f a).run).symm
  | act bodies a k ih =>
    change a.run >>= (fun b => (k b >>= f).run) = (a.run >>= fun b => (k b).run) >>= _
    rw [bind_assoc]
    exact congrArg _ (funext fun b => ih b f)
  | spawn bodies id task k _ ih =>
    change Eval.spawn id task.run >>= (fun r => (k r >>= f).run) =
      (Eval.spawn id task.run >>= fun r => (k r).run) >>= _
    rw [bind_assoc]
    exact congrArg _ (funext fun r => ih r f)

/-- The functions around do not matter to what is done. -/
@[simp] theorem run_inBody (c : Closure) (x : Code α) : (x.inBody c).run = x.run := by
  induction x with
  | pure a => rfl
  | act bodies a k ih => exact congrArg (a.run >>= ·) (funext ih)
  | spawn bodies id task k _ ih => exact congrArg (Eval.spawn id task.run >>= ·) (funext ih)

@[simp] theorem run_act {γ : Type} (a : Action γ) : (Machine.act a : Code γ).run = a.run :=
  bind_pure a.run

/-- Nothing is between two lookups, so that looking outwards scope by scope is one lookup. -/
theorem run_lookOutward (name : String) : ∀ (n scope : Nat), scope < n →
    (lookOutward n scope name).run = Eval.findName scope name := by
  intro n
  induction n with
  | zero => exact fun scope h => absurd h (Nat.not_lt_zero scope)
  | succ n ih =>
    intro scope hscope
    funext s
    have hlook : (Action.look scope name).run s = some (s.scopes.look scope name, s) := rfl
    change _ = some (s.scopes.find? scope name, s)
    rw [lookOutward, run, Eval.bind_apply, hlook, Option.bind_some, Scopes.look,
      Scopes.find?_eq_or]
    cases (s.scopes.bindings scope).find? name with
    | some value => rfl
    | none =>
      cases houter : s.scopes.outer? scope with
      | none => rfl
      | some outer =>
        -- scopes lie in earlier ones, so that the number suffices for all of them
        have hlt : outer < scope := s.scopes.outer?_lt houter
        rw [ih outer (by omega)]
        rfl

/-- Nothing is printed between the lines. -/
theorem run_printEach (lines : List String) : (printEach lines).run = Eval.printLines lines := by
  induction lines with
  | nil => rfl
  | cons line rest ih =>
    change (Eval.printLines [line] >>= fun _ => (printEach rest).run) = _
    rw [ih]
    rfl

end Code

namespace Eval

variable {α β γ δ : Type}

/-- Both evaluations end in the same state, with related results, or neither ends. -/
def Same (Q : α → β → Prop) (x : Eval α) (y : Eval β) : Prop :=
  ∀ s, Option.Rel (fun p q => Q p.1 q.1 ∧ p.2 = q.2) (x s) (y s)

namespace Same

variable {P : α → β → Prop} {Q : γ → δ → Prop}

theorem pure {a : α} {b : β} (h : P a b) : Same P (pure a) (pure b) := fun _ => .some ⟨h, rfl⟩

theorem bind {x : Eval α} {y : Eval β} {k : α → Eval γ} {l : β → Eval δ} (hxy : Same P x y)
    (hkl : ∀ a b, P a b → Same Q (k a) (l b)) : Same Q (x >>= k) (y >>= l) := by
  intro s
  have hs := hxy s
  rw [bind_apply, bind_apply]
  generalize x s = r, y s = r' at hs
  cases hs with
  | none => exact .none
  | @some p q hpq =>
    obtain ⟨a, t⟩ := p
    obtain ⟨b, u⟩ := q
    obtain ⟨hab, rfl⟩ := hpq
    exact hkl a b hab t

theorem of_eq {R : α → α → Prop} {x y : Eval α} (h : x = y) (hR : ∀ a, R a a) : Same R x y := by
  subst h
  intro s
  cases x s with
  | none => exact .none
  | some r => exact .some ⟨hR r.1, rfl⟩

/-- Where only equal results are related, the evaluations are equal. -/
theorem eq {R : α → α → Prop} {x y : Eval α} (h : Same R x y) (hR : ∀ a b, R a b → a = b) :
    x = y := by
  funext s
  have hs := h s
  generalize x s = r, y s = r' at hs
  cases hs with
  | none => rfl
  | some hpq => exact congrArg some (Prod.ext (hR _ _ hpq.1) hpq.2)

end Same

end Eval

open Eval (Same)

/-- Code that is run on the spot corresponds to evaluation.  Only equal things match. -/
def spotwise : Correspondence Unit Code Eval where
  toKnowledge := .identity
  Runs _ Q x y := Same (Q ()) x.run y
  pure := .pure
  bind hxy hkl := by
    rw [Code.run_bind]
    exact .bind hxy fun a b hab => hkl () a b (le_refl _) hab
  noted _ := id
  giving {_ _ y} h := by
    change Same _ (Code.run (_ >>= _)) y
    rw [Code.run_bind, ← bind_pure y]
    exact .bind h fun _ _ hv => .pure hv
  stuck := by
    intro w Q s
    exact .none
  fresh := .of_eq (Code.run_act _) fun _ => rfl
  newScope hab := by
    cases hab
    exact .of_eq (Code.run_act _) fun _ => rfl
  setName name hab hv := by
    cases hab
    cases hv.eq
    exact .of_eq (Code.run_act _) fun _ => trivial
  find _ hab := by
    cases hab
    exact .of_eq (Code.run_lookOutward _ _ _ (Nat.lt_succ_self _)) foundMatch_refl
  printed f hvs := by
    cases allMatch_eq hvs
    exact .of_eq (Code.run_printEach _) fun _ => trivial
  await hab := by
    cases hab
    change Same _ (Code.run (Machine.act (.join _) >>= _)) (Eval.joinTask _ >>= _)
    rw [Code.run_bind, Code.run_act]
    refine .bind (P := Eq) (.of_eq rfl fun _ => rfl) fun found _ hfound => ?_
    cases hfound
    cases found with
    | some v => exact .pure (.refl v)
    | none => exact .of_eq rfl Value.Matches.refl

open Correspondence in
/-- The code of an evaluation, run on the spot, compares with the evaluation. -/
def spot : Comparison Unit Code Eval where
  toCorrespondence := spotwise
  call hcd hvs hxy hkl := by
    refine call_of_steps (fun {_ c d vs ws} hcd hvs => ?_) (fun {_ c d x y} _ hxy => ?_) hcd hvs
      (fun _ _ => hxy) hkl
    · cases hcd.eq
      cases allMatch_eq hvs
      exact Same.of_eq (Code.run_act _) fun _ => rfl
    · change Same _ (Code.run (Machine.act .enterCall >>= fun _ =>
        Code.inBody c (x >>= fun a => Machine.act .leaveCall >>= fun _ => pure a))) _
      rw [Code.run_bind, Code.run_act, Code.run_inBody, Code.run_bind]
      refine .bind (P := Eq) (.of_eq rfl fun _ => rfl) fun _ _ _ => .bind hxy fun a b hab => ?_
      rw [Code.run_bind, Code.run_act]
      exact .bind (P := Eq) (.of_eq rfl fun _ => rfl) fun _ _ _ => .pure hab
  start := start_of_steps (C := spotwise) (Same.of_eq (Code.run_act _) fun _ => rfl)
    fun {_ id _ x y} hid hxy => by
      cases hid
      have heq : x.run = y := Same.eq hxy fun _ _ => Value.Matches.eq
      subst heq
      exact Same.of_eq (bind_pure (Eval.spawn id x.run)) fun _ => rfl

namespace Code

variable (budget scope : Nat)

/-- **Running the code of an evaluation on the spot is evaluating.** -/
theorem run_evaluateOn (e : Expr) :
    (evaluateOn Code budget e scope).run = evaluate budget e scope :=
  Same.eq (spot.evaluateOn budget (w := ()) e rfl) fun _ _ => Value.Matches.eq

theorem run_evalStmt (st : Stmt) : (evalStmt (evaluateOn Code budget) st scope).run =
    evalStmt (evaluate budget) st scope :=
  Same.eq (Comparison.evalStmt (spot.evaluateOn budget) st (w := ()) rfl) fun _ _ =>
    Value.Matches.eq

theorem run_evalBody (body : Block) : (evalBody (evaluateOn Code budget) body scope).run =
    evalBody (evaluate budget) body scope :=
  Same.eq (Comparison.evalBody (spot.evaluateOn budget) body (w := ()) rfl) fun _ _ =>
    Value.Matches.eq

theorem run_evalArgs (args : List Expr) : (evalArgs (evaluateOn Code budget) scope args).run =
    evalArgs (evaluate budget) scope args :=
  Same.eq (Comparison.evalArgs (spot.evaluateOn budget) args (w := ()) rfl) fun _ _ hparts =>
    hparts.eq fun _ _ => allMatch_eq

theorem run_evalPairs (pairs : List (Expr × Expr)) :
    (evalPairs (evaluateOn Code budget) scope [] pairs).run =
      evalPairs (evaluate budget) scope [] pairs :=
  Same.eq (Comparison.evalPairs (spot.evaluateOn budget) pairs (w := ()) rfl .nil)
    fun _ _ hparts => hparts.eq fun _ _ => entriesMatch_eq

/-- **So is that of a program.** -/
theorem run_runProgramOn (program : Program) :
    (runProgramOn Code budget program scope).run = runProgram budget program scope :=
  Same.eq (spot.runProgramOn budget program (w := ()) rfl) fun _ _ => Value.Matches.eq

/-- So is that of definitions of macros. -/
theorem run_bindMacros (definitions : List MacroDefinition) :
    (bindMacros scope definitions : Code Unit).run = bindMacros scope definitions :=
  Same.eq (Comparison.bindMacros (C := spot) definitions (w := ()) rfl) fun _ _ _ => rfl

/-- **So is that of the expansion of macros.** -/
theorem run_expandMacros (p : Program) :
    (expandMacros (evaluateOn Code budget) scope p).run =
      expandMacros (evaluate budget) scope p := by
  have hfind : spot.FindsMacros scope scope := fun _ name _ =>
    Same.of_eq (run_lookOutward name _ _ (Nat.lt_succ_self _)) foundMatch_refl
  exact Same.eq (spot.expandMacros (spot.evaluateOn budget) hfind (w := ()) rfl p) fun _ _ => id

end Code

/-! ### Running on the spot is a run of a pool -/

namespace Code

variable {α β : Type} {s t : State} {bodies : List Closure} {id : Nat}

/-- What is done in a run on the spot, one move after another. -/
def labels (x : Code α) (s : State) : List Label := (x.moves s).map Prod.fst

/-- The record of a run has the end of the run, if it has one. -/
theorem record_snd (x : Code α) : ∀ s, (x.record s).2 = x.run s := by
  induction x with
  | pure a => exact fun _ => rfl
  | act bodies a k ih =>
    intro s
    change _ = (a.run >>= fun b => (k b).run) s
    rw [record, Eval.bind_apply]
    cases a.run s with
    | none => rfl
    | some r => exact ih r.1 r.2
  | spawn bodies id task k htask ih =>
    intro s
    change _ = (Eval.spawn id task.run >>= fun r => (k r).run) s
    rw [record, Eval.bind_apply]
    -- the record asks the host as the run does
    cases hhost : s.spawnFailure id with
    | some reason =>
      rw [Eval.spawn_of_refused hhost]
      exact ih (some reason) _
    | none =>
      rw [Eval.spawn_of_started hhost]
      dsimp only
      rw [htask]
      cases task.run { s with callDepth := 0 } with
      | none => rfl
      | some r => exact ih none _

theorem labels_act {a : Action β} {k : β → Code α} {b : β} (h : a.run s = some (b, t)) :
    (Code.act bodies a k).labels s = .acted bodies a b :: (k b).labels t := by
  unfold labels moves
  rw [record, h]
  rfl

theorem labels_spawn_of_refused {task : Code Value} {k : Option String → Code α} {reason : String}
    (h : s.spawnFailure id = some reason) : (Code.spawn bodies id task k).labels s =
      .refused bodies id reason ::
        (k (some reason)).labels { s with tasks := (s.tasks.close id).2 } := by
  unfold labels moves
  rw [record, h]
  rfl

/-- A task that is started does what it has to do before its caller goes on. -/
theorem labels_spawn_of_started {task : Code Value} {k : Option String → Code α} {v : Value}
    (h : s.spawnFailure id = none) (hrun : task.run { s with callDepth := 0 } = some (v, t)) :
    (Code.spawn bodies id task k).labels s =
      .started bodies id :: (task.labels { s with callDepth := 0 } ++
        .acted [] (.send id v) () :: .acted [] (.close id) () :: (k none).labels
          { t with tasks := ((t.tasks.send id v).2.close id).2, callDepth := s.callDepth }) := by
  unfold labels moves
  rw [record, h]
  dsimp only
  rw [record_snd, hrun]
  simp only [List.cons_append, List.map_cons, List.map_append]

end Code

namespace Pool

variable {α : Type}

/-- Whatever comes after it, the thread of a task can do this without turns of threads that were
there before, if it comes to an end on the spot. -/
def Finishes {γ : Type} (x : Code γ) : Prop :=
  ∀ (α : Type) (s t : State) (c : γ), x.run s = some (c, t) →
    ∀ (m : Thread α) (before after : List (Thread Unit)) (f : γ → Code Unit) (idle : Nat),
      ∃ ms new, ms.map Prod.snd = x.labels s ∧
        Runs ⟨{ s with callDepth := idle }, m, before ++ ⟨x >>= f, s.callDepth⟩ :: after⟩ ms
          ⟨{ t with callDepth := idle }, m, before ++ ⟨f c, t.callDepth⟩ :: (after ++ new)⟩

/-- A task that was started last runs to its end. -/
theorem Finishes.started {task : Code Value} (h : Finishes task) {s t : State} {v : Value}
    (hrun : task.run { s with callDepth := 0 } = some (v, t)) (id idle : Nat) (m : Thread α)
    (ts : List (Thread Unit)) :
    ∃ ms new, ms.map Prod.snd = task.labels { s with callDepth := 0 } ++
        [.acted [] (.send id v) (), .acted [] (.close id) ()] ∧
      Runs ⟨{ s with callDepth := idle }, m, ts ++ [.ofTask id task]⟩ ms
        ⟨{ t with tasks := ((t.tasks.send id v).2.close id).2, callDepth := idle }, m,
          ts ++ new⟩ := by
  obtain ⟨ms, new, hlabels, hruns⟩ := h α _ t v hrun m ts [] _ idle
  -- what is left is to send the result and to close the sender
  have hsend : Thread.Step { t with callDepth := idle }
      ⟨.act [] (.send id v) fun _ => .act [] (.close id) .pure, t.callDepth⟩
      (.acted [] (.send id v) ())
      { t with tasks := (t.tasks.send id v).2, callDepth := idle }
      ⟨.act [] (.close id) .pure, t.callDepth⟩ [] :=
    .act (t := { t with tasks := (t.tasks.send id v).2 }) rfl
  have hclose : Thread.Step { t with tasks := (t.tasks.send id v).2, callDepth := idle }
      ⟨.act [] (.close id) .pure, t.callDepth⟩ (.acted [] (.close id) ())
      { t with tasks := ((t.tasks.send id v).2.close id).2, callDepth := idle }
      ⟨.pure (), t.callDepth⟩ [] :=
    .act (t := { t with tasks := ((t.tasks.send id v).2.close id).2 }) rfl
  refine ⟨_, _, ?_, hruns.trans (.step (Step.at hsend m ts ([] ++ new))
    (.step (Step.at hclose m ts ([] ++ new ++ [])) .refl))⟩
  rw [List.map_append, hlabels]
  rfl

/-- Whatever is run on the spot, the thread of a task can do. -/
theorem finishes {γ : Type} (x : Code γ) : Finishes x := by
  induction x with
  | pure c =>
    intro α s t c' hrun m before after f idle
    cases hrun
    exact ⟨[], [], rfl, by rw [List.append_nil]; exact .refl⟩
  | act bodies a k ih =>
    intro α s t c hrun m before after f idle
    obtain ⟨b, u, ha, hrest⟩ := Eval.bind_eq_some_iff.1 hrun
    obtain ⟨ms, new, hlabels, hruns⟩ := ih b α u t c hrest m before (after ++ []) f idle
    have hmove : Thread.Step { s with callDepth := idle }
        ⟨.act bodies a fun b => k b >>= f, s.callDepth⟩ (.acted bodies a b)
        { u with callDepth := idle } ⟨k b >>= f, u.callDepth⟩ [] := .act ha
    rw [List.append_assoc] at hruns
    refine ⟨_, _, ?_, .step (Step.at hmove m before after) hruns⟩
    rw [Code.labels_act ha, List.map_cons, hlabels]
  | spawn bodies id task k htask ih =>
    intro α s t c hrun m before after f idle
    obtain ⟨r, u, hspawn, hrest⟩ := Eval.bind_eq_some_iff.1 hrun
    -- the host refuses the task, or it runs to its end at once
    rcases Eval.spawn_eq_some hspawn with ⟨reason, hhost, rfl, rfl⟩ | ⟨hhost, rfl, v, w, hown, rfl⟩
    · obtain ⟨ms, new, hlabels, hruns⟩ :=
        ih (some reason) α _ t c hrest m before (after ++ []) f idle
      have hmove := Thread.Step.refuse { s with callDepth := idle } bodies id task
        (fun r => k r >>= f) s.callDepth reason
      rw [List.append_assoc] at hruns
      refine ⟨_, _, ?_, .step (Step.at hmove m before after) hruns⟩
      rw [Code.labels_spawn_of_refused hhost, List.map_cons, hlabels]
    · -- the task is started, runs to its end, and then the thread goes on
      have hmove := Thread.Step.start { s with callDepth := idle } bodies id task
        (fun r => k r >>= f) s.callDepth
      obtain ⟨w', htaskrun, rfl⟩ := Eval.onOwnCount_eq_some_iff.1 hown
      obtain ⟨ms, new, htasklabels, htaskruns⟩ := Finishes.started htask htaskrun id idle m
        (before ++ ⟨k none >>= f, s.callDepth⟩ :: after)
      obtain ⟨ms', new', hlabels, hruns⟩ := ih none α _ t c hrest m before (after ++ new) f idle
      simp only [List.append_assoc, List.cons_append] at htaskruns hruns
      refine ⟨_, _, ?_, .step (Step.at hmove m before after) (htaskruns.trans hruns)⟩
      rw [Code.labels_spawn_of_started hhost htaskrun, List.map_cons, List.map_append, htasklabels,
        hlabels, List.append_assoc]
      rfl

/-- **Running on the spot is a run of a pool**, whatever threads of tasks there are that get no
turn.  Its moves are those of the record. -/
theorem runs_of_run_labels {x : Code α} : ∀ {s t : State} {a : α}, x.run s = some (a, t) →
    ∀ (ts : List (Thread Unit)) (idle : Nat), ∃ ms new, ms.map Prod.snd = x.labels s ∧
      Runs ⟨{ s with callDepth := idle }, ⟨x, s.callDepth⟩, ts⟩ ms
        ⟨{ t with callDepth := idle }, ⟨.pure a, t.callDepth⟩, ts ++ new⟩ := by
  induction x with
  | pure a =>
    intro s t a' hrun ts idle
    cases hrun
    exact ⟨[], [], rfl, by rw [List.append_nil]; exact .refl⟩
  | act bodies a k ih =>
    intro s t c hrun ts idle
    obtain ⟨b, u, ha, hrest⟩ := Eval.bind_eq_some_iff.1 hrun
    obtain ⟨ms, new, hlabels, hruns⟩ := ih b hrest (ts ++ []) idle
    have hmove : Thread.Step { s with callDepth := idle } ⟨.act bodies a k, s.callDepth⟩
        (.acted bodies a b) { u with callDepth := idle } ⟨k b, u.callDepth⟩ [] := .act ha
    rw [List.append_assoc] at hruns
    refine ⟨_, _, ?_, .step (.main hmove) hruns⟩
    rw [Code.labels_act ha, List.map_cons, hlabels]
  | spawn bodies id task k _ ih =>
    intro s t c hrun ts idle
    obtain ⟨r, u, hspawn, hrest⟩ := Eval.bind_eq_some_iff.1 hrun
    -- as for the thread of a task: a task that is refused does nothing, and another one takes all
    -- its turns before the first thread goes on
    rcases Eval.spawn_eq_some hspawn with ⟨reason, hhost, rfl, rfl⟩ | ⟨hhost, rfl, v, w, hown, rfl⟩
    · obtain ⟨ms, new, hlabels, hruns⟩ := ih (some reason) hrest (ts ++ []) idle
      have hmove := Thread.Step.refuse { s with callDepth := idle } bodies id task k s.callDepth
        reason
      rw [List.append_assoc] at hruns
      refine ⟨_, _, ?_, .step (.main hmove) hruns⟩
      rw [Code.labels_spawn_of_refused hhost, List.map_cons, hlabels]
    · have hmove := Thread.Step.start { s with callDepth := idle } bodies id task k s.callDepth
      obtain ⟨w', htaskrun, rfl⟩ := Eval.onOwnCount_eq_some_iff.1 hown
      obtain ⟨ms, new, htasklabels, htaskruns⟩ := (finishes task).started htaskrun id idle
        ⟨k none, s.callDepth⟩ ts
      obtain ⟨ms', new', hlabels, hruns⟩ := ih none hrest (ts ++ new) idle
      rw [List.append_assoc] at hruns
      refine ⟨_, _, ?_, .step (.main hmove) (htaskruns.trans hruns)⟩
      rw [Code.labels_spawn_of_started hhost htaskrun, List.map_cons, List.map_append, htasklabels,
        hlabels, List.append_assoc]
      rfl

/-- Running on the spot is a run of a pool. -/
theorem runs_of_run {x : Code α} {s t : State} {a : α} (h : x.run s = some (a, t))
    (ts : List (Thread Unit)) (idle : Nat) : ∃ ms new,
      Runs ⟨{ s with callDepth := idle }, ⟨x, s.callDepth⟩, ts⟩ ms
        ⟨{ t with callDepth := idle }, ⟨.pure a, t.callDepth⟩, ts ++ new⟩ := by
  obtain ⟨ms, new, -, hruns⟩ := runs_of_run_labels h ts idle
  exact ⟨ms, new, hruns⟩

end Pool

end Monkey
