import Monkey.Proofs.OnTheSpot
import Monkey.Session

/-!
# The count of active calls

Every thread counts the calls of functions that are active in it: one more where a body begins, one
less where it ends.  Whatever a body does and however it ends, the count is in the end what it was
at the beginning.  So at every moment it is what it began with and one for each body in which the
thread is just then, and no thread ever counts more than the limit allows.

What a thread has still to do says in whose bodies it does it, and where those end.  That the count
keeps in step with them is a property of code; it is kept by every move.

## Main definitions

* `Code.Counts` — code whose enterings and leavings keep in step with its bodies.
* `Thread.Exact` — threads whose count is exact.
* `Balanced` — code that is exact in every run and balanced in the end.

## Main results

* `Pool.Runs.counted` — **the counts of all threads are exact at every moment of every run.**
* `activeCalls_balanced` — **so it is for every expression, program, body and expansion.**
-/

namespace Monkey

open Correspondence Machine

/-! ### What single actions do to the count -/

/-- The number of active calls after an action, where it was `depth` before. -/
def Action.depthAfter (depth : Nat) : {β : Type} → Action β → Nat
  | _, .enterCall => depth + 1
  | _, .leaveCall => depth - 1
  | _, _ => depth

/-- Whether a call is permitted depends on the number of active calls and the limit. -/
def Action.Decides (depth limit : Nat) : {β : Type} → Action β → β → Prop
  | _, .stuck, _ => False
  | _, .permit c args, refusal => refusal = c.refusal? args depth limit
  | _, _, _ => True

theorem Action.count_of_run {β : Type} {a : Action β} {s t : State} {b : β}
    (h : a.run s = some (b, t)) : t.callDepth = a.depthAfter s.callDepth ∧
      t.maxCallDepth = s.maxCallDepth ∧ a.Decides s.callDepth s.maxCallDepth b := by
  cases a with
  | stuck => cases h
  | join id =>
    obtain ⟨-, rfl⟩ := Eval.joinTask_eq_some_iff.1 h
    exact ⟨rfl, rfl, trivial⟩
  | permit =>
    cases h
    exact ⟨rfl, rfl, rfl⟩
  | note | fresh | newScope | setName | look | print | enterCall | leaveCall | register | send
  | close =>
    cases h
    exact ⟨rfl, rfl, trivial⟩

/-- Whether the error is that as many calls are active as the limit allows. -/
def EvalError.isOverflow : EvalError → Bool
  | .stackOverflow _ => true
  | _ => false

/-- Whether a call is refused because as many are active as the limit allows. -/
def Label.isOverflow : Label → Bool
  | .acted _ (.permit _ _) refusal => refusal.any EvalError.isOverflow
  | _ => false

/-! ### Code that keeps count -/

namespace Code

variable {α β : Type} {limit bound base depth final : Nat}

/-- The functions in whose bodies the next action is done. -/
def bodies : {α : Type} → Code α → List Closure
  | _, .pure _ => []
  | _, .act bodies _ _ => bodies
  | _, .spawn bodies _ _ _ => bodies

/-- With `depth` active calls at first, the code has always as many of them active as there are
bodies around what it does, on top of `base`, and never more than `bound`.  In the end there are
`final` of them, and `Q` holds of the result.  Its tasks begin with none. -/
inductive Counts (limit bound : Nat) : {α : Type} → (base depth final : Nat) → (α → Prop) →
    Code α → Prop
  | pure {α : Type} {base final : Nat} {Q : α → Prop} {a : α} : Q a →
    Counts limit bound base final final Q (.pure a)
  | act {α β : Type} {base depth final : Nat} {Q : α → Prop} {bodies : List Closure}
    {a : Action β} {k : β → Code α} : depth = base + bodies.length → depth ≤ bound →
    (∀ b, a.Decides depth limit b → Counts limit bound base (a.depthAfter depth) final Q (k b)) →
    Counts limit bound base depth final Q (.act bodies a k)
  | spawn {α : Type} {base depth final : Nat} {Q : α → Prop} {bodies : List Closure} {id : Nat}
    {task : Code Value} {k : Option String → Code α} : depth = base + bodies.length →
    depth ≤ bound → Counts limit bound 0 0 0 (fun _ => True) task →
    (∀ refusal, Counts limit bound base depth final Q (k refusal)) →
    Counts limit bound base depth final Q (.spawn bodies id task k)

namespace Counts

variable {P : α → Prop} {Q : β → Prop} {x : Code α} {f : α → Code β}

theorem imp {P' : α → Prop} (h : Counts limit bound base depth final P x)
    (himp : ∀ a, P a → P' a) : Counts limit bound base depth final P' x := by
  induction h with
  | pure ha => exact .pure (himp _ ha)
  | act hdepth hle _ ih => exact .act hdepth hle fun b hb => ih b hb himp
  | spawn hdepth hle htask _ _ ih => exact .spawn hdepth hle htask fun r => ih r himp

theorem bind {final' : Nat} (h : Counts limit bound base depth final P x)
    (hf : ∀ a, P a → Counts limit bound base final final' Q (f a)) :
    Counts limit bound base depth final' Q (x >>= f) := by
  induction h with
  | pure ha => exact hf _ ha
  | act hdepth hle _ ih => exact .act hdepth hle fun b hb => ih b hb hf
  | spawn hdepth hle htask _ _ ih => exact .spawn hdepth hle htask fun r => ih r hf

/-- Inside one more body there is one more call. -/
theorem inBody (c : Closure) (h : Counts limit bound (base + 1) depth final P x) :
    Counts limit bound base depth final P (x.inBody c) := by
  generalize hbase : base + 1 = inner at h
  have hlength (bodies : List Closure) : inner + bodies.length = base + (bodies ++ [c]).length := by
    rw [List.length_append, List.length_singleton]
    omega
  induction h with
  | pure ha => exact .pure ha
  | act hdepth hle _ ih =>
    exact .act (hdepth.trans (hlength _)) hle fun b hb => ih b hb hbase hlength
  | spawn hdepth hle htask _ _ ih =>
    exact .spawn (hdepth.trans (hlength _)) hle htask fun r => ih r hbase hlength

/-- An action that is neither the beginning nor the end of a call. -/
theorem single {a : Action α} (hle : depth ≤ bound) (ha : a.depthAfter depth = depth)
    (h : ∀ b, a.Decides depth limit b → P b) :
    Counts limit bound depth depth depth P (Machine.act a) := by
  refine .act rfl hle fun b hb => ?_
  rw [ha]
  exact .pure (h b hb)

/-- The body of a function that is permitted. -/
theorem inCall (c : Closure) (hle : depth < bound)
    (h : Counts limit bound (depth + 1) (depth + 1) (depth + 1) P x) :
    Counts limit bound depth depth depth P (inCall c x) :=
  .act rfl (Nat.le_of_lt hle) fun _ _ => .inBody c <| .bind h fun _ ha =>
    .act rfl hle fun _ _ => .pure ha

theorem lookOutward (name : String) (hle : depth ≤ bound) : ∀ n scope,
    Counts limit bound depth depth depth (fun _ => True) (lookOutward n scope name)
  | 0, _ => .pure trivial
  | n + 1, scope => by
    refine .act rfl hle fun found _ => ?_
    match found with
    | .inl _ | .inr none => exact .pure trivial
    | .inr (some outer) => exact lookOutward name hle n outer

theorem printEach (hle : depth ≤ bound) : ∀ lines,
    Counts limit bound depth depth depth (fun _ => True) (printEach lines)
  | [] => .pure trivial
  | _ :: rest => .act rfl hle fun _ _ => printEach hle rest

/-- The thread of a task. -/
theorem finishing (id : Nat) {task : Code Value}
    (h : Counts limit bound 0 0 0 (fun _ => True) task) :
    Counts limit bound 0 0 0 (fun _ => True) (finishing id task) :=
  .bind h fun _ _ => .act rfl (Nat.zero_le _) fun _ _ =>
    .act rfl (Nat.zero_le _) fun _ _ => .pure trivial

end Counts

/-- With as many calls active as may be, the code keeps count, and has as many active in the end. -/
def CountsAt (limit bound : Nat) (Q : α → Prop) (x : Code α) : Prop :=
  ∀ depth ≤ bound, Counts limit bound depth depth depth Q x

end Code

open Code (CountsAt Counts)

section

variable {limit bound : Nat}

/-- Code that keeps count.  It is compared with itself. -/
def keepingCount (limit bound : Nat) : Correspondence Unit Code Code where
  toKnowledge := .identity
  Runs _ Q x _ := CountsAt limit bound (fun a => ∃ b, Q () a b) x
  pure hab _ _ := .pure ⟨_, hab⟩
  bind hxy hkl depth hle := .bind (hxy depth hle) fun a ⟨b, hab⟩ =>
    hkl () a b (le_refl _) hab depth hle
  noted _ hxy depth hle := .act rfl hle fun _ _ => hxy depth hle
  giving hxy depth hle := .bind (hxy depth hle) fun _ hv =>
    .act rfl hle fun _ _ => .pure hv
  stuck _ hle := .act rfl hle fun _ hb => hb.elim
  fresh depth hle := .single hle rfl fun b _ => ⟨b, rfl⟩
  newScope _ depth hle := .single hle rfl fun b _ => ⟨b, rfl⟩
  setName _ _ _ depth hle := .single hle rfl fun _ _ => ⟨(), trivial⟩
  find _ _ depth hle := .imp (.lookOutward _ hle _ _) fun found _ => ⟨found, foundMatch_refl found⟩
  printed _ _ depth hle := .imp (.printEach hle _) fun _ _ => ⟨(), trivial⟩
  await _ depth hle := by
    refine .bind (P := fun _ => True) (.single hle rfl fun _ _ => trivial) fun found _ => ?_
    cases found with
    | some v => exact .pure ⟨v, .refl v⟩
    | none =>
      refine .act rfl hle fun _ _ => .act rfl hle fun addr _ => .pure ⟨_, .refl _⟩

/-- A call is permitted only where fewer calls are active than the limit allows. -/
def countingCalls (hbound : limit ≤ bound) : Comparison Unit Code Code where
  toCorrespondence := keepingCount limit bound
  call {_ c d vs ws x y k l} _ _ hxy hkl depth hle := by
    have hpermit : Counts limit bound depth depth depth (fun refusal => refusal = none →
        depth < limit) (Machine.act (.permit c vs)) := by
      refine .single hle rfl fun refusal hrefusal hnone => ?_
      exact (Closure.refusal?_eq_none_iff.1 (hrefusal.symm.trans hnone)).2
    refine .bind hpermit fun refusal hlt => ?_
    cases refusal with
    | some e => exact .act rfl hle fun _ _ => .act rfl hle fun _ _ => .pure ⟨_, .refl _⟩
    | none =>
      have hlt := hlt rfl
      refine .bind (hxy depth hle) fun inner hinner => ?_
      obtain ⟨_, rfl⟩ := hinner
      have hbody := hkl () inner inner (le_refl _) rfl (depth + 1) (by omega)
      refine .bind (.inCall c (by omega) hbody) fun v _ => ?_
      exact .act rfl hle fun _ _ => .pure ⟨_, .refl _⟩
  start hxy depth hle := by
    refine .bind (P := fun _ => True) (.single hle rfl fun _ _ => trivial) fun id _ => ?_
    have hbody := hxy () (le_refl _) 0 (Nat.zero_le _)
    refine .spawn rfl hle (.bind hbody fun _ _ => .act rfl (Nat.zero_le _) fun _ _ =>
      .pure trivial) fun refusal => ?_
    cases refusal with
    | some reason => exact .act rfl hle fun _ _ => .act rfl hle fun _ _ => .pure ⟨_, .refl _⟩
    | none => exact .pure ⟨_, .refl _⟩

/-! ### Pools -/

/-- The count of a thread that began with `base` active calls keeps in step with its bodies. -/
def Thread.Counted {α : Type} (limit bound base : Nat) (th : Thread α) : Prop :=
  th.code.Counts limit bound base th.depth base fun _ => True

/-- The count of a thread is exact: it is what it began with and one for each body that the thread
is in. -/
structure Thread.Exact {α : Type} (bound base : Nat) (th : Thread α) : Prop where
  depth_eq : th.depth = base + th.code.bodies.length
  depth_le : th.depth ≤ bound

theorem Thread.Counted.exact {α : Type} {limit bound base : Nat} {th : Thread α}
    (h : th.Counted limit bound base) (hbase : base ≤ bound) : th.Exact bound base := by
  obtain ⟨code, depth⟩ := th
  cases h with
  | pure => exact ⟨rfl, hbase⟩
  | act hdepth hle => exact ⟨hdepth, hle⟩
  | spawn hdepth hle => exact ⟨hdepth, hle⟩

/-- **One move of a thread keeps its count in step.** -/
theorem Thread.Step.counted {α : Type} {s t : State} {th th' : Thread α} {l : Label}
    {new : List (Thread Unit)} {base : Nat} (h : Thread.Step s th l t th' new)
    (hth : th.Counted s.maxCallDepth bound base) : t.maxCallDepth = s.maxCallDepth ∧
      th'.Counted s.maxCallDepth bound base ∧ ∀ x ∈ new, x.Counted s.maxCallDepth bound 0 := by
  cases h with
  | act hrun =>
    -- the thread counts on from what the action made of its count
    obtain ⟨hdepth, hlimit, hdecides⟩ := Action.count_of_run hrun
    cases hth with
    | act _ _ hrest =>
      refine ⟨hlimit, ?_, List.forall_mem_nil _⟩
      have hnext := hrest _ hdecides
      rwa [← hdepth] at hnext
  | start _ id task =>
    -- the new thread begins with no active call
    cases hth with
    | spawn _ _ htask hrest =>
      exact ⟨rfl, hrest none, List.forall_mem_singleton.2 (.finishing id htask)⟩
  | refuse _ id task k depth reason =>
    cases hth with
    | spawn _ _ _ hrest => exact ⟨rfl, hrest (some reason), List.forall_mem_nil _⟩

/-- The counts of all threads of a pool keep in step with their bodies. -/
structure Pool.Counted {α : Type} (limit bound base : Nat) (p : Pool α) : Prop where
  maxCallDepth_eq : p.state.maxCallDepth = limit
  main : p.main.Counted limit bound base
  tasks : ∀ th ∈ p.tasks, th.Counted limit bound 0

namespace Pool

variable {α : Type} {p q : Pool α} {base : Nat} {s t : State}

/-- **One move keeps all counts in step.** -/
theorem Step.counted {m : Option Nat × Label} (h : Step p m q) (hp : p.Counted limit bound base) :
    q.Counted limit bound base := by
  obtain ⟨rfl, hmain, htasks⟩ := hp
  cases h with
  | main hstep =>
    obtain ⟨hlimit, hmain', hnew⟩ := hstep.counted hmain
    refine ⟨hlimit, hmain', fun th hth => ?_⟩
    exact (List.mem_append.1 hth).elim (htasks th) (hnew th)
  | task hget hstep =>
    obtain ⟨hlimit, hth', hnew⟩ := hstep.counted (htasks _ (List.mem_of_getElem? hget))
    refine ⟨hlimit, hmain, fun th hth => ?_⟩
    rcases List.mem_append.1 hth with hold | hth
    · rcases List.mem_or_eq_of_mem_set hold with hold | rfl
      · exact htasks th hold
      · exact hth'
    · exact hnew th hth

/-- **So does every run.** -/
theorem Runs.counted {ms : List (Option Nat × Label)} (h : Runs p ms q)
    (hp : p.Counted limit bound base) : q.Counted limit bound base :=
  h.preserves Step.counted hp

/-- The number of active calls of the thread that moves. -/
def depthOf (p : Pool α) : Option Nat → Option Nat
  | none => some p.main.depth
  | some i => p.tasks[i]?.map Thread.depth

/-- A thread is told whether it may call a function by the number of its own active calls. -/
theorem Step.permit {who : Option Nat} {bodies : List Closure} {c : Closure} {args : List Value}
    {refusal : Option EvalError} (h : Step p (who, .acted bodies (.permit c args) refusal) q) :
    ∃ depth, p.depthOf who = some depth ∧
      refusal = c.refusal? args depth p.state.maxCallDepth := by
  cases h with
  | main hstep =>
    cases hstep with
    | act hrun => exact ⟨_, rfl, (Action.count_of_run hrun).2.2⟩
  | task hget hstep =>
    cases hstep with
    | act hrun =>
      refine ⟨_, ?_, (Action.count_of_run hrun).2.2⟩
      rw [depthOf, hget]
      rfl

end Pool

/-! ### Whole runs -/

/-- What keeps count leaves the count as it was, wherever it comes to an end on the spot. -/
theorem Code.Counts.run {α : Type} {x : Code α} {s t : State} {a : α} {Q : α → Prop}
    (hx : x.Counts s.maxCallDepth bound s.callDepth s.callDepth s.callDepth Q)
    (hrun : x.run s = some (a, t)) :
    t.callDepth = s.callDepth ∧ t.maxCallDepth = s.maxCallDepth := by
  obtain ⟨ms, new, hruns⟩ := Pool.runs_of_run hrun [] s.callDepth
  have hq : Pool.Counted s.maxCallDepth bound s.callDepth _ :=
    hruns.counted ⟨rfl, hx.imp fun _ _ => trivial, List.forall_mem_nil _⟩
  have hmain := hq.main
  have hlimit : t.maxCallDepth = s.maxCallDepth := hq.maxCallDepth_eq
  generalize hd : t.callDepth = depth at hmain
  cases hmain with
  | pure => exact ⟨rfl, hlimit⟩

/-- From `s` on, the counts of the thread that runs the code and of all tasks that it starts are
exact at every moment of every run, and the thread's own count is balanced in the end. -/
structure Balanced {α : Type} (x : Code α) (s : State) : Prop where
  exact : ∀ ms q, Pool.Runs (.alone s x) ms q →
    q.main.Exact s.maxCallDepth s.callDepth ∧ ∀ th ∈ q.tasks, th.Exact s.maxCallDepth 0
  /-- Whatever the result is, the count is in the end what it was at the beginning. -/
  balanced : ∀ ms q a, Pool.Runs (.alone s x) ms q → q.main.code = .pure a →
    q.main.depth = s.callDepth
  /-- A call with enough arguments is refused if the count of the thread has reached the limit, and
  permitted if not. -/
  refused_iff : ∀ ms q, Pool.Runs (.alone s x) ms q → ∀ who bodies c args refusal r,
    Pool.Step q (who, .acted bodies (.permit c args) refusal) r →
    c.params.length ≤ args.length → ∃ depth, q.depthOf who = some depth ∧
      (refusal = some (.stackOverflow s.maxCallDepth) ↔ depth = s.maxCallDepth) ∧
      (refusal = none ↔ depth ≠ s.maxCallDepth)
  /-- So it is where every task runs to its end at once. -/
  run : ∀ a t, x.run s = some (a, t) → t.callDepth = s.callDepth

section

variable {s : State}

/-- The counts of all threads are known to be exact wherever it is known who moves. -/
theorem Pool.Counted.depthOf_le {α : Type} {p : Pool α} {who : Option Nat} {depth : Nat}
    {base : Nat} (hp : p.Counted limit bound base) (hbase : base ≤ bound)
    (h : p.depthOf who = some depth) : depth ≤ bound := by
  cases who with
  | none =>
    cases h
    exact (hp.main.exact hbase).depth_le
  | some i =>
    obtain ⟨th, hget, rfl⟩ := Option.map_eq_some_iff.1 h
    exact ((hp.tasks th (List.mem_of_getElem? hget)).exact (Nat.zero_le _)).depth_le

theorem Balanced.of_counts {α : Type} {x : Code α} {Q : α → Prop}
    (hle : s.callDepth ≤ s.maxCallDepth) (hx : CountsAt s.maxCallDepth s.maxCallDepth Q x) :
    Balanced x s := by
  have hcounts := hx s.callDepth hle
  -- the counts are exact at the beginning, and every move keeps them so
  have hruns : ∀ ms q, Pool.Runs (.alone s x) ms q →
      q.Counted s.maxCallDepth s.maxCallDepth s.callDepth := fun ms q h =>
    h.counted ⟨rfl, hcounts.imp fun _ _ => trivial, List.forall_mem_nil _⟩
  refine ⟨fun ms q h => ?_, fun ms q a h hend => ?_, fun ms q h => ?_, fun a t h => ?_⟩
  · have hq := hruns ms q h
    exact ⟨hq.main.exact hle, fun th hth => (hq.tasks th hth).exact (Nat.zero_le _)⟩
  · have hexact := ((hruns ms q h).main.exact hle).depth_eq
    rw [hend] at hexact
    exact hexact
  · intro who bodies c args refusal r hstep henough
    have hq := hruns ms q h
    obtain ⟨depth, hdepth, hrefusal⟩ := hstep.permit
    have hmax := hq.depthOf_le hle hdepth
    rw [hq.maxCallDepth_eq, Closure.refusal?, if_neg (Nat.not_lt_of_le henough)] at hrefusal
    refine ⟨depth, hdepth, ?_⟩
    -- with enough arguments it is the count alone that decides, and it is never beyond the limit
    split at hrefusal
    · next hfull =>
      subst hrefusal
      have heq := Nat.le_antisymm hmax hfull
      exact ⟨iff_of_true rfl heq, iff_of_false (Option.some_ne_none _) (not_not_intro heq)⟩
    · next hfree =>
      subst hrefusal
      have hne := fun heq : depth = s.maxCallDepth => hfree (Nat.le_of_eq heq.symm)
      exact ⟨iff_of_false (Option.some_ne_none _).symm hne, iff_of_true rfl hne⟩
  · exact (hcounts.run h).1

variable (budget scope : Nat)

/-- Names of macros are looked up without any call. -/
theorem countingCalls_findsMacros (hbound : limit ≤ bound) :
    (countingCalls hbound).FindsMacros scope scope :=
  fun _ _ _ _ hle => .imp (.lookOutward _ hle _ _) fun found _ => ⟨found, foundMatch_refl found⟩

/-- **The counts of active calls are exact and balanced** in the evaluation of every expression,
every program and every body, in the expansion of every call of a macro, which runs the body of the
macro, and in the expansion of every program, from a state on in which the count is not beyond the
limit. -/
theorem activeCalls_balanced (hle : s.callDepth ≤ s.maxCallDepth) :
    (∀ e, Balanced (evaluateOn Code budget e scope) s) ∧
    (∀ program, Balanced (runProgramOn Code budget program scope) s) ∧
    (∀ body, Balanced (evalBody (evaluateOn Code budget) body scope) s) ∧
    (∀ name mac args, Balanced (expandCall (evaluateOn Code budget) name mac args) s) ∧
    ∀ program, Balanced (expandMacros (evaluateOn Code budget) scope program) s := by
  have heval : (countingCalls (Nat.le_refl s.maxCallDepth)).Evaluators (evaluateOn Code budget)
      (evaluateOn Code budget) := Comparison.evaluateOn _ budget
  refine ⟨fun e => ?_, fun program => ?_, fun body => ?_, fun name mac args => ?_,
    fun program => ?_⟩
  · exact .of_counts hle (heval (w := ()) e rfl)
  · exact .of_counts hle (Comparison.evalProgram heval (w := ()) program rfl)
  · exact .of_counts hle (Comparison.evalBody heval (w := ()) body rfl)
  · exact .of_counts hle (Comparison.expandCall heval (w := ()) name ⟨rfl, rfl, rfl⟩ args)
  · exact .of_counts hle (Comparison.expandMacros heval (countingCalls_findsMacros scope _)
      (w := ()) rfl program)

/-- The program `let f = fn(x) { return [1, f(x)]; }; launch(fn() { f(0) }); f(0);`, whose calls
have no end. -/
def tooDeepProgram : Program :=
  [.letBe "f" (.fn ["x"] [.ret (.array [.int 1, .call (.ident "f") [.ident "x"]])]),
    .expr (.call (.ident "launch") [.fn [] [.expr (.call (.ident "f") [.int 0])]]),
    .expr (.call (.ident "f") [.int 0])]

/-- Where two calls may be active, a program whose calls have no end comes to an end.  Its own third
call is refused and so is that of its task, and in the end no call is active. -/
theorem activeCalls_balanced_tooDeep :
    Balanced (runProgramOn Code 9 tooDeepProgram 0) (Session.start 2 .empty).state ∧
    (((runProgramOn Code 9 tooDeepProgram 0).moves (Session.start 2 .empty).state).filter
      fun m => m.1.isOverflow).length = 2 ∧
    ∃ ms q a, Pool.Runs
      (.alone (Session.start 2 .empty).state (runProgramOn Code 9 tooDeepProgram 0)) ms q ∧
      q.main.code = .pure a ∧ a.isError ∧ q.main.depth = 0 := by
  have hbalanced := (activeCalls_balanced 9 0 (s := (Session.start 2 .empty).state)
    (by decide)).2.1 tooDeepProgram
  have herror : ((runProgram 9 tooDeepProgram 0 (Session.start 2 .empty).state).map
      fun p => p.1.isError) = some true := by decide +kernel
  obtain ⟨⟨a, t⟩, hrun, ha⟩ := Option.map_eq_some_iff.1 herror
  rw [← Code.run_runProgramOn] at hrun
  obtain ⟨ms, new, hruns⟩ := Pool.runs_of_run hrun [] (Session.start 2 .empty).state.callDepth
  exact ⟨hbalanced, by decide +kernel, ms, _, a, hruns, rfl, ha,
    hbalanced.balanced ms _ a hruns rfl⟩

variable {budget scope}

/-- Running a body leaves the count and the limit as they were. -/
theorem evalBody_callDepth {body : Block} {t : State} {v : Value}
    (h : evalBody (evaluate budget) body scope s = some (v, t)) :
    t.callDepth = s.callDepth ∧ t.maxCallDepth = s.maxCallDepth := by
  rw [← Code.run_evalBody] at h
  have heval : (countingCalls (Nat.le_max_left s.maxCallDepth s.callDepth)).Evaluators
      (evaluateOn Code budget) (evaluateOn Code budget) := Comparison.evaluateOn _ budget
  exact (Comparison.evalBody heval (w := ()) body rfl _ (Nat.le_max_right _ _)).run h

/-- So does expanding the macros of a program. -/
theorem expandMacros_callDepth {program : Program} {t : State}
    {reply : Except ExpansionError Program}
    (h : expandMacros (evaluate budget) scope program s = some (reply, t)) :
    t.callDepth = s.callDepth ∧ t.maxCallDepth = s.maxCallDepth := by
  rw [← Code.run_expandMacros] at h
  have heval : (countingCalls (Nat.le_max_left s.maxCallDepth s.callDepth)).Evaluators
      (evaluateOn Code budget) (evaluateOn Code budget) := Comparison.evaluateOn _ budget
  exact (Comparison.expandMacros heval (countingCalls_findsMacros scope _) (w := ()) rfl program _
    (Nat.le_max_right _ _)).run h

end

end

end Monkey
