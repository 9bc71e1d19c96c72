import Monkey.Proofs.Lockstep
import Monkey.Proofs.Turns

/-!
# Threads alongside others

Threads that do alike in two pools go on doing alike, whatever else goes on in one of the pools.
There may be other threads in it, which share scopes and tasks among themselves; but they can get at
nothing that our threads have made, and our threads write to nothing that was there before.  So what
our threads do is up to their own turns, and not to those of the others.

## Main definitions

* `State.Confined` — states in which certain scopes, addresses and tasks lead to no others.
* `Apart` — matching states, in the first of which something is set apart.
* `Pool.ownTurns` — the turns of our own threads in a run.
* `Pool.Beside` — pools in which our threads do alike.

## Main results

* `Apart.own`, `Apart.other` — **our threads and the others leave one another alone.**
* `Pool.Runs.beside` — **a run beside other threads is matched by a run without them**, in which our
  threads take the same turns.
-/

namespace Monkey

/-! ### What an action leaves alone -/

/-- From `s` to `t` nothing has changed but what the matching speaks of, and that scope not which is
excepted. -/
structure State.Spares (macros : Nat) (μ : Matching) (s t : State) : Prop where
  scopes : ∀ {a : Nat}, a < s.scopes.size → (∀ b, μ.scopes a b → a = macros) →
    t.scopes.get? a = s.scopes.get? a
  tasks : ∀ {i : Nat}, i < s.tasks.nextId → (∀ j, ¬μ.tasks i j) →
    t.tasks.get? i = s.tasks.get? i
  nextAddress_le : s.nextAddress ≤ t.nextAddress
  maxCallDepth_eq : t.maxCallDepth = s.maxCallDepth

section

variable {macros : Nat} {μ : Matching} {β : Type} {a b : Action β} {s t : State} {c : β}

/-- An action on the footing of a matching writes to what the matching speaks of. -/
theorem Action.Alike.ne_written (ha : a.Alike (matched macros) μ b) {scope : Nat}
    (h : ∀ d, μ.scopes scope d → scope = macros) : a.written? ≠ some scope := by
  cases ha with
  | setName name howns _ =>
    intro heq
    cases heq
    exact howns.2 (h _ howns.1)
  | _ =>
    intro heq
    cases heq

/-- It asks for, sends the result of, or closes tasks that the matching speaks of. -/
theorem Action.Alike.get?_eq (ha : a.Alike (matched macros) μ b) (hrun : a.run s = some (c, t))
    {i : Nat} (hi : i < s.tasks.nextId) (h : ∀ j, ¬μ.tasks i j) :
    t.tasks.get? i = s.tasks.get? i := by
  -- an action is about a task that is matched, so about another one
  have hne {k j : Nat} (hkj : μ.tasks k j) : i ≠ k := by
    rintro rfl
    exact h j hkj
  cases ha with
  | stuck => cases hrun
  | register =>
    cases hrun
    exact s.tasks.get?_register_of_ne (Nat.ne_of_lt hi)
  | send hkj =>
    cases hrun
    exact (s.tasks.changes_send _ _).of_ne (hne hkj)
  | close hkj =>
    cases hrun
    exact (s.tasks.changes_close _).of_ne (hne hkj)
  | join hkj =>
    obtain ⟨-, rfl⟩ := Eval.joinTask_eq_some_iff.1 hrun
    exact (s.tasks.changes_join _).of_ne (hne hkj)
  | note | fresh | newScope | setName | look | print | permit | enterCall | leaveCall =>
    cases hrun
    rfl

theorem Action.nextAddress_le (hrun : a.run s = some (c, t)) : s.nextAddress ≤ t.nextAddress := by
  cases a with
  | stuck => cases hrun
  | fresh =>
    cases hrun
    exact Nat.le_succ _
  | join =>
    obtain ⟨-, rfl⟩ := Eval.joinTask_eq_some_iff.1 hrun
    exact Nat.le_refl _
  | note | newScope | setName | look | print | permit | enterCall | leaveCall | register | send
  | close =>
    cases hrun
    exact Nat.le_refl _

/-- **An action on the footing of a matching changes only what the matching speaks of.** -/
theorem Action.Alike.spares (ha : a.Alike (matched macros) μ b) (hrun : a.run s = some (c, t)) :
    s.Spares macros μ t where
  scopes hlt h := (Action.grown hrun).get?_eq hlt (ha.ne_written h)
  tasks hi h := ha.get?_eq hrun hi h
  nextAddress_le := Action.nextAddress_le hrun
  maxCallDepth_eq := (Action.count_of_run hrun).2.1

end

/-! ### States in which something is set apart -/

/-- Scopes, addresses and tasks of the state that stand for themselves, and lead to no others.  The
excepted scope is one of the state. -/
structure State.Confined (macros : Nat) (ρ : Matching) (s : State) : Prop where
  diagonal : ρ ≤ .identity
  alike : s.Matches ρ s
  registry : s.tasks.Valid
  lt : macros < s.scopes.size

/-- The states match, and besides what the matching speaks of there are confined scopes and tasks in
the first state.  Only the excepted scope may be one of both. -/
structure Apart (macros : Nat) (ρ μ : Matching) (s t : State) : Prop where
  alike : s.Matches μ t
  confined : s.Confined macros ρ
  registry : t.tasks.Valid
  scopes : ∀ {a b c : Nat}, μ.scopes a b → ρ.scopes a c → a = macros
  tasks : ∀ {i j k : Nat}, μ.tasks i j → ¬ρ.tasks i k

section

variable {macros : Nat} {ρ μ : Matching} {β : Type} {a b : Action β} {s s' t : State} {c : β}

/-- **Who keeps to what is confined keeps it confined.** -/
theorem State.Confined.act (h : s.Confined macros ρ) (ha : a.Alike (matched macros) ρ a)
    (hrun : a.run s = some (c, s')) :
    ∃ ρ', ρ.NewIn ρ' s s ∧ s'.Confined macros ρ' ∧ a.Gives (matched macros) ρ' a c c := by
  -- a state that is confined stands beside itself, and so do the two runs of one action
  obtain ⟨d, t, ρ', hrun', hnew, hmatches, hgives⟩ :=
    h.alike.act h.registry h.registry h.lt rfl ha hrun
  cases hrun.symm.trans hrun'
  refine ⟨ρ', hnew, ⟨⟨fun hab => ?_, fun hab => ?_, fun hij => ?_⟩, hmatches,
    Action.valid h.registry hrun, Nat.lt_of_lt_of_le h.lt (Action.grown hrun).size_le⟩, hgives⟩
  · exact (hnew.scopes hab).elim (h.diagonal.1 ·) fun heq => heq.1.trans heq.2.symm
  · exact (hnew.addresses hab).elim (h.diagonal.2.1 ·) fun heq => heq.1.trans heq.2.symm
  · exact (hnew.tasks hij).elim (h.diagonal.2.2 ·) fun heq => heq.1.trans heq.2.symm

namespace Apart

/-- **What our threads do, they do alike in both states**, and nothing that is confined changes. -/
theorem own (h : Apart macros ρ μ s t) (hdepth : s.callDepth = t.callDepth)
    (ha : a.Alike (matched macros) μ b) (hrun : a.run s = some (c, s')) :
    ∃ d t' ν, b.run t = some (d, t') ∧ μ ≤ ν ∧ Apart macros ρ ν s' t' ∧
      a.Gives (matched macros) ν b c d := by
  obtain ⟨d, t', ν, hrun', hnew, hmatches, hgives⟩ :=
    h.alike.act h.confined.registry h.registry h.confined.lt hdepth ha hrun
  have hspares := ha.spares hrun
  have hgrown := (Action.grown hrun).size_le
  -- what is confined belongs to no thread of ours, so that it is spared
  have hscope {x y : Nat} (hxy : ρ.scopes x y) : s'.scopes.get? x = s.scopes.get? x :=
    hspares.scopes (h.confined.alike.scopes_lt hxy).1 fun z hz => h.scopes hz hxy
  have htask {i j : Nat} (hij : ρ.tasks i j) : s'.tasks.get? i = s.tasks.get? i :=
    hspares.tasks (h.confined.alike.tasks_lt h.confined.registry h.confined.registry hij).1
      fun k hk => h.tasks hk hij
  refine ⟨d, t', ν, hrun', hnew.le, ?_, hgives⟩
  refine ⟨hmatches, ⟨h.confined.diagonal, ?_, Action.valid h.confined.registry hrun,
    Nat.lt_of_lt_of_le h.confined.lt hgrown⟩, Action.valid h.registry hrun', ?_, ?_⟩
  · refine h.confined.alike.congr (fun {x y} hxy => ?_)
      ⟨hspares.nextAddress_le, hspares.nextAddress_le⟩ (fun {i j} hij => ?_)
      ⟨hspares.maxCallDepth_eq, hspares.maxCallDepth_eq⟩
    · cases h.confined.diagonal.1 hxy
      exact ⟨hscope hxy, hscope hxy⟩
    · cases h.confined.diagonal.2.2 hij
      exact ⟨htask hij, htask hij⟩
  -- what is new in this move was not there when things were confined
  · intro x y z hxy hxz
    rcases hnew.scopes hxy with hold | ⟨rfl, -⟩
    · exact h.scopes hold hxz
    · exact absurd (h.confined.alike.scopes_lt hxz).1 (Nat.lt_irrefl _)
  · intro i j k hij hik
    rcases hnew.tasks hij with hold | ⟨rfl, -⟩
    · exact h.tasks hold hik
    · have hlt := h.confined.alike.tasks_lt h.confined.registry h.confined.registry hik
      exact Nat.lt_irrefl _ hlt.1

/-- **What other threads do changes nothing that our threads have.** -/
theorem other (h : Apart macros ρ μ s t) (ha : a.Alike (matched macros) ρ a)
    (hrun : a.run s = some (c, s')) :
    ∃ ρ', ρ ≤ ρ' ∧ Apart macros ρ' μ s' t ∧ a.Gives (matched macros) ρ' a c c := by
  obtain ⟨ρ', hnew, hconfined, hgives⟩ := h.confined.act ha hrun
  have hspares := ha.spares hrun
  -- what the other thread knows newly did not exist before, so the matched part is spared
  refine ⟨ρ', hnew.le, ⟨?_, hconfined, h.registry, ?_, ?_⟩, hgives⟩
  · refine h.alike.congr (fun {x y} hxy => ⟨?_, rfl⟩) ⟨hspares.nextAddress_le, Nat.le_refl _⟩
      (fun {i j} hij => ⟨?_, rfl⟩) ⟨hspares.maxCallDepth_eq, rfl⟩
    · exact hspares.scopes (h.alike.scopes_lt hxy).1 fun z hz => h.scopes hxy hz
    · exact hspares.tasks (h.alike.tasks_lt h.confined.registry h.registry hij).1
        fun k hk => h.tasks hij hk
  · intro x y z hxy hxz
    rcases hnew.scopes hxz with hold | ⟨rfl, -⟩
    · exact h.scopes hxy hold
    · exact absurd (h.alike.scopes_lt hxy).1 (Nat.lt_irrefl _)
  · intro i j k hij hik
    rcases hnew.tasks hik with hold | ⟨rfl, -⟩
    · exact h.tasks hij hold
    · exact Nat.lt_irrefl _ (h.alike.tasks_lt h.confined.registry h.registry hij).1

/-- The counts of active calls are the threads' own. -/
theorem callDepth (h : Apart macros ρ μ s t) (m n : Nat) :
    Apart macros ρ μ { s with callDepth := m } { t with callDepth := n } where
  alike := { h.alike with }
  confined := ⟨h.confined.diagonal, { h.confined.alike with }, h.confined.registry, h.confined.lt⟩
  registry := h.registry
  scopes := h.scopes
  tasks := h.tasks

end Apart

end

/-! ### Threads -/

variable {macros : Nat} {ρ ρ' μ ν : Matching} {s s' t : State} {α : Type}

/-- Two threads that have the same to do, on the footing of a matching, with as many calls
active. -/
structure Thread.Beside (macros : Nat) (μ : Matching) (Q : Matching → α → α → Prop)
    (th th' : Thread α) : Prop where
  depth_eq : th.depth = th'.depth
  code : th.code.Abide (matched macros).rules μ Q th'.code

theorem Thread.Beside.mono {Q : Matching → α → α → Prop} {th th' : Thread α} (hQ : Lasting Q)
    (h : th.Beside macros μ Q th') (hle : μ ≤ ν) : th.Beside macros ν Q th' :=
  ⟨h.depth_eq, h.code.mono hQ hle⟩

/-- Keeping to what is confined, beside a state of which nothing is confined. -/
def bystanding (macros : Nat) (μ : Matching) (t : State) : Discipline Matching where
  toRules := (matched macros).rules
  Holds ρ s := Apart macros ρ μ s t
  holds_callDepth {_ _} h n := h.callDepth n t.callDepth
  step h ha hrun := h.other ha hrun

/-- **A move of one of our threads is matched by a move of its like.** -/
theorem Thread.Step.own {Q : Matching → α → α → Prop} {th th₁ th' : Thread α} {l : Label}
    {new : List (Thread Unit)} (h : Thread.Step s th l s' th₁ new) (hst : Apart macros ρ μ s t)
    (hth : th.Beside macros μ Q th') : ∃ l' t' th₁' new' ν,
      Thread.Step t th' l' t' th₁' new' ∧ l'.refusal? = l.refusal? ∧ l'.starts = l.starts ∧ μ ≤ ν ∧
      Apart macros ρ ν s' t' ∧ th₁.Beside macros ν Q th₁' ∧
      List.Forall₂ (Thread.Beside macros ν anyResults) new new' := by
  -- the like of the thread has the same next move before it
  obtain ⟨code', depth⟩ := th'
  obtain ⟨hdepth, hcode⟩ := hth
  cases h with
  | act hrun =>
    cases hdepth
    cases hcode with
    | act ha hrest =>
      obtain ⟨d, t', ν, hrun', hle, hst', hgives⟩ := (hst.callDepth _ _).own rfl ha hrun
      refine ⟨_, _, _, _, ν, .act hrun', rfl, rfl, hle, hst'.callDepth _ _, ⟨?_, ?_⟩, .nil⟩
      · rw [(Action.count_of_run hrun).1, (Action.count_of_run hrun').1, ha.depthAfter_eq]
      · exact hrest ν _ _ hle hgives
  | start _ id task =>
    cases hdepth
    cases hcode with
    | spawn hid htask hrest =>
      exact ⟨_, _, _, _, μ, .start .., rfl, rfl, le_refl μ, hst, ⟨rfl, hrest μ none (le_refl μ)⟩,
        .cons ⟨rfl, .finishing hid htask⟩ .nil⟩
  | refuse _ id task k _ reason =>
    cases hdepth
    cases hcode with
    | spawn hid htask hrest =>
      -- all that a refusal does is to close the sender
      have hclose : (Action.close id).Alike (matched macros) μ (.close _) := .close hid
      obtain ⟨_, t', ν, hrun', hle, hst', -⟩ := (hst.callDepth depth depth).own rfl hclose rfl
      cases hrun'
      refine ⟨_, _, _, _, ν, .refuse _ _ _ _ _ _ reason, rfl, rfl, hle, hst'.callDepth _ _,
        ⟨rfl, hrest ν (some reason) hle⟩, .nil⟩

/-! ### Turns of our own -/

/-- The place of a thread among our own.  The flags say which threads of tasks are our own. -/
def place (flags : List Bool) (i : Nat) : Nat := (flags.take i).count true

/-- Which of our own threads moves, if it is one of them. -/
def mine? (flags : List Bool) : Option Nat → Option (Option Nat)
  | none => some none
  | some i => if flags[i]? = some true then some (some (place flags i)) else none

theorem mine?_task_eq_none {flags : List Bool} {i : Nat} :
    mine? flags (some i) = none ↔ flags[i]? ≠ some true := by
  simp [mine?]

theorem mine?_task_eq_some {flags : List Bool} {i : Nat} {who : Option Nat} :
    mine? flags (some i) = some who ↔ flags[i]? = some true ∧ some (place flags i) = who := by
  simp [mine?]

/-- Who is started by one of our own threads is one of them, too. -/
def flagsAfter (flags : List Bool) (m : Option Nat × Label) : List Bool :=
  flags ++ List.replicate m.2.starts (mine? flags m.1).isSome

/-- The turns of our own threads, each with its place among them.  The first thread is one of
them. -/
def flaggedTurns : List Bool → List (Option Nat × Label) → List (Option Nat × Option String)
  | _, [] => []
  | flags, m :: ms =>
    match mine? flags m.1 with
    | some who => (who, m.2.refusal?) :: flaggedTurns (flagsAfter flags m) ms
    | none => flaggedTurns (flagsAfter flags m) ms

/-- The turns of the first thread and of those that it starts, where there are the threads of tasks
of `p` at first. -/
def Pool.ownTurns {α : Type} (p : Pool α) (ms : List (Option Nat × Label)) :
    List (Option Nat × Option String) :=
  flaggedTurns (List.replicate p.tasks.length false) ms

/-- The threads of tasks in two pools: those of our own do alike in both, and the others are in the
first pool only and keep to what is confined. -/
inductive Mixed (macros : Nat) (ρ μ : Matching) :
    List Bool → List (Thread Unit) → List (Thread Unit) → Prop
  | nil : Mixed macros ρ μ [] [] []
  | own {th th' : Thread Unit} {flags : List Bool} {ts ts' : List (Thread Unit)} :
    th.Beside macros μ anyResults th' → Mixed macros ρ μ flags ts ts' →
    Mixed macros ρ μ (true :: flags) (th :: ts) (th' :: ts')
  | other {th : Thread Unit} {flags : List Bool} {ts ts' : List (Thread Unit)} :
    th.code.Abide (matched macros).rules ρ anyResults th.code → Mixed macros ρ μ flags ts ts' →
    Mixed macros ρ μ (false :: flags) (th :: ts) ts'

namespace Mixed

variable {flags flags' : List Bool} {ts ts' new new' : List (Thread Unit)} {i : Nat}
  {th th' : Thread Unit}

theorem mono (h : Mixed macros ρ μ flags ts ts') (hρ : ρ ≤ ρ') (hμ : μ ≤ ν) :
    Mixed macros ρ' ν flags ts ts' := by
  induction h with
  | nil => exact .nil
  | own hth _ ih => exact .own (hth.mono lasting_anyResults hμ) ih
  | other hth _ ih => exact .other (hth.mono lasting_anyResults hρ) ih

theorem append (h : Mixed macros ρ μ flags ts ts') (h' : Mixed macros ρ μ flags' new new') :
    Mixed macros ρ μ (flags ++ flags') (ts ++ new) (ts' ++ new') := by
  induction h with
  | nil => exact h'
  | own hth _ ih => exact .own hth ih
  | other hth _ ih => exact .other hth ih

theorem of_own (h : List.Forall₂ (Thread.Beside macros μ anyResults) new new') :
    Mixed macros ρ μ (List.replicate new.length true) new new' := by
  induction h with
  | nil => exact .nil
  | cons hth _ ih => exact .own hth ih

theorem of_others (h : ∀ th ∈ new, th.code.Abide (matched macros).rules ρ anyResults th.code) :
    Mixed macros ρ μ (List.replicate new.length false) new [] := by
  induction new with
  | nil => exact .nil
  | cons th rest ih =>
    obtain ⟨hth, hrest⟩ := List.forall_mem_cons.1 h
    exact .other hth (ih hrest)

theorem length_eq (h : Mixed macros ρ μ flags ts ts') : ts'.length = flags.count true := by
  induction h with
  | nil => rfl
  | own _ _ ih => rw [List.length_cons, List.count_cons_self, ih]
  | other _ _ ih => rw [List.count_cons_of_ne Bool.false_ne_true, ih]

/-- A thread of our own has its like in the second pool, and they may change alike. -/
theorem own_at (h : Mixed macros ρ μ flags ts ts') (hi : flags[i]? = some true)
    (hget : ts[i]? = some th) : ∃ th', ts'[place flags i]? = some th' ∧
      th.Beside macros μ anyResults th' ∧
      ∀ {th₁ th₁' : Thread Unit}, th₁.Beside macros μ anyResults th₁' →
        Mixed macros ρ μ flags (ts.set i th₁) (ts'.set (place flags i) th₁') := by
  induction h generalizing i with
  | nil => cases hi
  | own hth hrest ih =>
    cases i with
    | zero =>
      cases hget
      exact ⟨_, rfl, hth, fun hth₁ => .own hth₁ hrest⟩
    | succ i =>
      obtain ⟨th', hget', hbeside, hset⟩ := ih hi hget
      -- one of our own in front counts, and another thread does not
      have hplace {fs : List Bool} : place (true :: fs) (i + 1) = place fs i + 1 := by
        rw [place, List.take_succ_cons, List.count_cons_self, place]
      rw [hplace]
      exact ⟨th', hget', hbeside, fun hth₁ => .own hth (hset hth₁)⟩
  | other hth hrest ih =>
    cases i with
    | zero => cases hi
    | succ i =>
      obtain ⟨th', hget', hbeside, hset⟩ := ih hi hget
      have hplace {fs : List Bool} : place (false :: fs) (i + 1) = place fs i := by
        rw [place, List.take_succ_cons, List.count_cons_of_ne Bool.false_ne_true, place]
      rw [hplace]
      exact ⟨th', hget', hbeside, fun hth₁ => .other hth (hset hth₁)⟩

/-- Another thread keeps to what is confined, and may change as it likes if it goes on so. -/
theorem other_at (h : Mixed macros ρ μ flags ts ts') (hi : flags[i]? ≠ some true)
    (hget : ts[i]? = some th) : th.code.Abide (matched macros).rules ρ anyResults th.code ∧
      ∀ {th₁ : Thread Unit}, th₁.code.Abide (matched macros).rules ρ anyResults th₁.code →
        Mixed macros ρ μ flags (ts.set i th₁) ts' := by
  -- the flags say which threads are matched; the one at hand is not
  induction h generalizing i with
  | nil => cases hget
  | own hth hrest ih =>
    cases i with
    | zero => exact absurd rfl hi
    | succ i =>
      obtain ⟨hother, hset⟩ := ih hi hget
      exact ⟨hother, fun hth₁ => .own hth (hset hth₁)⟩
  | other hth hrest ih =>
    cases i with
    | zero =>
      cases hget
      exact ⟨hth, fun hth₁ => .other hth₁ hrest⟩
    | succ i =>
      obtain ⟨hother, hset⟩ := ih hi hget
      exact ⟨hother, fun hth₁ => .other hth (hset hth₁)⟩

end Mixed

/-! ### Runs beside other threads -/

/-- The flags in a pool in which our own threads stand behind `n` others. -/
def flagsBehind (n own : Nat) : List Bool := List.replicate n false ++ List.replicate own true

theorem mine?_behind {n own : Nat} {who : Option Nat} (h : ∀ i, who = some i → i < own) :
    mine? (flagsBehind n own) (who.map (n + ·)) = some who := by
  cases who with
  | none => rfl
  | some i =>
    have hi := h i rfl
    have hflag : (flagsBehind n own)[n + i]? = some true := by
      rw [flagsBehind, List.getElem?_append_right (by simp), List.length_replicate,
        Nat.add_sub_cancel_left, List.getElem?_replicate_of_lt hi]
    have hplace : place (flagsBehind n own) (n + i) = i := by
      simp [place, flagsBehind, List.take_append, List.take_replicate, List.count_replicate,
        Nat.min_eq_left (Nat.le_of_lt hi)]
    exact mine?_task_eq_some.2 ⟨hflag, congrArg some hplace⟩

@[simp] theorem flagsBehind_zero (n : Nat) : flagsBehind n 0 = List.replicate n false :=
  List.append_nil _

/-- Our own threads do alike in both pools.  In the second one there are idle threads besides, and
in the first one threads that keep to what is confined. -/
structure Pool.Beside (macros : Nat) (ρ μ : Matching) (Q : Matching → α → α → Prop)
    (idle : List (Thread Unit)) (flags : List Bool) (p q : Pool α) : Prop where
  state : Apart macros ρ μ p.state q.state
  main : p.main.Beside macros μ Q q.main
  tasks : ∃ own, q.tasks = idle ++ own ∧ Mixed macros ρ μ flags p.tasks own

namespace Pool

variable {Q : Matching → α → α → Prop} {idle : List (Thread Unit)} {flags : List Bool}
  {p p' q : Pool α} {m : Option Nat × Label} {ms : List (Option Nat × Label)} {who : Option Nat}

/-- The others move, and for our own threads nothing has happened. -/
theorem Step.beside_other (h : Step p m p') (hp : p.Beside macros ρ μ Q idle flags q)
    (hm : mine? flags m.1 = none) :
    ∃ ρ', p'.Beside macros ρ' μ Q idle (flagsAfter flags m) q := by
  obtain ⟨hstate, hmain, own, hq, hmixed⟩ := hp
  cases h with
  -- the first thread is one of our own
  | main => cases hm
  | @task _ _ _ _ _ l i _ _ hget hstep =>
    have hi := mine?_task_eq_none.1 hm
    obtain ⟨-, ρ', hle, hstate', hth', hnew⟩ :=
      Thread.Step.abides (D := bystanding macros μ q.state) hstep hstate (hmixed.other_at hi hget).1
    have hset := ((hmixed.mono hle (le_refl μ)).other_at hi hget).2 hth'
    have hall := hset.append (.of_others hnew)
    rw [hstep.length_new, List.append_nil] at hall
    refine ⟨ρ', hstate', hmain, own, hq, ?_⟩
    rwa [flagsAfter, hm]

/-- One of our own threads moves, and so does its like. -/
theorem Step.beside_own (hQ : Lasting Q) (h : Step p m p')
    (hp : p.Beside macros ρ μ Q idle flags q) (hm : mine? flags m.1 = some who) :
    ∃ m' q' ν, Step q m' q' ∧ turn m' = (who.map (idle.length + ·), m.2.refusal?) ∧
      m'.2.starts = m.2.starts ∧ (∀ i, who = some i → i < flags.count true) ∧
      p'.Beside macros ρ ν Q idle (flagsAfter flags m) q' := by
  obtain ⟨hstate, hmain, own, hq, hmixed⟩ := hp
  obtain ⟨t, main', tasks'⟩ := q
  subst hq
  cases h with
  | main hstep =>
    cases hm
    obtain ⟨l', t', th', new', ν, hstep', hrefusal, hstarts, hle, hstate', hth', hnew⟩ :=
      hstep.own hstate hmain
    have hall := (hmixed.mono (le_refl ρ) hle).append (.of_own hnew)
    rw [hstep.length_new] at hall
    refine ⟨_, _, ν, .main hstep', Prod.ext rfl hrefusal, hstarts, nofun, hstate', hth',
      own ++ new', List.append_assoc .., hall⟩
  | @task _ _ _ _ _ l i _ _ hget hstep =>
    obtain ⟨hi, rfl⟩ := mine?_task_eq_some.1 hm
    -- the like of the thread stands behind the idle threads, at its place among our own
    obtain ⟨th', hget', hth, -⟩ := hmixed.own_at hi hget
    obtain ⟨l', t', th₁', new', ν, hstep', hrefusal, hstarts, hle, hstate', hth₁, hnew⟩ :=
      hstep.own hstate hth
    obtain ⟨-, -, -, hset⟩ := (hmixed.mono (le_refl ρ) hle).own_at hi hget
    have hall := (hset hth₁).append (.of_own hnew)
    rw [hstep.length_new] at hall
    have hplace : (idle ++ own)[idle.length + place flags i]? = some th' := by
      rw [List.getElem?_append_right (Nat.le_add_right _ _), Nat.add_sub_cancel_left, hget']
    refine ⟨_, _, ν, .task hplace hstep', Prod.ext rfl hrefusal, hstarts, ?_, hstate',
      hmain.mono hQ hle, own.set (place flags i) th₁' ++ new', ?_, ?_⟩
    · intro j hj
      cases hj
      rw [← hmixed.length_eq]
      exact (List.getElem?_eq_some_iff.1 hget').1
    · dsimp only
      rw [List.set_append_right _ _ (Nat.le_add_right _ _), Nat.add_sub_cancel_left,
        List.append_assoc]
    · rwa [flagsAfter, hm]

/-- **A run beside other threads is matched by a run without them.**  Our own threads take the same
turns in both, and the others take none in the second one. -/
theorem Runs.beside (hQ : Lasting Q) (h : Runs p ms p') (hp : p.Beside macros ρ μ Q idle flags q) :
    ∃ ns q' ρ' ν flags', Runs q ns q' ∧
      ns.map turn = (flaggedTurns flags ms).map (fun t => (t.1.map (idle.length + ·), t.2)) ∧
      flaggedTurns (flagsBehind idle.length (flags.count true)) ns = flaggedTurns flags ms ∧
      p'.Beside macros ρ' ν Q idle flags' q' := by
  induction h generalizing ρ μ flags q with
  | refl => exact ⟨[], q, ρ, μ, flags, .refl, rfl, rfl, hp⟩
  | @step _ _ _ m ms hstep _ ih =>
    rw [flaggedTurns]
    cases hm : mine? flags m.1 with
    | none =>
      obtain ⟨ρ', hp'⟩ := hstep.beside_other hp hm
      -- a thread that is not ours starts none that is
      have hcount : (flagsAfter flags m).count true = flags.count true := by
        simp [flagsAfter, hm, List.count_replicate]
      rw [← hcount]
      exact ih hp'
    | some who =>
      obtain ⟨m', q', ν, hstep', hturn, hstarts, hwho, hp'⟩ := hstep.beside_own hQ hp hm
      obtain ⟨hmover, hrefusal⟩ := Prod.mk.inj hturn
      obtain ⟨ns, r, ρ', ν', flags', hruns, hturns, howns, hr⟩ := ih hp'
      -- in the second pool the idle threads stand in front, and our own keep their order
      have hmine : mine? (flagsBehind idle.length (flags.count true)) m'.1 = some who := by
        rw [hmover]
        exact mine?_behind hwho
      have hafter : flagsAfter (flagsBehind idle.length (flags.count true)) m' =
          flagsBehind idle.length ((flagsAfter flags m).count true) := by
        rw [flagsAfter, flagsAfter, hmine, hm, hstarts]
        simp [flagsBehind, List.append_assoc, List.replicate_append_replicate]
      refine ⟨m' :: ns, r, ρ', ν', flags', .step hstep' hruns, ?_, ?_, hr⟩
      · rw [List.map_cons, hturn, hturns]
        rfl
      · rw [flaggedTurns, hmine, hafter, howns]
        exact congrArg (fun refusal => (who, refusal) :: _) hrefusal

end Pool

end Monkey
