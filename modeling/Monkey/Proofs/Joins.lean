import Monkey.Tasks.Sharing

/-!
# All joins of a task agree

However the threads that share a registry take turns, everybody who is given the result of a task is
given the same one: the last value that went into its channel before its sender was closed, or
`null` if none did.

A step changes one task only.  What carries the argument is the value that is *pending* for a task:
the value in its channel or, where that is empty, the one that the join under way took out of it
last.  Only sending changes it.  So it is always the last value that the channel accepted, and a
join ends exactly where the channel is empty and closed, with what is pending.

## Main definitions

* `TaskView`, `TaskStep` — what is known of one task, and what a step makes of it.
* `TaskView.pending` — the value that a join would give if nothing else were sent.
* `lastAccepted` — the last value that went into the channel of a task.

## Main results

* `SharedTasks.Step.view_of_ne` — **a step changes one task only.**
* `TaskStep.pending_eq` — **only sending changes what is pending.**
* `SharedTasks.runs_of_join` — what `Tasks.join` does at once is a run of such steps.
* `joins_agree` — **all joins of a task agree**, and nothing changes their result afterwards.
-/

namespace Monkey

/-! ### What the operations do to a task -/

namespace Tasks

variable {t u : Tasks} {id : Nat} {value : Value}

theorem send_eq_sent (h : t.send id value = (.sent, u)) :
    (t.slot? id).map TaskEntry.state = some (.running none) ∧
      u = t.put id (.running (some value)) := by
  unfold send at h
  split at h
  · next hslot =>
    cases h
    exact ⟨hslot, rfl⟩
  · cases h
  · cases h

theorem close_eq_true (h : t.close id = (true, u)) :
    ∃ sent, (t.slot? id).map TaskEntry.state = some (.running sent) ∧
      u = t.put id (.ended sent) := by
  unfold close at h
  split at h
  · next sent hslot =>
    cases h
    exact ⟨sent, hslot, rfl⟩
  · cases h

theorem receive_eq_some (h : t.receive id = some (value, u)) :
    (t.get? id = some (.running (some value)) ∧ u = t.put id (.running none)) ∨
      (t.get? id = some (.ended (some value)) ∧ u = t.put id (.ended none)) := by
  unfold receive at h
  split at h
  · next hget =>
    cases h
    exact Or.inl ⟨hget, rfl⟩
  · next hget =>
    cases h
    exact Or.inr ⟨hget, rfl⟩
  · cases h

/-- Taking a value out of a channel leaves a registry as registries come about. -/
theorem Valid.receive (ht : t.Valid) (h : t.receive id = some (value, u)) : u.Valid := by
  rcases receive_eq_some h with ⟨-, rfl⟩ | ⟨-, rfl⟩ <;> exact ht.put id _

end Tasks

/-! ### One task -/

/-- What is known of one task: its state, if it is there, and the join that is under way. -/
structure TaskView where
  state : Option TaskState
  join : Option Join

/-- What is known of a task in a registry. -/
def SharedTasks.view (r : SharedTasks) (id : Nat) : TaskView := ⟨r.tasks.get? id, r.joins id⟩

/-- What a step makes of the task that it is about. -/
inductive TaskStep : TaskView → TaskEvent → TaskView → Prop
  | register {id : Nat} {join : Option Join} :
    TaskStep ⟨none, join⟩ (.registered id) ⟨some (.running none), join⟩
  | send {id : Nat} {value : Value} {join : Option Join} :
    TaskStep ⟨some (.running none), join⟩ (.accepted id value)
      ⟨some (.running (some value)), join⟩
  | close {id : Nat} {sent : Option Value} {join : Option Join} :
    TaskStep ⟨some (.running sent), join⟩ (.closed id) ⟨some (.ended sent), join⟩
  | lock {state : TaskState} {joiner id : Nat} : (∀ value, state ≠ .joined value) →
    TaskStep ⟨some state, none⟩ (.locked joiner id) ⟨some state, some ⟨joiner, .null⟩⟩
  | receiveOpen {id : Nat} {value : Value} {join : Join} :
    TaskStep ⟨some (.running (some value)), some join⟩ (.received id value)
      ⟨some (.running none), some { join with last := value }⟩
  | receiveClosed {id : Nat} {value : Value} {join : Join} :
    TaskStep ⟨some (.ended (some value)), some join⟩ (.received id value)
      ⟨some (.ended none), some { join with last := value }⟩
  | finish {id : Nat} {join : Join} :
    TaskStep ⟨some (.ended none), some join⟩ (.returned join.joiner id join.last)
      ⟨some (.joined join.last), none⟩
  | ask {joiner id : Nat} {value : Value} :
    TaskStep ⟨some (.joined value), none⟩ (.returned joiner id value)
      ⟨some (.joined value), none⟩

namespace TaskView

/-- The value that a join gives if nothing else is sent: the value in the channel, or else the one
that was taken out of it last. -/
def pending (v : TaskView) : Value :=
  let taken := match v.join with
    | some join => join.last
    | none => .null
  match v.state with
  | some (.running sent) => sent.getD taken
  | some (.ended sent) => sent.getD taken
  | some (.joined value) => value
  | none => taken

/-- Whether the sender was closed. -/
def isClosed (v : TaskView) : Bool :=
  match v.state with
  | some (.ended _) | some (.joined _) => true
  | _ => false

end TaskView

namespace SharedTasks

variable {r s t : SharedTasks} {e : TaskEvent} {es more : List TaskEvent} {id : Nat} {value : Value}

theorem view_put (r : SharedTasks) (joins : Nat → Option Join) {state : TaskState}
    (h : r.tasks.get? id = some state) (new : TaskState) :
    view ⟨r.tasks.put id new, joins⟩ id = ⟨some new, joins id⟩ := by
  rw [view, Tasks.get?_put, if_pos rfl, h]
  rfl

theorem view_put_of_ne (r : SharedTasks) {other : Nat} (h : other ≠ id) (new : TaskState) :
    view ⟨r.tasks.put id new, r.joins⟩ other = r.view other := by
  rw [view, Tasks.get?_put_of_ne _ _ h, view]

theorem view_setJoin (r : SharedTasks) (join : Option Join) :
    (r.setJoin id join).view id = ⟨(r.view id).state, join⟩ := by
  rw [view, joins_setJoin_self]
  rfl

theorem view_setJoin_of_ne (r : SharedTasks) {other : Nat} (h : other ≠ id)
    (join : Option Join) : (r.setJoin id join).view other = r.view other := by
  rw [view, joins_setJoin_of_ne r join h]
  rfl

/-- **A step changes one task only**, the one that it is about. -/
theorem Step.view_of_ne (h : Step r e s) {other : Nat} (hne : other ≠ e.id) :
    s.view other = r.view other := by
  cases h with
  | register =>
    have hsame := r.tasks.get?_register_of_ne hne
    rw [view, hsame, view]
  | send hsend =>
    obtain ⟨-, rfl⟩ := Tasks.send_eq_sent hsend
    exact r.view_put_of_ne hne _
  | close hclose =>
    obtain ⟨sent, -, rfl⟩ := Tasks.close_eq_true hclose
    exact r.view_put_of_ne hne _
  | lock => exact r.view_setJoin_of_ne hne _
  -- a step changes the entry and the join of its own task only
  | @receive id join value tasks hjoin hreceive =>
    have hother : other ≠ id := hne
    rw [view_setJoin_of_ne _ hother]
    rcases Tasks.receive_eq_some hreceive with ⟨-, rfl⟩ | ⟨-, rfl⟩
    · exact r.view_put_of_ne hne _
    · exact r.view_put_of_ne hne _
  | @finish id join hjoin hget =>
    have hother : other ≠ id := hne
    rw [view_setJoin_of_ne _ hother]
    exact r.view_put_of_ne hne _
  | ask => rfl

/-- A step leaves a registry as registries come about. -/
theorem Step.valid (h : Step r e s) (hr : r.tasks.Valid) : s.tasks.Valid := by
  cases h with
  | register => exact hr.register
  | send hsend =>
    obtain ⟨-, rfl⟩ := Tasks.send_eq_sent hsend
    exact hr.put _ _
  | close hclose =>
    obtain ⟨sent, -, rfl⟩ := Tasks.close_eq_true hclose
    exact hr.put _ _
  | lock => exact hr
  | receive _ hreceive => exact hr.receive hreceive
  | finish => exact hr.put _ _
  | ask => exact hr

/-- What a step makes of the task that it is about. -/
theorem Step.taskStep (h : Step r e s) (hr : r.tasks.Valid) :
    TaskStep (r.view e.id) e (s.view e.id) := by
  cases h with
  -- a number that was not given out has no entry before, and a new one after
  | register =>
    have hold : r.tasks.get? r.tasks.nextId = none := hr.get?_eq_none (Nat.le_refl _)
    have hnew := r.tasks.get?_register_self
    show TaskStep ⟨r.tasks.get? r.tasks.nextId, _⟩ (.registered r.tasks.nextId)
      ⟨r.tasks.register.2.get? r.tasks.nextId, _⟩
    rw [hold, hnew]
    exact .register
  | @send id value tasks hsend =>
    obtain ⟨hslot, rfl⟩ := Tasks.send_eq_sent hsend
    have hget := (hr.get?_eq id).trans hslot
    show TaskStep ⟨r.tasks.get? id, _⟩ _ (view ⟨_, r.joins⟩ id)
    rw [r.view_put r.joins hget, hget]
    exact .send
  | @close id tasks hclose =>
    obtain ⟨sent, hslot, rfl⟩ := Tasks.close_eq_true hclose
    have hget := (hr.get?_eq id).trans hslot
    show TaskStep ⟨r.tasks.get? id, _⟩ _ (view ⟨_, r.joins⟩ id)
    rw [r.view_put r.joins hget, hget]
    exact .close
  | @lock joiner id state hfree hget hstate =>
    show TaskStep ⟨r.tasks.get? id, r.joins id⟩ _ ((r.setJoin id _).view id)
    rw [view_setJoin, view, hget, hfree]
    exact .lock hstate
  -- a value is taken from the channel while the sender is open, or after it was closed
  | @receive id join value tasks hjoin hreceive =>
    show TaskStep ⟨r.tasks.get? id, r.joins id⟩ _ ((setJoin ⟨_, r.joins⟩ id _).view id)
    rw [view_setJoin, hjoin]
    rcases Tasks.receive_eq_some hreceive with ⟨hget, rfl⟩ | ⟨hget, rfl⟩
    · rw [r.view_put r.joins hget, hget]
      exact .receiveOpen
    · rw [r.view_put r.joins hget, hget]
      exact .receiveClosed
  | @finish id join hjoin hget =>
    show TaskStep ⟨r.tasks.get? id, r.joins id⟩ _ ((setJoin ⟨_, r.joins⟩ id _).view id)
    rw [view_setJoin, r.view_put r.joins hget, hget, hjoin]
    exact .finish
  | @ask joiner id value hfree hget =>
    show TaskStep ⟨r.tasks.get? id, r.joins id⟩ _ ⟨r.tasks.get? id, r.joins id⟩
    rw [hget, hfree]
    exact .ask

/-- A step leaves a task as it is, or it is about it and changes it as a step of that task. -/
theorem Step.view_cases (h : Step r e s) (hr : r.tasks.Valid) (id : Nat) :
    (id ≠ e.id ∧ s.view id = r.view id) ∨ (id = e.id ∧ TaskStep (r.view id) e (s.view id)) := by
  by_cases hid : id = e.id
  · subst hid
    exact Or.inr ⟨rfl, h.taskStep hr⟩
  · exact Or.inl ⟨hid, h.view_of_ne hid⟩

end SharedTasks

/-! ### What was accepted -/

/-- The value that an event put into the channel of a task. -/
def TaskEvent.acceptedFor (id : Nat) : TaskEvent → Option Value
  | .accepted other value => if id = other then some value else none
  | _ => none

theorem TaskEvent.acceptedFor_of_ne {e : TaskEvent} {id : Nat} (h : id ≠ e.id) :
    e.acceptedFor id = none := by
  cases e with
  | accepted other value => exact if_neg h
  | _ => rfl

/-- The last value that went into the channel of a task, or `null` if none did. -/
def lastAccepted (id : Nat) (es : List TaskEvent) : Value :=
  (es.filterMap (TaskEvent.acceptedFor id)).getLastD .null

/-! ### What a step of a task keeps -/

namespace TaskStep

variable {v w : TaskView} {e : TaskEvent} {id joiner : Nat} {value : Value}

/-- **Only sending changes what is pending.**  A join moves it from the channel into its own hands,
and from there into the result. -/
theorem pending_eq (h : TaskStep v e w) : w.pending = (e.acceptedFor e.id).getD v.pending := by
  cases h with
  | @send id value join =>
    have hvalue : TaskEvent.acceptedFor id (.accepted id value) = some value := if_pos rfl
    show value = (TaskEvent.acceptedFor id (.accepted id value)).getD _
    rw [hvalue]
    rfl
  | _ => rfl

theorem isClosed_eq_false_of_accepted (h : TaskStep v (.accepted id value) w) :
    v.isClosed = false := by
  cases h
  rfl

theorem isClosed_eq_false_of_closed (h : TaskStep v (.closed id) w) : v.isClosed = false := by
  cases h
  rfl

theorem isClosed_of_closed (h : TaskStep v (.closed id) w) : w.isClosed = true := by
  cases h
  rfl

/-- A sender that was closed stays closed, and only closing it makes it so. -/
theorem isClosed_iff (h : TaskStep v e w) :
    w.isClosed = true ↔ v.isClosed = true ∨ .closed e.id = e := by
  cases h with
  | close => simp [TaskView.isClosed, TaskEvent.id]
  | _ => simp [TaskView.isClosed]

/-- A result that was put down stays. -/
theorem joined (h : TaskStep v e w) (hv : v.state = some (.joined value)) :
    w.state = some (.joined value) := by
  cases h with
  | lock => exact hv
  | ask => exact hv
  | _ => cases hv

/-- A join gives what is pending once the sender was closed, and puts it down. -/
theorem of_returned (h : TaskStep v (.returned joiner id value) w) :
    v.isClosed = true ∧ value = v.pending ∧ w.state = some (.joined value) := by
  cases h with
  | finish => exact ⟨rfl, rfl, rfl⟩
  | ask => exact ⟨rfl, rfl, rfl⟩

end TaskStep

/-! ### Runs -/

namespace SharedTasks

variable {r s t : SharedTasks} {e : TaskEvent} {es more : List TaskEvent} {id joiner : Nat}
  {value : Value}

namespace Step

theorem pending_eq (h : Step r e s) (hr : r.tasks.Valid) (id : Nat) :
    (s.view id).pending = (e.acceptedFor id).getD (r.view id).pending := by
  rcases h.view_cases hr id with ⟨hid, hview⟩ | ⟨rfl, hstep⟩
  · rw [hview, TaskEvent.acceptedFor_of_ne hid]
    rfl
  · exact hstep.pending_eq

theorem isClosed_iff (h : Step r e s) (hr : r.tasks.Valid) (id : Nat) :
    (s.view id).isClosed = true ↔ (r.view id).isClosed = true ∨ .closed id = e := by
  rcases h.view_cases hr id with ⟨hid, hview⟩ | ⟨rfl, hstep⟩
  · rw [hview]
    have hother : .closed id ≠ e := fun he => hid (he ▸ rfl)
    exact (or_iff_left hother).symm
  · exact hstep.isClosed_iff

/-- Nothing goes into a channel whose sender was closed. -/
theorem acceptedFor_eq_none (h : Step r e s) (hr : r.tasks.Valid)
    (hclosed : (r.view id).isClosed = true) :
    e.acceptedFor id = none := by
  rcases h.view_cases hr id with ⟨hid, -⟩ | ⟨rfl, hstep⟩
  · exact TaskEvent.acceptedFor_of_ne hid
  · cases e with
    | accepted other value =>
      rw [hstep.isClosed_eq_false_of_accepted] at hclosed
      cases hclosed
    | _ => rfl

theorem joined (h : Step r e s) (hr : r.tasks.Valid)
    (hjoined : (r.view id).state = some (.joined value)) :
    (s.view id).state = some (.joined value) := by
  rcases h.view_cases hr id with ⟨-, hview⟩ | ⟨rfl, hstep⟩
  · rw [hview]
    exact hjoined
  · exact hstep.joined hjoined

end Step

namespace Runs

theorem trans (h : Runs r es s) (h' : Runs s more t) : Runs r (es ++ more) t := by
  induction h with
  | refl => exact h'
  | step hstep _ ih => exact .step hstep (ih h')

/-- A run leaves a registry as registries come about. -/
theorem valid (h : Runs r es s) (hr : r.tasks.Valid) : s.tasks.Valid := by
  induction h with
  | refl => exact hr
  | step hstep _ ih => exact ih (hstep.valid hr)

/-- A run stops on the way wherever its events are split. -/
theorem split (h : Runs r (es ++ more) t) : ∃ s, Runs r es s ∧ Runs s more t := by
  induction es generalizing r with
  | nil => exact ⟨r, .refl, h⟩
  | cons e es ih =>
    cases h with
    | step hstep hruns =>
      obtain ⟨s, hbefore, hafter⟩ := ih hruns
      exact ⟨s, .step hstep hbefore, hafter⟩

/-- A run takes a step at each of its events. -/
theorem split_at (h : Runs r (es ++ e :: more) t) :
    ∃ s s', Runs r es s ∧ Step s e s' ∧ Runs s' more t := by
  obtain ⟨s, hbefore, hrest⟩ := h.split
  cases hrest with
  | step hstep hafter => exact ⟨s, _, hbefore, hstep, hafter⟩

/-- What is pending for a task is the last value that its channel accepted since. -/
theorem pending_eq (h : Runs r es s) (hr : r.tasks.Valid) (id : Nat) :
    (s.view id).pending =
      (es.filterMap (TaskEvent.acceptedFor id)).getLastD (r.view id).pending := by
  induction h with
  | refl => rfl
  | @step r s t e es hstep _ ih =>
    rw [ih (hstep.valid hr), hstep.pending_eq hr]
    cases haccepted : e.acceptedFor id with
    | none => rw [List.filterMap_cons_none haccepted, Option.getD_none]
    | some value => rw [List.filterMap_cons_some haccepted, List.getLastD_cons, Option.getD_some]

theorem isClosed_iff (h : Runs r es s) (hr : r.tasks.Valid) (id : Nat) :
    (s.view id).isClosed = true ↔ (r.view id).isClosed = true ∨ .closed id ∈ es := by
  induction h with
  | refl => simp
  | step hstep _ ih => rw [ih (hstep.valid hr), hstep.isClosed_iff hr, List.mem_cons, or_assoc]

/-- Nothing goes into a channel once its sender was closed. -/
theorem filterMap_acceptedFor_eq_nil (h : Runs r es s) (hr : r.tasks.Valid)
    (hclosed : (r.view id).isClosed = true) :
    es.filterMap (TaskEvent.acceptedFor id) = [] := by
  induction h with
  | refl => rfl
  | step hstep _ ih =>
    rw [List.filterMap_cons_none (hstep.acceptedFor_eq_none hr hclosed)]
    exact ih (hstep.valid hr) ((hstep.isClosed_iff hr id).2 (Or.inl hclosed))

theorem joined (h : Runs r es s) (hr : r.tasks.Valid)
    (hjoined : (r.view id).state = some (.joined value)) :
    (s.view id).state = some (.joined value) := by
  induction h with
  | refl => exact hjoined
  | step hstep _ ih => exact ih (hstep.valid hr) (hstep.joined hr hjoined)

/-- Once the sender was closed, what is pending is what went into the channel before. -/
theorem exists_closed (h : Runs start es r) (hclosed : (r.view id).isClosed = true) :
    ∃ opened rest, es = opened ++ .closed id :: rest ∧ .closed id ∉ opened ∧
      (r.view id).pending = lastAccepted id opened := by
  have hmem : .closed id ∈ es :=
    ((h.isClosed_iff Tasks.valid_empty id).1 hclosed).resolve_left Bool.false_ne_true
  obtain ⟨opened, rest, rfl⟩ := List.append_of_mem hmem
  obtain ⟨s, s', hopened, hclose, hrest⟩ := h.split_at
  have hs := hopened.valid Tasks.valid_empty
  have hclosing : TaskStep (s.view id) (.closed id) (s'.view id) := hclose.taskStep hs
  have hopen := hclosing.isClosed_eq_false_of_closed
  refine ⟨opened, rest, rfl, fun hearlier => ?_, ?_⟩
  · -- the sender would have been closed already
    rw [(hopened.isClosed_iff Tasks.valid_empty id).2 (Or.inr hearlier)] at hopen
    cases hopen
  · have hnone := hrest.filterMap_acceptedFor_eq_nil (hclose.valid hs)
      hclosing.isClosed_of_closed
    rw [h.pending_eq Tasks.valid_empty id, List.filterMap_append, List.filterMap_cons_none rfl,
      hnone, List.append_nil]
    rfl

/-- A result that was given was put down. -/
theorem joined_of_mem (h : Runs r es s) (hr : r.tasks.Valid)
    (hmem : .returned joiner id value ∈ es) :
    (s.view id).state = some (.joined value) := by
  obtain ⟨before, after, rfl⟩ := List.append_of_mem hmem
  obtain ⟨t, t', hbefore, hreturn, hafter⟩ := h.split_at
  have ht := hbefore.valid hr
  obtain ⟨-, -, hjoined⟩ := (hreturn.taskStep ht).of_returned
  exact hafter.joined (hreturn.valid ht) hjoined

end Runs

/-- A join that finds the channel of its task empty and closed gives what it took out last. -/
theorem Step.finish_of_free (hfree : r.joins id = none)
    (hempty : r.tasks.get? id = some (.ended none)) (joiner : Nat) (value : Value) :
    Step (r.setJoin id (some ⟨joiner, value⟩)) (.returned joiner id value)
      { r with tasks := r.tasks.put id (.joined value) } := by
  have hfinish := Step.finish (r.joins_setJoin_self id (some ⟨joiner, value⟩)) hempty
  have hunlock : setJoin ⟨r.tasks.put id (.joined value), r.joins⟩ id none = _ :=
    setJoin_eq_self hfree
  rw [tasks_setJoin, setJoin_setJoin, hunlock] at hfinish
  exact hfinish

/-- A join that need not wait for the sender or for the lock is a run of steps, of which the last
one gives the result. -/
theorem runs_of_join {tasks : Tasks} (joiner : Nat) (hfree : r.joins id = none)
    (h : r.tasks.join id = (.result value, tasks)) :
    ∃ es, Runs r (es ++ [.returned joiner id value]) { r with tasks := tasks } ∧
      ∀ e ∈ es, e = .locked joiner id ∨ ∃ taken, e = .received id taken := by
  unfold Tasks.join at h
  split at h
  · cases h
  · cases h
  · next sent hget =>
    cases h
    have hstate : ∀ value, TaskState.ended sent ≠ .joined value := by
      intro value hvalue
      cases hvalue
    have hlock : Step r (.locked joiner id) _ := .lock hfree hget hstate
    -- whoever locks an ended task empties its channel first
    cases sent with
    | none =>
      have hfinish := Step.finish_of_free hfree hget joiner .null
      refine ⟨[.locked joiner id], .step hlock (.step hfinish .refl), ?_⟩
      exact List.forall_mem_singleton.2 (.inl rfl)
    | some value =>
      have hreceive : r.tasks.receive id = some (value, r.tasks.put id (.ended none)) := by
        rw [Tasks.receive, hget]
      have htake := Step.receive (r.joins_setJoin_self id (some ⟨joiner, .null⟩)) hreceive
      rw [setJoin_setJoin] at htake
      have hempty : (r.tasks.put id (.ended none)).get? id = some (.ended none) := by
        rw [Tasks.get?_put, if_pos rfl, hget]
        rfl
      have hfinish := @Step.finish_of_free ⟨r.tasks.put id (.ended none), r.joins⟩ id hfree hempty
        joiner value
      rw [Tasks.put_put] at hfinish
      refine ⟨[.locked joiner id, .received id value],
        .step hlock (.step htake (.step hfinish .refl)), ?_⟩
      exact List.forall_mem_cons.2 ⟨.inl rfl, List.forall_mem_singleton.2 (.inr ⟨value, rfl⟩)⟩
  -- a task that was joined before only has to be asked
  · next result hget =>
    cases h
    exact ⟨[], .step (.ask hfree hget) .refl, List.forall_mem_nil _⟩

end SharedTasks

open SharedTasks in
/-- **All joins of a task agree.**  In every run of the threads from the empty registry, a join is
given the last value that the channel of its task accepted before the sender was closed; any two
joins of a task are given the same; a step of another task leaves it as it is; and however the run
goes on, a result that was given remains the result. -/
theorem joins_agree {es : List TaskEvent} {r : SharedTasks} (h : Runs .start es r) (id : Nat) :
    (∀ joiner value before after, es = before ++ .returned joiner id value :: after →
      ∃ opened rest, before = opened ++ .closed id :: rest ∧ .closed id ∉ opened ∧
        value = lastAccepted id opened) ∧
    (∀ joiner value joiner' value', .returned joiner id value ∈ es →
      .returned joiner' id value' ∈ es → value = value') ∧
    (∀ e s, Step r e s → id ≠ e.id → s.view id = r.view id) ∧
    (∀ joiner value, .returned joiner id value ∈ es → ∀ more s, Runs r more s →
      s.tasks.join id = (.result value, s.tasks) ∧
      ∀ joiner' value', .returned joiner' id value' ∈ more → value' = value) := by
  refine ⟨?_, ?_, ?_, ?_⟩
  -- what is returned was in the channel as the sender was closed
  · rintro joiner value before after rfl
    obtain ⟨s, s', hbefore, hreturn, -⟩ := h.split_at
    obtain ⟨hclosed, hvalue, -⟩ :=
      (hreturn.taskStep (hbefore.valid Tasks.valid_empty)).of_returned
    rw [hvalue]
    exact hbefore.exists_closed hclosed
  -- both results are what the cache holds in the end
  · intro joiner value joiner' value' hmem hmem'
    have hjoined := h.joined_of_mem Tasks.valid_empty hmem
    rw [h.joined_of_mem Tasks.valid_empty hmem'] at hjoined
    cases hjoined
    rfl
  · intro e s hstep hne
    exact hstep.view_of_ne hne
  · intro joiner value hmem more s hmore
    -- the cache is never written again
    have hr := h.valid Tasks.valid_empty
    have hjoined := hmore.joined hr (h.joined_of_mem Tasks.valid_empty hmem)
    constructor
    · have hget : s.tasks.get? id = some (.joined value) := hjoined
      rw [Tasks.join, hget]
    · intro joiner' value' hmem'
      rw [hmore.joined_of_mem hr hmem'] at hjoined
      cases hjoined
      rfl

open SharedTasks in
/-- Two threads ask for the result of task 0, one of them before anything was sent.  The second
array goes into the channel while that join is under way, and it is what both are given.  Task 1,
which sends nothing and is registered meanwhile, has the result `null`. -/
theorem joins_agree_waiting : ∃ es r, Runs .start es r ∧
    es = [.registered 0, .locked 7 0, .accepted 0 (.array 0 []), .received 0 (.array 0 []),
      .accepted 0 (.array 1 []), .registered 1, .closed 0, .closed 1, .received 0 (.array 1 []),
      .locked 8 1, .returned 7 0 (.array 1 []), .returned 8 1 .null, .returned 8 0 (.array 1 [])] ∧
    (∀ joiner value, .returned joiner 0 value ∈ es → value = .array 1 []) ∧
    (∀ joiner value, .returned joiner 1 value ∈ es → value = .null) := by
  have hrun : ∃ r, Runs .start [.registered 0, .locked 7 0, .accepted 0 (.array 0 []),
      .received 0 (.array 0 []), .accepted 0 (.array 1 []), .registered 1, .closed 0, .closed 1,
      .received 0 (.array 1 []), .locked 8 1, .returned 7 0 (.array 1 []), .returned 8 1 .null,
      .returned 8 0 (.array 1 [])] r := by
    have hopen : ∀ sent value, TaskState.running sent ≠ .joined value := fun _ _ h => by cases h
    have hended : ∀ sent value, TaskState.ended sent ≠ .joined value := fun _ _ h => by cases h
    -- the state at the end is found by doing the steps
    constructor
    case h =>
      apply Runs.step .register
      apply Runs.step (.lock rfl rfl (hopen none))
      apply Runs.step (.send rfl)
      apply Runs.step (.receive rfl rfl)
      apply Runs.step (.send rfl)
      apply Runs.step .register
      apply Runs.step (.close rfl)
      apply Runs.step (.close rfl)
      apply Runs.step (.receive rfl rfl)
      apply Runs.step (.lock rfl rfl (hended none))
      apply Runs.step (@Step.finish _ 0 ⟨7, .array 1 []⟩ rfl rfl)
      apply Runs.step (@Step.finish _ 1 ⟨8, .null⟩ rfl rfl)
      apply Runs.step (.ask rfl rfl)
      exact .refl
  obtain ⟨r, hrun⟩ := hrun
  obtain ⟨-, hagree, -⟩ := joins_agree hrun 0
  obtain ⟨-, hagree', -⟩ := joins_agree hrun 1
  exact ⟨_, r, hrun, rfl, fun joiner value hmem => hagree _ _ 7 _ hmem (by simp),
    fun joiner value hmem => hagree' _ _ 8 _ hmem (by simp)⟩

end Monkey
