import Monkey.Proofs.Actions
import Monkey.Proofs.Joins
import Monkey.Threads.Pool

/-!
# The registry of a pool

Evaluation registers tasks, sends their results, closes their senders and joins them, each of these
at once.  Whatever the threads of a pool do, their registry gets from one state to another one as it
does where threads share it and take turns within their joins as well.  So what holds of threads
that share a registry holds of the threads of a pool: they number their tasks in order, and all
joins of a task give the same.

## Main definitions

* `Label.issued?`, `Label.answered?` — the number that is given out in a move, and the result.
* `Tasks.Leads` — what threads that share a registry can make of it.

## Main results

* `Pool.Runs.leads` — **what a pool does to the registry, threads that share it do.**
* `SharedTasks.Runs.issued_eq_range`, `Tasks.Leads.issued_eq` — tasks are numbered in order whatever
  threads do.
* `Pool.Runs.answers_agree` — all joins of a task agree.
-/

namespace Monkey

/-! ### Numbers and results -/

/-- The number of the task that the event registers, if it registers one. -/
def TaskEvent.issued? : TaskEvent → Option Nat
  | .registered id => some id
  | _ => none

/-- The task whose result the event gives, and the result. -/
def TaskEvent.answered? : TaskEvent → Option (Nat × Value)
  | .returned _ id value => some (id, value)
  | _ => none

namespace Action

/-- The number of the task that the action registers, if it registers one. -/
def issued? : {β : Type} → Action β → β → Option Nat
  | _, .register, id => some id
  | _, _, _ => none

/-- The task whose result the action gives, and the result. -/
def answered? : {β : Type} → Action β → β → Option (Nat × Value)
  | _, .join id, some value => some (id, value)
  | _, _, _ => none

end Action

namespace Label

/-- The number of the task that is registered in the move, if one is. -/
def issued? : Label → Option Nat
  | .acted _ a b => a.issued? b
  | _ => none

/-- The task whose result is given in the move, and the result. -/
def answered? : Label → Option (Nat × Value)
  | .acted _ a b => a.answered? b
  | _ => none

end Label

/-! ### What threads that share a registry make of it -/

namespace SharedTasks

variable {r r' : SharedTasks} {e : TaskEvent} {es : List TaskEvent}

/-- A task is registered under the next number. -/
theorem Step.nextId_eq_of_issued (h : Step r e r') {id : Nat} (hid : e.issued? = some id) :
    id = r.tasks.nextId ∧ r'.tasks.nextId = r.tasks.nextId + 1 := by
  cases h with
  | register =>
    cases hid
    exact ⟨rfl, r.tasks.nextId_register⟩
  | _ => cases hid

/-- Other steps give out no number. -/
theorem Step.nextId_eq (h : Step r e r') (hid : e.issued? = none) :
    r'.tasks.nextId = r.tasks.nextId := by
  cases h with
  | register => cases hid
  | send hsend =>
    obtain ⟨-, rfl⟩ := Tasks.send_eq_sent hsend
    rfl
  | close hclose =>
    obtain ⟨sent, -, rfl⟩ := Tasks.close_eq_true hclose
    rfl
  | receive _ hreceive =>
    rcases Tasks.receive_eq_some hreceive with ⟨-, rfl⟩ | ⟨-, rfl⟩ <;> rfl
  | finish | lock | ask => rfl

/-- **Tasks are numbered in order whatever threads do.** -/
theorem Runs.issued_eq_range (h : Runs r es r') :
    es.filterMap TaskEvent.issued? =
        List.range' r.tasks.nextId (es.filterMap TaskEvent.issued?).length ∧
      r'.tasks.nextId = r.tasks.nextId + (es.filterMap TaskEvent.issued?).length := by
  induction h with
  | refl => exact ⟨rfl, rfl⟩
  | step hstep _ ih =>
    obtain ⟨hrange, hnext⟩ := ih
    rw [hnext]
    -- a step gives out the next number, or none
    cases hid : TaskEvent.issued? _ with
    | none =>
      rw [List.filterMap_cons_none hid, ← hstep.nextId_eq hid]
      exact ⟨hrange, rfl⟩
    | some id =>
      obtain ⟨rfl, hsucc⟩ := hstep.nextId_eq_of_issued hid
      rw [List.filterMap_cons_some hid, List.length_cons, List.range'_succ, ← hsucc, ← hrange]
      exact ⟨rfl, by omega⟩

end SharedTasks

/-- Threads that share the registry `t` can make `u` of it, while they give out the numbers `issued`
and are given the results `answered`, in this order.  No join is under way before and afterwards. -/
def Tasks.Leads (t : Tasks) (issued : List Nat) (answered : List (Nat × Value)) (u : Tasks) :
    Prop :=
  ∃ es, SharedTasks.Runs ⟨t, fun _ => none⟩ es ⟨u, fun _ => none⟩ ∧
    es.filterMap TaskEvent.issued? = issued ∧ es.filterMap TaskEvent.answered? = answered

namespace Tasks

variable {t u w : Tasks} {issued issued' : List Nat} {answered answered' : List (Nat × Value)}

theorem Leads.refl (t : Tasks) : t.Leads [] [] t := ⟨[], .refl, rfl, rfl⟩

theorem Leads.trans (h : t.Leads issued answered u) (h' : u.Leads issued' answered' w) :
    t.Leads (issued ++ issued') (answered ++ answered') w := by
  obtain ⟨es, hruns, rfl, rfl⟩ := h
  obtain ⟨more, hruns', rfl, rfl⟩ := h'
  exact ⟨es ++ more, hruns.trans hruns', List.filterMap_append, List.filterMap_append⟩

/-- Whatever leads on from a registry as registries come about leads to another one. -/
theorem Leads.valid (h : t.Leads issued answered u) (ht : t.Valid) : u.Valid := by
  obtain ⟨es, hruns, -, -⟩ := h
  exact hruns.valid ht

theorem Leads.issued_eq (h : t.Leads issued answered u) :
    issued = List.range' t.nextId issued.length ∧ u.nextId = t.nextId + issued.length := by
  obtain ⟨es, hruns, rfl, -⟩ := h
  exact hruns.issued_eq_range

/-- Two results that were given of one task are the same. -/
theorem Leads.answers_agree (h : t.Leads issued answered u) (ht : t.Valid) {id : Nat}
    {value value' : Value} (hmem : (id, value) ∈ answered) (hmem' : (id, value') ∈ answered) :
    value = value' := by
  obtain ⟨es, hruns, -, rfl⟩ := h
  -- both were put down as the result, and there is only one
  have hjoined {value : Value} (hmem : (id, value) ∈ es.filterMap TaskEvent.answered?) :
      u.get? id = some (.joined value) := by
    obtain ⟨e, he, hanswer⟩ := List.mem_filterMap.1 hmem
    cases e with
    | returned joiner other result =>
      cases hanswer
      exact hruns.joined_of_mem ht he
    | _ => cases hanswer
  have hstate := (hjoined hmem).symm.trans (hjoined hmem')
  cases hstate
  rfl

theorem leads_send (t : Tasks) (id : Nat) (value : Value) : t.Leads [] [] (t.send id value).2 := by
  cases hsend : t.send id value with
  | mk delivery u =>
    cases delivery with
    | sent => exact ⟨[.accepted id value], .step (.send hsend) .refl, rfl, rfl⟩
    | full | noSender =>
      -- what is not delivered changes nothing
      have hsame : u = t := by
        unfold send at hsend
        split at hsend <;> cases hsend
        rfl
      rw [hsame]
      exact .refl t

theorem leads_close (t : Tasks) (id : Nat) : t.Leads [] [] (t.close id).2 := by
  cases hclose : t.close id with
  | mk closed u =>
    cases closed with
    | true => exact ⟨[.closed id], .step (.close hclose) .refl, rfl, rfl⟩
    | false =>
      have hsame : u = t := by
        unfold close at hclose
        split at hclose <;> cases hclose
        rfl
      rw [hsame]
      exact .refl t

theorem leads_register (t : Tasks) : t.Leads [t.nextId] [] t.register.2 :=
  ⟨[.registered t.nextId], .step .register .refl, rfl, rfl⟩

/-- A join that is given a result. -/
theorem leads_join {id : Nat} {value : Value} (h : (t.join id).1 = .result value) :
    t.Leads [] [(id, value)] (t.join id).2 := by
  have hjoin : t.join id = (.result value, (t.join id).2) := Prod.ext h rfl
  obtain ⟨es, hruns, hes⟩ := SharedTasks.runs_of_join (r := ⟨t, fun _ => none⟩) 0 rfl hjoin
  refine ⟨_, hruns, ?_, ?_⟩
  · rw [List.filterMap_append, List.filterMap_eq_nil_iff.2]
    · rfl
    · intro e he
      obtain rfl | ⟨taken, rfl⟩ := hes e he <;> rfl
  · rw [List.filterMap_append, List.filterMap_eq_nil_iff.2]
    · rfl
    · intro e he
      obtain rfl | ⟨taken, rfl⟩ := hes e he <;> rfl

end Tasks

/-! ### Pools -/

/-- What an action does to the registry, threads that share it do. -/
theorem Action.leads {β : Type} {a : Action β} {s t : State} {b : β}
    (h : a.run s = some (b, t)) :
    s.tasks.Leads (a.issued? b).toList (a.answered? b).toList t.tasks := by
  cases a with
  | stuck => cases h
  | register =>
    cases h
    exact s.tasks.leads_register
  | send id value =>
    cases h
    exact s.tasks.leads_send id value
  | close id =>
    cases h
    exact s.tasks.leads_close id
  | join id =>
    obtain ⟨hreply, rfl⟩ := Eval.joinTask_eq_some_iff.1 h
    cases b with
    | some value => exact Tasks.leads_join hreply
    -- a task that is not known stays unknown
    | none =>
      have hsame : (s.tasks.join id).2 = s.tasks := by
        rw [Tasks.join, Tasks.join_eq_unknown_iff.1 hreply]
      rw [hsame]
      exact .refl s.tasks
  | note | fresh | newScope | setName | look | print | permit | enterCall | leaveCall =>
    cases h
    exact .refl s.tasks

theorem Thread.Step.leads {α : Type} {s t : State} {th th' : Thread α} {l : Label}
    {new : List (Thread Unit)} (h : Thread.Step s th l t th' new) :
    s.tasks.Leads l.issued?.toList l.answered?.toList t.tasks := by
  cases h with
  | act hrun => exact (Action.leads hrun :)
  | start => exact .refl s.tasks
  | refuse => exact s.tasks.leads_close _

namespace Pool

variable {α : Type} {p q : Pool α} {m : Option Nat × Label} {ms : List (Option Nat × Label)}

theorem Step.leads (h : Step p m q) :
    p.state.tasks.Leads m.2.issued?.toList m.2.answered?.toList q.state.tasks := by
  cases h with
  | main hstep => exact hstep.leads
  | task _ hstep => exact hstep.leads

/-- **What a pool does to the registry, threads that share it do.** -/
theorem Runs.leads (h : Runs p ms q) :
    p.state.tasks.Leads (ms.filterMap fun m => m.2.issued?) (ms.filterMap fun m => m.2.answered?)
      q.state.tasks := by
  induction h with
  | refl => exact .refl _
  | @step _ _ _ m ms hstep _ ih =>
    have hmove {β : Type} (f : Label → Option β) : (m :: ms).filterMap (fun m => f m.2) =
        (f m.2).toList ++ ms.filterMap fun m => f m.2 := by
      cases hf : f m.2 with
      | none => exact List.filterMap_cons_none hf
      | some b => exact List.filterMap_cons_some hf
    rw [hmove Label.issued?, hmove Label.answered?]
    exact hstep.leads.trans ih

/-- All joins of a task agree. -/
theorem Runs.answers_agree (h : Runs p ms q) (hp : p.state.tasks.Valid) {id : Nat}
    {value value' : Value} (hmem : (id, value) ∈ ms.filterMap fun m => m.2.answered?)
    (hmem' : (id, value') ∈ ms.filterMap fun m => m.2.answered?) : value = value' :=
  h.leads.answers_agree hp hmem hmem'

end Pool

end Monkey
