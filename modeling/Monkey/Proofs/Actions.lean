import Monkey.Proofs.Allocation
import Monkey.Proofs.Frame

/-!
# What a single action does

An action writes to one scope at most, keeps one value at most in the state, and changes one task at
most.  What is said here of all actions is what every property of the runs of threads begins with.

## Main definitions

* `Action.written?`, `Action.stored`, `Action.registers` — what an action may change.

## Main results

* `Action.grown` — **an action changes no other scope than the one that it writes to.**
* `Action.stores` — what holds of all values in the state holds of them afterwards.
* `Action.valid`, `Action.nextId_eq` — what becomes of the registry.
-/

namespace Monkey

namespace Action

/-- The scope that the action writes to. -/
def written? : {β : Type} → Action β → Option Nat
  | _, .setName scope _ _ => some scope
  | _, _ => none

/-- The values that the action keeps in the state. -/
def stored : {β : Type} → Action β → List Value
  | _, .setName _ _ v | _, .send _ v => [v]
  | _, _ => []

/-- Whether the action registers a task. -/
def registers : {β : Type} → Action β → Bool
  | _, .register => true
  | _, _ => false

variable {β : Type} {a : Action β} {s t : State} {b : β}

/-- **An action changes no other scope than the one that it writes to.** -/
theorem grown (h : a.run s = some (b, t)) :
    s.scopes.Grown (fun id => a.written? = some id) t.scopes := by
  cases a with
  | stuck => cases h
  | newScope outer =>
    cases h
    exact Scopes.grown_add _ _ outer
  | setName scope name v =>
    cases h
    exact Scopes.grown_set (by rfl) _ name v
  | join id =>
    obtain ⟨-, rfl⟩ := Eval.joinTask_eq_some_iff.1 h
    exact .refl _ _
  | note | fresh | look | print | permit | enterCall | leaveCall | register | send | close =>
    cases h
    exact .refl _ _

/-- **What holds of all values in the state holds of them afterwards**, if it holds of what the
action keeps. -/
theorem stores {P : Value → Prop} (hs : s.Stores P) (hnull : P .null) (ha : ∀ v ∈ a.stored, P v)
    (h : a.run s = some (b, t)) : t.Stores P := by
  cases a with
  | stuck => cases h
  | newScope outer =>
    cases h
    exact hs.newScope outer
  | setName scope name v =>
    cases h
    exact hs.setName (ha v List.mem_cons_self) scope name
  | register =>
    cases h
    exact hs.registerTask
  | send id v =>
    cases h
    exact hs.sendResult id (ha v List.mem_cons_self)
  | close id =>
    cases h
    exact hs.closeTask id
  -- a join stores what was stored already, or `null`
  | join id =>
    obtain ⟨-, rfl⟩ := Eval.joinTask_eq_some_iff.1 h
    exact hs.joinTask hnull id
  | note | fresh | look | print | permit | enterCall | leaveCall =>
    cases h
    exact hs.congr rfl id

/-- A valid registry stays so. -/
theorem valid (hs : s.tasks.Valid) (h : a.run s = some (b, t)) : t.tasks.Valid := by
  cases a with
  | stuck => cases h
  | register =>
    cases h
    exact hs.register
  | send id v =>
    cases h
    exact hs.send id v
  | close id =>
    cases h
    exact hs.close id
  | join id =>
    obtain ⟨-, rfl⟩ := Eval.joinTask_eq_some_iff.1 h
    exact hs.join id
  | note | fresh | newScope | setName | look | print | permit | enterCall | leaveCall =>
    cases h
    exact hs

/-- Only who registers a task has a number given out. -/
theorem nextId_eq (h : a.run s = some (b, t)) :
    t.tasks.nextId = s.tasks.nextId + a.registers.toNat := by
  cases a with
  | stuck => cases h
  | send id v =>
    cases h
    exact s.tasks.nextId_send id v
  | close id =>
    cases h
    exact s.tasks.nextId_close id
  | join id =>
    obtain ⟨-, rfl⟩ := Eval.joinTask_eq_some_iff.1 h
    exact s.tasks.nextId_join id
  | note | fresh | newScope | setName | look | print | permit | enterCall | leaveCall | register =>
    cases h
    rfl

end Action

end Monkey
