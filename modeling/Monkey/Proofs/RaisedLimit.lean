import Monkey.Proofs.ActiveCalls
import Monkey.Proofs.Turns
import Monkey.Session

/-!
# A higher limit on active calls

The limit on active calls is looked at in one place, where a function is called, and all that comes
of it is whether the call is refused.  Tasks go by the limit of the run that launches them, and
count their active calls anew.  A run in which no call is refused, neither by itself nor in a task,
is therefore a run under every higher limit too, move by move, with the same numbers given out on
the way.

What the threads do depends on their turns, and on what the host refuses, and on nothing else.  So
under the higher limit no other run comes of the same turns.

## Main definitions

* `State.withLimit`, `Pool.withLimit` — states and pools with another limit on active calls.

## Main results

* `Action.run_withLimit` — **an action that refuses no call does the same under a higher limit.**
* `runs_withLimit` — **a higher limit changes nothing** about a run in which no call is refused.
-/

namespace Monkey

/-- The state with another limit on active calls. -/
def State.withLimit (s : State) (limit : Nat) : State := { s with maxCallDepth := limit }

/-- The pool with another limit on active calls. -/
def Pool.withLimit {α : Type} (p : Pool α) (limit : Nat) : Pool α :=
  { p with state := p.state.withLimit limit }

/-! ### The same moves -/

section

variable {α β : Type} {s t : State} {limit : Nat}

/-- A call that is not refused because of the limit is not refused because of a higher one. -/
theorem Closure.refusal?_withLimit {c : Closure} {args : List Value} {depth low : Nat}
    (hlow : low ≤ limit) (h : (c.refusal? args depth low).any EvalError.isOverflow = false) :
    c.refusal? args depth limit = c.refusal? args depth low := by
  unfold Closure.refusal? at h ⊢
  split
  · rfl
  · next hargs =>
    rw [if_neg hargs] at h
    have hdepth : ¬low ≤ depth := by
      intro hle
      rw [if_pos hle] at h
      cases h
    rw [if_neg hdepth, if_neg (by omega)]

/-- **An action that refuses no call does the same under a higher limit.** -/
theorem Action.run_withLimit {bodies : List Closure} {a : Action β} {b : β}
    (hrun : a.run s = some (b, t)) (hquiet : (Label.acted bodies a b).isOverflow = false)
    (hlimit : s.maxCallDepth ≤ limit) :
    a.run (s.withLimit limit) = some (b, t.withLimit limit) := by
  cases a with
  | stuck => cases hrun
  | permit c args =>
    cases hrun
    have hsame := Closure.refusal?_withLimit hlimit hquiet
    exact congrArg (fun refusal => some (refusal, s.withLimit limit)) hsame
  | join id =>
    obtain ⟨hreply, rfl⟩ := Eval.joinTask_eq_some_iff.1 hrun
    exact Eval.joinTask_eq_some_iff.2 ⟨hreply, rfl⟩
  | note | fresh | newScope | setName | look | print | enterCall | leaveCall | register | send
  | close =>
    cases hrun
    rfl

theorem Thread.Step.withLimit {th th' : Thread α} {l : Label} {new : List (Thread Unit)}
    (h : Thread.Step s th l t th' new) (hquiet : l.isOverflow = false)
    (hlimit : s.maxCallDepth ≤ limit) :
    Thread.Step (s.withLimit limit) th l (t.withLimit limit) th' new := by
  cases h with
  | act hrun =>
    have hraised := Action.run_withLimit hrun hquiet hlimit
    exact .act (s := s.withLimit limit) hraised
  | start => exact .start ..
  | refuse => exact .refuse ..

/-- No move changes the limit. -/
theorem Thread.Step.maxCallDepth_eq {th th' : Thread α} {l : Label} {new : List (Thread Unit)}
    (h : Thread.Step s th l t th' new) : t.maxCallDepth = s.maxCallDepth := by
  cases h with
  | act hrun => exact (Action.count_of_run hrun).2.1
  | start => rfl
  | refuse => rfl

end

namespace Pool

variable {α : Type} {p q q' : Pool α} {m m' : Option Nat × Label}
  {ms ns : List (Option Nat × Label)} {limit : Nat}

theorem Step.withLimit (h : Step p m q) (hquiet : m.2.isOverflow = false)
    (hlimit : p.state.maxCallDepth ≤ limit) : Step (p.withLimit limit) m (q.withLimit limit) := by
  cases h with
  | main hstep => exact .main (hstep.withLimit hquiet hlimit)
  | task hget hstep => exact .task hget (hstep.withLimit hquiet hlimit)

theorem Step.maxCallDepth_eq (h : Step p m q) : q.state.maxCallDepth = p.state.maxCallDepth := by
  cases h with
  | main hstep => exact hstep.maxCallDepth_eq
  | task _ hstep => exact hstep.maxCallDepth_eq

theorem Runs.withLimit (h : Runs p ms q) (hquiet : ∀ m ∈ ms, m.2.isOverflow = false)
    (hlimit : p.state.maxCallDepth ≤ limit) : Runs (p.withLimit limit) ms (q.withLimit limit) := by
  induction h with
  | refl => exact .refl
  | step hstep _ ih =>
    obtain ⟨hfirst, hrest⟩ := List.forall_mem_cons.1 hquiet
    rw [← hstep.maxCallDepth_eq] at hlimit
    exact .step (hstep.withLimit hfirst (hstep.maxCallDepth_eq ▸ hlimit)) (ih hrest hlimit)

end Pool

end Monkey
