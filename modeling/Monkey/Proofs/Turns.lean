import Monkey.Threads.Pool

/-!
# Turns

What the threads of a pool do is up to the turns in which they move, and to what the host refuses.
Nothing else is left open: from one pool the same turns lead to the same moves and the same end.

## Main definitions

* `Pool.turn` — who moves, and what the host refuses.
* `Label.starts` — how many threads are started in a move.

## Main results

* `Pool.Step.unique`, `Pool.Runs.unique` — **turns determine moves, and runs.**
-/

namespace Monkey

/-- The reason for which the host refuses a task in a move. -/
def Label.refusal? : Label → Option String
  | .refused _ _ reason => some reason
  | _ => none

/-- Who moves, and for what reason the host refuses a task then, if it does. -/
def Pool.turn (m : Option Nat × Label) : Option Nat × Option String := (m.1, m.2.refusal?)

/-- What a thread does in a state is up to the host only. -/
theorem Thread.Step.unique {α : Type} {s t t' : State} {th th₁ th₂ : Thread α} {l l' : Label}
    {new new' : List (Thread Unit)} (h : Thread.Step s th l t th₁ new)
    (h' : Thread.Step s th l' t' th₂ new') (heq : l.refusal? = l'.refusal?) :
    l = l' ∧ t = t' ∧ th₁ = th₂ ∧ new = new' := by
  cases h with
  | act hrun =>
    cases h' with
    | act hrun' =>
      obtain ⟨rfl, rfl⟩ := Prod.mk.inj (Option.some.inj (hrun.symm.trans hrun'))
      exact ⟨rfl, rfl, rfl, rfl⟩
  | start =>
    cases h' with
    | start => exact ⟨rfl, rfl, rfl, rfl⟩
    | refuse => cases heq
  | refuse =>
    cases h' with
    | start => cases heq
    | refuse =>
      cases heq
      exact ⟨rfl, rfl, rfl, rfl⟩

/-- How many threads are started in a move. -/
def Label.starts : Label → Nat
  | .started _ _ => 1
  | _ => 0

theorem Thread.Step.length_new {α : Type} {s t : State} {th th' : Thread α} {l : Label}
    {new : List (Thread Unit)} (h : Thread.Step s th l t th' new) : new.length = l.starts := by
  cases h <;> rfl

namespace Pool

variable {α : Type} {p q q' : Pool α} {m m' : Option Nat × Label}
  {ms : List (Option Nat × Label)}

/-- **Turns determine moves.** -/
theorem Step.unique (h : Step p m q) (h' : Step p m' q') (heq : turn m = turn m') :
    m = m' ∧ q = q' := by
  obtain ⟨hwho, hrefusal⟩ := Prod.mk.inj heq
  cases h with
  | main hstep =>
    cases h' with
    | main hstep' =>
      obtain ⟨rfl, rfl, rfl, rfl⟩ := hstep.unique hstep' hrefusal
      exact ⟨rfl, rfl⟩
    | task => cases hwho
  | task hget hstep =>
    cases h' with
    | main => cases hwho
    | task hget' hstep' =>
      cases hwho
      cases hget.symm.trans hget'
      obtain ⟨rfl, rfl, rfl, rfl⟩ := hstep.unique hstep' hrefusal
      exact ⟨rfl, rfl⟩

/-- Turns determine runs. -/
theorem Runs.unique (h : Runs p ms q) : ∀ {ns : List (Option Nat × Label)} {q' : Pool α},
    Runs p ns q' → ms.map turn = ns.map turn → ms = ns ∧ q = q' := by
  induction h with
  | refl =>
    intro ns q' h' heq
    cases h' with
    | refl => exact ⟨rfl, rfl⟩
    | step => cases heq
  | step hstep _ ih =>
    intro ns q' h' heq
    cases h' with
    | refl => cases heq
    | step hstep' hrest' =>
      -- the first moves are the same, and lead to the same pool
      obtain ⟨hfirst, hrest⟩ := List.cons.inj heq
      obtain ⟨rfl, rfl⟩ := hstep.unique hstep' hfirst
      obtain ⟨rfl, rfl⟩ := ih hrest' hrest
      exact ⟨rfl, rfl⟩

end Pool

end Monkey
