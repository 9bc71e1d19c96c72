import Monkey.Proofs.OnTheSpot

/-!
# Rules that threads abide by

What holds of every run of a pool, in whatever turns the threads move, is shown for one move at a
time.  Rules say what a thread may do where so much is known, and what it may rely on when it has
done it.  Code abides by rules if it never does anything else, whatever it is given by what it does.
Other threads may move at any time; so the code has to abide by the rules whatever has become known
in the meantime.

Rules are about two threads side by side, which do alike.  What one thread abides by alone, it
abides by beside itself.

## Main definitions

* `Rules` — what threads may do, and what they may rely on.
* `Code.Abide` — code that abides by rules.
* `Discipline` — rules that keep something true of the state.
* `Pool.Abides` — pools whose threads keep to a discipline.

## Main results

* `Code.Abide.bind` — doing one thing after another abides by rules.
* `Pool.Step.abides`, `Pool.Runs.abides` — **one move keeps a discipline, and so does every run.**
* `Discipline.run` — so does every evaluation on the spot.
-/

namespace Monkey

variable {W : Type} [Preorder W] {α β γ δ : Type}

/-- What holds of two results once, holds ever after. -/
def Lasting (Q : W → α → β → Prop) : Prop :=
  ∀ ⦃w w' : W⦄ ⦃a : α⦄ ⦃b : β⦄, w ≤ w' → Q w a b → Q w' a b

theorem lasting_anyResults : Lasting (@anyResults W α β) := fun _ _ _ _ _ => id

/-- What two threads may do side by side, and what they may rely on then. -/
structure Rules (W : Type) [Preorder W] where
  May : {β : Type} → W → Action β → Action β → Prop
  /-- What comes of two actions. -/
  Gives : {β : Type} → W → Action β → Action β → β → β → Prop
  /-- The numbers under which two threads may start tasks. -/
  MayStart : W → Nat → Nat → Prop
  /-- What two tasks may give. -/
  Sends : W → Value → Value → Prop
  may_mono : ∀ {β : Type} {w w' : W} {a b : Action β}, w ≤ w' → May w a b → May w' a b
  mayStart_mono : ∀ {w w' : W} {i j : Nat}, w ≤ w' → MayStart w i j → MayStart w' i j
  sends_mono : Lasting Sends
  may_send : ∀ {w : W} {i j : Nat} {v v' : Value}, MayStart w i j → Sends w v v' →
    May w (.send i v) (.send j v')
  may_close : ∀ {w : W} {i j : Nat}, MayStart w i j → May w (.close i) (.close j)

namespace Code

variable {R : Rules W}

/-- Both do alike what the rules allow, whatever becomes known in the meantime, and `Q` holds of
their results. -/
inductive Abide (R : Rules W) :
    {α β : Type} → W → (W → α → β → Prop) → Code α → Code β → Prop
  | pure {α β : Type} {w : W} {Q : W → α → β → Prop} {a : α} {b : β} : Q w a b →
    Abide R w Q (.pure a) (.pure b)
  | act {α β γ : Type} {w : W} {Q : W → α → β → Prop} {bodies bodies' : List Closure}
    {a b : Action γ} {k : γ → Code α} {l : γ → Code β} : R.May w a b →
    (∀ w' c d, w ≤ w' → R.Gives w' a b c d → Abide R w' Q (k c) (l d)) →
    Abide R w Q (.act bodies a k) (.act bodies' b l)
  | spawn {α β : Type} {w : W} {Q : W → α → β → Prop} {bodies bodies' : List Closure} {i j : Nat}
    {x y : Code Value} {k : Option String → Code α} {l : Option String → Code β} :
    R.MayStart w i j → Abide R w R.Sends x y →
    (∀ w' refusal, w ≤ w' → Abide R w' Q (k refusal) (l refusal)) →
    Abide R w Q (.spawn bodies i x k) (.spawn bodies' j y l)

namespace Abide

variable {w w' : W} {P : W → α → β → Prop} {Q : W → γ → δ → Prop} {x : Code α} {y : Code β}
  {f : α → Code γ} {g : β → Code δ}

theorem imp {P' : W → α → β → Prop} (h : Abide R w P x y)
    (himp : ∀ w' a b, w ≤ w' → P w' a b → P' w' a b) : Abide R w P' x y := by
  induction h with
  | pure ha => exact .pure (himp _ _ _ (le_refl _) ha)
  | act ha _ ih =>
    exact .act ha fun w' c d hle hcd => ih w' c d hle hcd fun w'' a b hle' =>
      himp w'' a b (le_trans hle hle')
  | spawn hij hxy _ _ ih =>
    exact .spawn hij hxy fun w' refusal hle => ih w' refusal hle fun w'' a b hle' =>
      himp w'' a b (le_trans hle hle')

/-- Who abides by rules goes on doing so. -/
theorem mono (hP : Lasting P) (h : Abide R w P x y) (hle : w ≤ w') : Abide R w' P x y := by
  induction h generalizing w' with
  | pure ha => exact .pure (hP hle ha)
  | act ha _ ih =>
    exact .act (R.may_mono hle ha) fun w'' c d hle' hcd =>
      ih w'' c d (le_trans hle hle') hcd hP (le_refl _)
  | spawn hij _ _ ihtask ih =>
    exact .spawn (R.mayStart_mono hle hij) (ihtask R.sends_mono hle) fun w'' refusal hle' =>
      ih w'' refusal (le_trans hle hle') hP (le_refl _)

/-- **Doing one thing after another abides by rules.** -/
theorem bind (h : Abide R w P x y)
    (hfg : ∀ w' a b, w ≤ w' → P w' a b → Abide R w' Q (f a) (g b)) :
    Abide R w Q (x >>= f) (y >>= g) := by
  induction h with
  | pure ha => exact hfg _ _ _ (le_refl _) ha
  | act ha _ ih =>
    exact .act ha fun w' c d hle hcd => ih w' c d hle hcd fun w'' a b hle' =>
      hfg w'' a b (le_trans hle hle')
  | spawn hij hxy _ _ ih =>
    exact .spawn hij hxy fun w' refusal hle => ih w' refusal hle fun w'' a b hle' =>
      hfg w'' a b (le_trans hle hle')

/-- The functions around do not matter to the rules. -/
theorem inBody (h : Abide R w P x y) (c d : Closure) :
    Abide R w P (x.inBody c) (y.inBody d) := by
  induction h with
  | pure ha => exact .pure ha
  | act ha _ ih => exact .act ha fun w' c d hle hcd => ih w' c d hle hcd
  | spawn hij hxy _ _ ih => exact .spawn hij hxy fun w' refusal hle => ih w' refusal hle

/-- One action. -/
theorem single {a b : Action γ} {P : W → γ → γ → Prop} (ha : R.May w a b)
    (h : ∀ w' c d, w ≤ w' → R.Gives w' a b c d → P w' c d) :
    Abide R w P (Machine.act a) (Machine.act b) :=
  .act ha fun w' c d hle hcd => .pure (h w' c d hle hcd)

/-- The thread of a task abides by the rules, if the task does. -/
theorem finishing {i j : Nat} {x y : Code Value} (hij : R.MayStart w i j)
    (h : Abide R w R.Sends x y) :
    Abide R w anyResults (Code.finishing i x) (Code.finishing j y) := by
  refine .bind h fun w₁ v v' hle hv => ?_
  have hij₁ := R.mayStart_mono hle hij
  refine .act (R.may_send hij₁ hv) fun w₂ _ _ hle₂ _ => ?_
  exact .act (R.may_close (R.mayStart_mono hle₂ hij₁)) fun _ _ _ _ _ => .pure trivial

end Abide

end Code

/-! ### Pools -/

/-- Rules that keep something true of the state. -/
structure Discipline (W : Type) [Preorder W] extends Rules W where
  Holds : W → State → Prop
  holds_callDepth : ∀ {w : W} {s : State}, Holds w s → ∀ n, Holds w { s with callDepth := n }
  /-- What is allowed keeps it true, and gives what one may rely on. -/
  step : ∀ {β : Type} {w : W} {a : Action β} {s t : State} {b : β}, Holds w s → May w a a →
    a.run s = some (b, t) → ∃ w', w ≤ w' ∧ Holds w' t ∧ Gives w' a a b b

/-- The move is allowed. -/
def Label.Obeys (R : Rules W) (w : W) : Label → Prop
  | .acted _ a _ => R.May w a a
  | .started _ id => R.MayStart w id id
  | .refused _ id _ => R.MayStart w id id

variable {D : Discipline W} {w : W}

/-- The threads of a pool keep to a discipline, and `Q` holds of what its first thread gives. -/
structure Pool.Abides (D : Discipline W) (w : W) (Q : W → α → α → Prop) (p : Pool α) : Prop where
  holds : D.Holds w p.state
  main : p.main.code.Abide D.toRules w Q p.main.code
  tasks : ∀ th ∈ p.tasks, th.code.Abide D.toRules w anyResults th.code

/-- **One move of a thread keeps a discipline**, and is allowed. -/
theorem Thread.Step.abides {s t : State} {th th' : Thread α} {l : Label}
    {new : List (Thread Unit)} {Q : W → α → α → Prop} (h : Thread.Step s th l t th' new)
    (hs : D.Holds w s) (hth : th.code.Abide D.toRules w Q th.code) :
    l.Obeys D.toRules w ∧ ∃ w', w ≤ w' ∧ D.Holds w' t ∧ th'.code.Abide D.toRules w' Q th'.code ∧
      ∀ x ∈ new, x.code.Abide D.toRules w' anyResults x.code := by
  cases h with
  | act hrun =>
    cases hth with
    | act hmay hrest =>
      obtain ⟨w', hle, hu, hgives⟩ := D.step (D.holds_callDepth hs _) hmay hrun
      exact ⟨hmay, w', hle, D.holds_callDepth hu _, hrest w' _ _ hle hgives, List.forall_mem_nil _⟩
  | start _ id task =>
    cases hth with
    | spawn hid htask hrest =>
      refine ⟨hid, w, le_refl w, hs, hrest w none (le_refl w), ?_⟩
      exact List.forall_mem_singleton.2 (.finishing hid htask)
  | refuse _ id task k depth reason =>
    cases hth with
    | spawn hid _ hrest =>
      -- what the host refuses is closed
      obtain ⟨w', hle, hu, -⟩ := D.step (b := ()) hs (D.may_close hid) rfl
      exact ⟨hid, w', hle, hu, hrest w' (some reason) hle, List.forall_mem_nil _⟩

namespace Pool

variable {p q : Pool α} {Q : W → α → α → Prop}

/-- **One move keeps a discipline**, and is allowed. -/
theorem Step.abides (hQ : Lasting Q) {m : Option Nat × Label} (h : Step p m q)
    (hp : p.Abides D w Q) : m.2.Obeys D.toRules w ∧ ∃ w', w ≤ w' ∧ q.Abides D w' Q := by
  obtain ⟨hs, hmain, htasks⟩ := hp
  have hmono {w' : W} (hle : w ≤ w') {th : Thread Unit}
      (hth : th.code.Abide D.toRules w anyResults th.code) :
      th.code.Abide D.toRules w' anyResults th.code := hth.mono lasting_anyResults hle
  cases h with
  | main hstep =>
    obtain ⟨hmay, w', hle, ht, hmain', hnew⟩ := hstep.abides hs hmain
    exact ⟨hmay, w', hle, ht, hmain', fun th hth => (List.mem_append.1 hth).elim
      (fun hold => hmono hle (htasks th hold)) (hnew th)⟩
  | task hget hstep =>
    obtain ⟨hmay, w', hle, ht, hth', hnew⟩ :=
      hstep.abides hs (htasks _ (List.mem_of_getElem? hget))
    refine ⟨hmay, w', hle, ht, hmain.mono hQ hle, fun th hth => ?_⟩
    -- a thread of before, perhaps the one that moved, or a new one
    rcases List.mem_append.1 hth with hold | hnew'
    · rcases List.mem_or_eq_of_mem_set hold with hold | rfl
      · exact hmono hle (htasks th hold)
      · exact hth'
    · exact hnew th hnew'

/-- **Every run keeps a discipline.** -/
theorem Runs.abides (hQ : Lasting Q) {ms : List (Option Nat × Label)} (h : Runs p ms q)
    (hp : p.Abides D w Q) : ∃ w', w ≤ w' ∧ q.Abides D w' Q := by
  refine h.preserves (P := fun q => ∃ w', w ≤ w' ∧ q.Abides D w' Q) (fun hstep hp => ?_)
    ⟨w, le_refl w, hp⟩
  obtain ⟨w₁, hle₁, hp₁⟩ := hp
  obtain ⟨-, w₂, hle₂, hp₂⟩ := hstep.abides hQ hp₁
  exact ⟨w₂, le_trans hle₁ hle₂, hp₂⟩

/-- Every move of a run is allowed. -/
theorem Runs.obeys (hQ : Lasting Q) {ms : List (Option Nat × Label)} (h : Runs p ms q)
    (hp : p.Abides D w Q) : ∀ m ∈ ms, ∃ w', w ≤ w' ∧ m.2.Obeys D.toRules w' := by
  induction h generalizing w with
  | refl => exact List.forall_mem_nil _
  | step hstep _ ih =>
    obtain ⟨hobeys, w₁, hle₁, hp₁⟩ := hstep.abides hQ hp
    refine List.forall_mem_cons.2 ⟨⟨w, le_refl w, hobeys⟩, fun m hm => ?_⟩
    obtain ⟨w₂, hle₂, hobeys₂⟩ := ih hp₁ m hm
    exact ⟨w₂, le_trans hle₁ hle₂, hobeys₂⟩

end Pool

/-- What keeps to a discipline does so on the spot, and `Q` holds of the result. -/
theorem Discipline.run (D : Discipline W) {x : Code α} {Q : W → α → α → Prop} (hQ : Lasting Q)
    (hx : x.Abide D.toRules w Q x) {s t : State} {a : α} (hs : D.Holds w s)
    (hrun : x.run s = some (a, t)) : ∃ w', w ≤ w' ∧ D.Holds w' t ∧ Q w' a a := by
  -- running on the spot is a run of a pool with one thread
  obtain ⟨ms, new, hruns⟩ := Pool.runs_of_run hrun [] s.callDepth
  obtain ⟨w', hle, ht, hmain, -⟩ := hruns.abides hQ
    (⟨D.holds_callDepth hs _, hx, List.forall_mem_nil _⟩ : Pool.Abides D w Q _)
  cases hmain with
  | pure ha => exact ⟨w', hle, D.holds_callDepth ht t.callDepth, ha⟩

end Monkey
