import Monkey.Proofs.Comparison

/-!
# Larger budgets

The budget only decides whether evaluation ends.  An evaluation that ends within a budget gives the
same value in the same state within every larger one, so the value of an evaluation that ends does
not depend on the budget.

## Main definitions

* `Eval.EndsAlike`, `endsAlike` — evaluations that end wherever others do, in the same way.

## Main results

* `evaluate_mono`, `runProgram_mono` — **a larger budget changes nothing.**
-/

namespace Monkey

namespace Eval

variable {α β γ δ : Type}

/-- Wherever `x` ends `y` ends in the same state, with related results. -/
def EndsAlike (Q : α → β → Prop) (x : Eval α) (y : Eval β) : Prop :=
  ∀ s a t, x s = some (a, t) → ∃ b, y s = some (b, t) ∧ Q a b

namespace EndsAlike

variable {P : α → β → Prop} {Q : γ → δ → Prop} {x : Eval α} {y : Eval β} {k : α → Eval γ}
  {l : β → Eval δ}

theorem pure {a : α} {b : β} (h : P a b) : EndsAlike P (pure a) (pure b) := by
  intro s a t hrun
  cases hrun
  exact ⟨b, rfl, h⟩

theorem bind (hxy : EndsAlike P x y) (hkl : ∀ a b, P a b → EndsAlike Q (k a) (l b)) :
    EndsAlike Q (x >>= k) (y >>= l) := by
  intro s c t hrun
  obtain ⟨a, u, hx, hk⟩ := bind_eq_some_iff.1 hrun
  obtain ⟨b, hy, hab⟩ := hxy s a u hx
  obtain ⟨d, hl, hcd⟩ := hkl a b hab u c t hk
  exact ⟨d, bind_eq_some_iff.2 ⟨b, u, hy, hl⟩, hcd⟩

/-- Every evaluation ends like itself. -/
theorem refl {P : α → α → Prop} (h : ∀ a, P a a) (x : Eval α) : EndsAlike P x x :=
  fun _ a _ hrun => ⟨a, hrun, h a⟩

/-- An evaluation that does not end has nothing to be compared. -/
theorem stuck : EndsAlike P stuck y := by
  intro s a t hrun
  cases hrun

theorem onOwnCount (hxy : EndsAlike P x y) : EndsAlike P (onOwnCount x) (onOwnCount y) := by
  intro s a t hrun
  obtain ⟨u, hx, rfl⟩ := onOwnCount_eq_some_iff.1 hrun
  obtain ⟨b, hy, hab⟩ := hxy _ a u hx
  exact ⟨b, onOwnCount_eq_some_iff.2 ⟨u, hy, rfl⟩, hab⟩

theorem spawn {x y : Eval Value} (hxy : EndsAlike Eq x y) (id : Nat) :
    EndsAlike Eq (Eval.spawn id x) (Eval.spawn id y) := by
  refine .bind (P := Eq) (.refl (fun _ => rfl) _) fun refusal _ hrefusal => ?_
  cases hrefusal
  cases refusal with
  | some reason => exact .refl (fun _ => rfl) _
  | none =>
    refine .bind hxy.onOwnCount fun v _ hv => ?_
    cases hv
    exact .refl (fun _ => rfl) _

theorem imp {R : α → β → Prop} (hxy : EndsAlike P x y) (h : ∀ a b, P a b → R a b) :
    EndsAlike R x y := by
  intro s a t hrun
  obtain ⟨b, hy, hab⟩ := hxy s a t hrun
  exact ⟨b, hy, h a b hab⟩

end EndsAlike

end Eval

open Eval Correspondence Machine

/-- Evaluations that end wherever others do, in the same way.  Only equal things match. -/
def endingAlike : Correspondence Unit Eval Eval where
  toKnowledge := .identity
  Runs _ Q := EndsAlike (Q ())
  pure := .pure
  bind hxy hkl := .bind hxy fun a b => hkl () a b (le_refl _)
  noted _ := id
  giving := id
  stuck := .stuck
  fresh := .refl (fun _ => rfl) _
  newScope hab := by
    cases hab
    exact .refl (fun _ => rfl) _
  setName name hab hv := by
    cases hab
    cases hv.eq
    exact .refl (fun _ => trivial) _
  find _ hab := by
    cases hab
    exact .refl foundMatch_refl _
  printed f hvs := by
    cases allMatch_eq hvs
    exact .refl (fun _ => trivial) _
  await hab := by
    cases hab
    exact .refl Value.Matches.refl _

/-- Calls and tasks end alike, too. -/
def endsAlike : Comparison Unit Eval Eval where
  toCorrespondence := endingAlike
  call {_ c d vs ws x y _ _} hcd hvs hxy hkl := by
    refine call_of_steps (C := endingAlike) (fun hcd hvs => ?_) (fun _ hxy => ?_) hcd hvs
      (fun _ _ => hxy) hkl
    · cases hcd.eq
      cases allMatch_eq hvs
      exact EndsAlike.refl (fun _ => rfl) _
    · refine EndsAlike.bind (P := Eq) (.refl (fun _ => rfl) _) fun _ _ _ => ?_
      refine EndsAlike.bind hxy fun a b hab => ?_
      exact EndsAlike.bind (P := Eq) (.refl (fun _ => rfl) _) fun _ _ _ => .pure hab
  start := start_of_steps (C := endingAlike) (EndsAlike.refl (fun _ => rfl) _)
    fun {_ id _ _ _} hid hxy => by
      cases hid
      exact EndsAlike.spawn (EndsAlike.imp hxy fun _ _ => Value.Matches.eq) id

/-- Evaluation within a budget ends wherever evaluation within a smaller one does. -/
theorem evaluate_endsAlike {m : Nat} : ∀ {n : Nat}, m ≤ n →
    endsAlike.Evaluators (evaluate m) (evaluate n) := by
  induction m with
  | zero => exact fun _ _ _ _ _ _ => EndsAlike.stuck
  | succ m ih =>
    intro n hmn
    obtain ⟨n, rfl⟩ := Nat.exists_eq_add_of_lt hmn
    exact Comparison.evalStep (ih (Nat.le_add_right m n))

section

variable {m n scope : Nat} {s t : State} {v : Value}

/-- **A larger budget changes nothing** about an expression whose evaluation ends. -/
theorem evaluate_mono (hmn : m ≤ n) {e : Expr} (h : evaluate m e scope s = some (v, t)) :
    evaluate n e scope s = some (v, t) := by
  have hsame : endsAlike.Owns () scope scope := rfl
  obtain ⟨w, hrun, hvw⟩ := evaluate_endsAlike hmn e hsame s v t h
  rwa [← hvw.eq] at hrun

/-- **A larger budget changes nothing** about a program whose evaluation ends. -/
theorem runProgram_mono (hmn : m ≤ n) {program : Program}
    (h : runProgram m program scope s = some (v, t)) :
    runProgram n program scope s = some (v, t) := by
  have hsame : endsAlike.Owns () scope scope := rfl
  obtain ⟨w, hrun, hvw⟩ :=
    Comparison.evalProgram (evaluate_endsAlike hmn) program hsame s v t h
  rwa [← hvw.eq] at hrun

end

end Monkey
