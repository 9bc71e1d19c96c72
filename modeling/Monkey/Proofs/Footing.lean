import Monkey.Proofs.Rules

/-!
# Common footing

Two threads are on a common footing if they do the same actions with numbers and values that stand
for one another.  What stands for what is a matter of what is known at the time; so is in which
scopes the threads may bind names, and which names they may look up.  Evaluations of one program
from scopes that stand for one another are on a common footing all the time, whatever other threads
do meanwhile.

A thread that is on a common footing with itself is one that keeps to certain scopes, tasks and
names.

## Main definitions

* `Footing` — what stands for what, and what threads may do.
* `Action.Alike`, `Action.Gives` — actions on a common footing, and what comes of them.
* `Footing.rules`, `Footing.comparison` — the rules of a footing, and the comparison of code.

## Main results

* `Footing.runProgramOn` — **evaluations of one program are on a common footing.**
* `Footing.bindMacros`, `Footing.expandMacros` — so are definitions of macros, and their expansion.
-/

namespace Monkey

open Machine

/-- What stands for what, and what threads may do. -/
structure Footing (W : Type) [Preorder W] extends Knowledge W where
  /-- The names that may be looked up. -/
  Looks : String → Prop
  looks : ∀ {name : String}, Intrinsic.ofName? name = none → Looks name

variable {W : Type} [Preorder W] {F : Footing W} {w w' : W}

/-- The same action, done with what stands for one another. -/
inductive Action.Alike (F : Footing W) (w : W) : {β : Type} → Action β → Action β → Prop
  | note {e f : Note} : e.Matches (F.matching w) f → Alike F w (.note e) (.note f)
  | stuck : Alike F w .stuck .stuck
  | fresh : Alike F w .fresh .fresh
  | newScope {a b : Nat} : (F.matching w).scopes a b →
    Alike F w (.newScope (some a)) (.newScope (some b))
  | setName {a b : Nat} {v v' : Value} (name : String) : F.Owns w a b →
    Value.Matches (F.matching w) v v' → Alike F w (.setName a name v) (.setName b name v')
  | look {a b : Nat} {name : String} : (F.matching w).scopes a b → F.Looks name →
    Alike F w (.look a name) (.look b name)
  | print (line line' : String) : Alike F w (.print line) (.print line')
  | permit {c d : Closure} {vs ws : List Value} : c.Matches (F.matching w) d →
    AllMatch (F.matching w) vs ws → Alike F w (.permit c vs) (.permit d ws)
  | enterCall : Alike F w .enterCall .enterCall
  | leaveCall : Alike F w .leaveCall .leaveCall
  | register : Alike F w .register .register
  | send {i j : Nat} {v v' : Value} : (F.matching w).tasks i j →
    Value.Matches (F.matching w) v v' → Alike F w (.send i v) (.send j v')
  | close {i j : Nat} : (F.matching w).tasks i j → Alike F w (.close i) (.close j)
  | join {i j : Nat} : (F.matching w).tasks i j → Alike F w (.join i) (.join j)

/-- What two scopes say of a name: matching values, or scopes further out that stand for one
another. -/
inductive LooksAlike (μ : Matching) (a b : Nat) : Value ⊕ Option Nat → Value ⊕ Option Nat → Prop
  | value {v v' : Value} : Value.Matches μ v v' → LooksAlike μ a b (.inl v) (.inl v')
  | outermost : LooksAlike μ a b (.inr none) (.inr none)
  | outer {o o' : Nat} : μ.scopes o o' → o < a → o' < b →
    LooksAlike μ a b (.inr (some o)) (.inr (some o'))

theorem Keywise.same_iff {κ α : Type} {R : α → α → Prop} {es : List (κ × α)} :
    Keywise R es es ↔ ∀ e ∈ es, R e.2 e.2 := by
  induction es with
  | nil => exact iff_of_true .nil (List.forall_mem_nil _)
  | cons e rest ih =>
    rw [List.forall_mem_cons, ← ih]
    constructor
    · intro h
      cases h with
      | cons _ hab hrest => exact ⟨hab, hrest⟩
    · rintro ⟨hab, hrest⟩
      exact .cons e.1 hab hrest

/-- Looking a name up in bindings. -/
theorem Keywise.findBinding {R : Value → Value → Prop} {bs cs : Bindings} (h : Keywise R bs cs)
    (name : String) : Option.Rel R (bs.find? name) (cs.find? name) := by
  induction h with
  | nil => exact .none
  | cons other hab _ ih =>
    unfold Bindings.find?
    split
    · exact .some hab
    · exact ih

/-- Scopes that bind the same names to matching values say alike of every name. -/
theorem Scopes.looksAlike {μ : Matching} {s t : Scopes} {a b : Nat}
    (hbindings : Keywise (Value.Matches μ) (s.bindings a) (t.bindings b))
    (houter : Option.Rel μ.scopes (s.outer? a) (t.outer? b)) (name : String) :
    LooksAlike μ a b (s.look a name) (t.look b name) := by
  have hfound := hbindings.findBinding name
  unfold Scopes.look
  generalize (s.bindings a).find? name = found, (t.bindings b).find? name = found' at hfound
  cases hfound with
  | some hv => exact .value hv
  | none =>
    -- the name is bound in neither scope, and both have scopes around them or neither has
    cases hs : s.outer? a with
    | none =>
      rw [hs] at houter
      cases ht : t.outer? b with
      | none => exact .outermost
      | some o' =>
        rw [ht] at houter
        cases houter
    | some o =>
      rw [hs] at houter
      cases ht : t.outer? b with
      | none =>
        rw [ht] at houter
        cases houter
      | some o' =>
        rw [ht] at houter
        cases houter with
        | some ho => exact .outer ho (s.outer?_lt hs) (t.outer?_lt ht)

/-- What comes of two actions that are alike. -/
def Action.Gives (F : Footing W) (w : W) : {β : Type} → Action β → Action β → β → β → Prop
  | _, .stuck, _, _, _ => False
  | _, .fresh, _, a, b => (F.matching w).addresses a b
  | _, .newScope _, _, a, b => F.Owns w a b
  | _, .look a _, .look b _, found, found' => LooksAlike (F.matching w) a b found found'
  | _, .permit _ _, _, refusal, refusal' => refusal = refusal'
  | _, .register, _, i, j => (F.matching w).tasks i j
  | _, .join i, .join j, found, found' =>
    Option.Rel (Value.Matches (F.matching w)) found found' ∧ (found = none → i = j)
  | _, _, _, _, _ => True

/-- What comes of an action stands for itself, where everything does. -/
theorem Action.gives_self {β : Type} {a : Action β} {s t : State} {b : β}
    (hμ : F.matching w = .identity) (hnew : F.Owns w s.scopes.size s.scopes.size)
    (hrun : a.run s = some (b, t)) : a.Gives F w a b b := by
  cases a with
  | stuck => cases hrun
  | newScope outer =>
    cases hrun
    exact hnew
  | fresh | register =>
    cases hrun
    unfold Action.Gives
    rw [hμ]
    rfl
  | permit c args => exact rfl
  -- a lookup gives what the scope binds, or goes on in the scope around it
  | look scope name =>
    cases hrun
    unfold Action.Gives
    rw [hμ]
    refine Scopes.looksAlike (Keywise.same_iff.2 fun e _ => .refl e.2) ?_ name
    cases s.scopes.outer? scope with
    | none => exact .none
    | some outer => exact .some rfl
  | join id =>
    unfold Action.Gives
    rw [hμ]
    refine ⟨?_, fun _ => rfl⟩
    cases b with
    | none => exact .none
    | some v => exact .some (.refl v)
  -- these give nothing that anybody looks at
  | note | setName | print | enterCall | leaveCall | send | close => trivial

theorem Action.Alike.mono {β : Type} {a b : Action β} (h : a.Alike F w b) (hle : w ≤ w') :
    a.Alike F w' b := by
  have hμ := F.matching_mono hle
  cases h with
  -- whatever is noted is matched still
  | note hnote =>
    refine .note ?_
    cases hnote with
    | gave hv => exact .gave (hv.mono hμ)
    | operands hvs => exact .operands (allMatch_mono hμ hvs)
    | applied hf hvs => exact .applied (hf.mono hμ) (allMatch_mono hμ hvs)
    | resulted hv => exact .resulted (hv.mono hμ)
    | raised e => exact .raised e
  | stuck => exact .stuck
  | fresh => exact .fresh
  | newScope hab => exact .newScope (hμ.1 hab)
  | setName name hab hv => exact .setName name (F.owns_mono hle hab) (hv.mono hμ)
  | look hab hname => exact .look (hμ.1 hab) hname
  | print line line' => exact .print line line'
  | permit hcd hvs => exact .permit (hcd.mono hμ) (allMatch_mono hμ hvs)
  | enterCall => exact .enterCall
  | leaveCall => exact .leaveCall
  | register => exact .register
  | send hij hv => exact .send (hμ.2.2 hij) (hv.mono hμ)
  | close hij => exact .close (hμ.2.2 hij)
  | join hij => exact .join (hμ.2.2 hij)

namespace Footing

/-- The rules of a footing. -/
def rules (F : Footing W) : Rules W where
  May w a b := a.Alike F w b
  Gives w a b c d := a.Gives F w b c d
  MayStart w i j := (F.matching w).tasks i j
  Sends w v v' := Value.Matches (F.matching w) v v'
  may_mono hle h := h.mono hle
  mayStart_mono hle hij := (F.matching_mono hle).2.2 hij
  sends_mono _ _ _ _ hle hv := hv.mono (F.matching_mono hle)
  may_send hij hv := .send hij hv
  may_close hij := .close hij

end Footing

/-- It has held of two results since some time after `w`. -/
def Since {α β : Type} (w : W) (Q : W → α → β → Prop) (w' : W) (a : α) (b : β) : Prop :=
  ∃ w₀, w ≤ w₀ ∧ w₀ ≤ w' ∧ Q w₀ a b

section

variable {α β : Type} {Q : W → α → β → Prop} {a : α} {b : β}

theorem lasting_since (w : W) (Q : W → α → β → Prop) : Lasting (Since w Q) :=
  fun _ _ _ _ hle ⟨w₀, h₀, h₁, hab⟩ => ⟨w₀, h₀, le_trans h₁ hle, hab⟩

theorem Since.now (hle : w ≤ w') (h : Q w' a b) : Since w Q w' a b := ⟨w', hle, le_refl w', h⟩

theorem Since.earlier {w₁ : W} (hle : w ≤ w') (h : Since w' Q w₁ a b) : Since w Q w₁ a b := by
  obtain ⟨w₀, h₀, h₁, hab⟩ := h
  exact ⟨w₀, le_trans hle h₀, h₁, hab⟩

/-- What lasts holds now, if it has held since some time. -/
theorem Since.of_lasting (hQ : Lasting Q) (h : Since w Q w' a b) : Q w' a b := by
  obtain ⟨w₀, -, h₁, hab⟩ := h
  exact hQ h₁ hab

end

/-! ### Code on a common footing -/

namespace Code

variable {n m a b : Nat} {name : String}

/-- Looking outwards finds matching values, however many scopes may be looked at. -/
theorem abide_lookOutward (hname : F.Looks name) : ∀ {n m : Nat} {w : W} {a b : Nat}, a < n →
    b < m → (F.matching w).scopes a b →
    Abide F.rules w (Since w fun w => Option.Rel (Value.Matches (F.matching w)))
      (lookOutward n a name) (lookOutward m b name)
  | 0, _, _, _, _, ha, _, _ => absurd ha (Nat.not_lt_zero _)
  | _ + 1, 0, _, _, _, _, hb, _ => absurd hb (Nat.not_lt_zero _)
  | n + 1, m + 1, _, a, b, ha, hb, hab => by
    refine .act (.look hab hname) fun w' found found' hle hfound => ?_
    cases hfound with
    | value hv => exact .pure (.now hle (.some hv))
    | outermost => exact .pure (.now hle .none)
    | outer ho hoa hob =>
      -- the scope around has a smaller number, so that the search goes on with one step less
      refine (abide_lookOutward hname (by omega) (by omega) ho).imp fun w'' _ _ _ h => ?_
      exact h.earlier hle

theorem abide_printEach : ∀ {lines lines' : List String} {w : W}, lines.length = lines'.length →
    Abide F.rules w (Since w anyResults) (printEach lines) (printEach lines')
  | [], [], _, _ => .pure ⟨_, le_refl _, le_refl _, trivial⟩
  | line :: _, line' :: _, _, h =>
    .act (.print line line') fun _ _ _ hle _ =>
      (abide_printEach (Nat.succ.inj h)).imp fun _ _ _ _ h => h.earlier hle

end Code

namespace Footing

open Correspondence

/-- Code that is on a common footing corresponds. -/
def correspondence (F : Footing W) : Correspondence W Code Code where
  toKnowledge := F.toKnowledge
  Runs w Q x y := x.Abide F.rules w (Since w Q) y
  pure {_ _ w _ _ _} h := .pure (.now (le_refl w) h)
  bind hxy hkl := by
    refine .bind hxy fun w₁ a b hle hab => ?_
    obtain ⟨w₀, hle₀, hle₁, hab⟩ := hab
    have hnext := (hkl w₀ a b hle₀ hab).mono (lasting_since w₀ _) hle₁
    exact hnext.imp fun _ _ _ _ h => h.earlier hle₀
  noted hn hxy := .act (.note hn) fun _ _ _ hle _ => hxy.mono (lasting_since _ _) hle
  giving hxy := by
    refine .bind hxy fun w₁ v v' hle hv => ?_
    have hv := hv.of_lasting F.rules.sends_mono
    refine .act (.note (.gave hv)) fun w₂ _ _ hle' _ => ?_
    exact .pure (.now (le_trans hle hle') (hv.mono (F.matching_mono hle')))
  stuck := .act .stuck fun _ _ _ _ h => h.elim
  fresh := .act .fresh fun _ _ _ hle h => .pure (.now hle h)
  newScope hab := .act (.newScope hab) fun _ _ _ hle h => .pure (.now hle h)
  setName name hab hv := .act (.setName name hab hv) fun _ _ _ hle _ => .pure (.now hle trivial)
  find hname hab := Code.abide_lookOutward (F.looks hname) (Nat.lt_succ_self _) (Nat.lt_succ_self _)
    hab
  printed f hvs := by
    refine Code.abide_printEach ?_
    cases f <;> simp [Builtin.printed, hvs.length_eq]
  await hij := by
    refine .act (.join hij) fun w₁ found found' hle hfound => ?_
    obtain ⟨hfound, hmissing⟩ := hfound
    cases hfound with
    | some hv => exact .pure (.now hle hv)
    | none =>
      cases hmissing rfl
      refine .act (.note (.raised _)) fun w₂ _ _ hle₂ _ => ?_
      refine .act .fresh fun w₃ a b hle₃ hab => ?_
      exact .pure (.now (le_trans hle (le_trans hle₂ hle₃)) (.error _ hab))

/-- **Code that is on a common footing compares.** -/
def comparison (F : Footing W) : Comparison W Code Code where
  toCorrespondence := F.correspondence
  call hcd hvs hxy hkl := by
    refine call_of_steps (C := F.correspondence) (fun hcd hvs => ?_)
      (fun {_ c d _ _} _ hxy => ?_) hcd hvs (fun _ hle => ?_) hkl
    · exact .act (.permit hcd hvs) fun _ _ _ hle h => .pure (.now hle h)
    · refine .act (R := F.rules) Action.Alike.enterCall fun w₁ _ _ hle₁ _ => .inBody ?_ c d
      refine .bind (hxy.mono (lasting_since _ _) hle₁) fun w₂ v v' hle₂ hv => ?_
      refine .act (R := F.rules) Action.Alike.leaveCall fun w₃ _ _ hle₃ _ => .pure ?_
      exact lasting_since _ _ hle₃ hv
    · refine (hxy.mono (lasting_since _ _) hle).imp fun _ _ _ hle' hab => ?_
      exact .now hle' (hab.of_lasting fun _ _ _ _ hle hab => F.owns_mono hle hab)
  start := start_of_steps (C := F.correspondence)
    (.act .register fun _ _ _ hle h => .pure (.now hle h)) fun {w i j x y} hij hxy => by
      refine .spawn hij (hxy.imp fun _ _ _ _ hv => hv.of_lasting F.rules.sends_mono) ?_
      exact fun w' refusal hle => .pure (.now hle rfl)

variable {a b : Nat}

/-- Evaluations of one program are on a common footing, and give matching values. -/
theorem runProgramOn (F : Footing W) (budget : Nat) (program : Program) (hab : F.Owns w a b) :
    (Monkey.runProgramOn Code budget program a).Abide F.rules w F.rules.Sends
      (Monkey.runProgramOn Code budget program b) :=
  (F.comparison.runProgramOn budget program hab).imp fun _ _ _ _ hv =>
    hv.of_lasting F.rules.sends_mono

/-- Names of macros are found alike, if every name may be looked up. -/
theorem findsMacros (hlooks : ∀ name, F.Looks name) (a b : Nat) : F.comparison.FindsMacros a b :=
  fun _ name hab => Code.abide_lookOutward (hlooks name) (Nat.lt_succ_self a) (Nat.lt_succ_self b)
    hab

/-- Definitions of macros are made alike. -/
theorem bindMacros (F : Footing W) (definitions : List MacroDefinition) (hab : F.Owns w a b) :
    (Monkey.bindMacros (m := Code) a definitions).Abide F.rules w anyResults
      (Monkey.bindMacros b definitions) :=
  (Comparison.bindMacros (C := F.comparison) definitions hab).imp fun _ _ _ _ _ => trivial

/-- The macros of a program are expanded alike. -/
theorem expandMacros (F : Footing W) (budget : Nat) (hlooks : ∀ name, F.Looks name)
    (program : Program) (hab : (F.matching w).scopes a b) :
    (Monkey.expandMacros (evaluateOn Code budget) a program).Abide F.rules w sameResult
      (Monkey.expandMacros (evaluateOn Code budget) b program) := by
  have hexpand := Comparison.expandMacros (F.comparison.evaluateOn budget)
    (findsMacros hlooks a b) hab program
  exact hexpand.imp fun _ _ _ _ h => h.of_lasting fun _ _ _ _ _ => id

end Footing

end Monkey
