import Monkey.Proofs.Ledgers

/-!
# Evaluation goes onward

Evaluation mentions only what was allocated, if it starts that way, and gives nothing back: what
was allocated stays allocated, what a task has answered once it always answers, what was printed
stays printed, and the number of active calls is in the end what it was.  It is the case in which
nothing is written down of a run but how much has been given out.

## Main definitions

* `Ledger.extents` — the ledger of what has been given out.
* `Eval.Allocates` — evaluations that keep to what was allocated and go onward.
* `KeepsAllocated` — evaluators of expressions that do so in every scope.

## Main results

* `applyValue_allocates` — **a call keeps to what was allocated**, whatever is called.
* `evaluate_allocates` — **evaluation keeps to what was allocated, and goes onward.**
* `State.Allocated.runProgram` — programs run in states that mention only what was allocated.
-/

namespace Monkey

instance : Preorder Extent where
  le_refl := Extent.le_refl
  le_trans _ _ _ := Extent.le_trans

/-- How much has been given out is written down, and nothing else. -/
def Ledger.extents : Ledger where
  Record := Extent
  Counts a e := e = a
  Knows a scope := scope < a.scopes
  Made a addr _ := addr < a.addresses
  Own a v := (∀ addr, v.addr? = some addr → addr < a.addresses) ∧
    ∀ c, v.closure? = some c → c.scope < a.scopes
  knows_mono hab hscope := Nat.lt_of_lt_of_le hscope (Extent.scopes_le hab)
  own_mono hab hv :=
    ⟨fun addr haddr => Nat.lt_of_lt_of_le (hv.1 addr haddr) (Extent.addresses_le hab),
      fun c hc => Nat.lt_of_lt_of_le (hv.2 c hc) (Extent.scopes_le hab)⟩
  own_of_addr?_eq_none {_ v} h := by
    refine ⟨fun addr haddr => ?_, fun c hc => ?_⟩
    · rw [h] at haddr
      cases haddr
    · -- functions and macros have an address
      cases v <;> cases hc <;> cases h
  own_of_made hmade h hc := by
    refine ⟨fun addr haddr => ?_, hc⟩
    rw [h, Option.some.injEq] at haddr
    exact haddr ▸ hmade
  fresh {a _} _ h := by
    cases h
    exact ⟨{ a with addresses := a.addresses + 1 },
      ⟨Nat.le_refl _, Nat.le_succ _, Nat.le_refl _⟩, rfl, Nat.lt_succ_self _⟩
  newScope {a _} h := by
    cases h
    exact ⟨{ a with scopes := a.scopes + 1 },
      ⟨Nat.le_succ _, Nat.le_refl _, Nat.le_refl _⟩, rfl, Nat.lt_succ_self _⟩
  registerTask {a _} h := by
    cases h
    exact ⟨{ a with tasks := a.tasks + 1 },
      ⟨Nat.le_refl _, Nat.le_refl _, Nat.le_succ _⟩, rfl⟩

open Ledger (extents)

section

variable {a : Extent}

/-- What is inside a value mentions only what was given out, if the value does. -/
theorem Value.Within.of_holds {v w : Value} (h : v.Within a) (hw : v.Holds w) : w.Within a := by
  induction hw with
  | self => exact h
  | element hv _ ih => exact ih (allWithin_iff.1 h.2 _ hv)
  | entry he _ ih => exact ih (entriesWithin_iff.1 h.2 _ he)
  | returned _ ih => exact ih h.2

theorem Value.Within.own {v : Value} (h : v.Within a) : extents.Own a v := by
  refine ⟨fun addr haddr => ?_, fun c hc => ?_⟩
  · cases v <;> cases haddr <;> first | exact h | exact h.1
  · cases v <;> cases hc <;> exact h.2

theorem Value.Within.unwrapReturn {v : Value} (h : v.Within a) : v.unwrapReturn.Within a := by
  cases v with
  | returned => exact h.2
  | _ => exact h

mutual

theorem Value.within_of_fits : (v : Value) → extents.Fits a v → v.Within a
  | .string addr _, h | .error addr _, h | .quote addr _, h => (h _ .self).1 addr rfl
  | .array addr vs, h => ⟨(h _ .self).1 addr rfl, allWithin_of_fits vs (Value.all_array.1 h).2⟩
  | .hash addr es, h => ⟨(h _ .self).1 addr rfl, entriesWithin_of_fits es (Value.all_hash.1 h).2⟩
  | .function addr c, h | .macroFn addr c, h => ⟨(h _ .self).1 addr rfl, (h _ .self).2 c rfl⟩
  | .returned addr v, h => ⟨(h _ .self).1 addr rfl, v.within_of_fits (Value.all_returned.1 h).2⟩
  | .integer _, _ | .boolean _, _ | .null, _ | .builtin _, _ | .intrinsic _, _ | .task _, _ =>
    trivial

theorem allWithin_of_fits : (vs : List Value) → (∀ v ∈ vs, extents.Fits a v) → allWithin a vs
  | [], _ => trivial
  | v :: vs, h => ⟨v.within_of_fits (h v List.mem_cons_self),
      allWithin_of_fits vs fun w hw => h w (List.mem_cons_of_mem v hw)⟩

theorem entriesWithin_of_fits : (es : List (HashKey × Value)) → (∀ e ∈ es, extents.Fits a e.2) →
    entriesWithin a es
  | [], _ => trivial
  | (key, v) :: es, h => ⟨v.within_of_fits (h (key, v) List.mem_cons_self),
      entriesWithin_of_fits es fun e he => h e (List.mem_cons_of_mem _ he)⟩

end

/-- The values that are in order are those that mention only what was given out. -/
theorem fits_extents : extents.Fits = Value.Within := by
  funext a v
  exact propext ⟨v.within_of_fits, fun h _ hw => (h.of_holds hw).own⟩

theorem describes_extents_iff {s : State} :
    extents.Describes a s ↔ s.extent = a ∧ s.Allocated := by
  constructor
  · rintro ⟨hregistry, hcounts, hstores⟩
    cases hcounts
    rw [fits_extents] at hstores
    exact ⟨rfl, hregistry, hstores.bound, hstores.result⟩
  · rintro ⟨rfl, hs⟩
    refine ⟨hs.registry, rfl, ?_⟩
    rw [fits_extents]
    exact ⟨hs.bound, hs.result⟩

end

namespace Eval

variable {α β : Type}

/-- Started in a state that mentions only what was given out, where at least `a` was, the evaluation
ends, if it does, in a later state of the same sort and with a value that `Q` holds for in it. -/
def Allocates (a : Extent) (Q : Extent → α → Prop) (x : Eval α) : Prop :=
  ∀ s v t, a ≤ s.extent → s.Allocated → x s = some (v, t) →
    s.Onward t ∧ t.Allocated ∧ Q t.extent v

variable {a : Extent} {Q : Extent → α → Prop} {Q' : Extent → β → Prop}

theorem allocates_iff {x : Eval α} : Allocates a Q x ↔ extents.Keeps a Q x := by
  constructor
  · intro h b s v t hab hs hrun
    obtain ⟨rfl, hallocated⟩ := describes_extents_iff.1 hs
    obtain ⟨hst, ht, hv⟩ := h s v t hab hallocated hrun
    exact ⟨hst, t.extent, hst.extent_le, describes_extents_iff.2 ⟨rfl, ht⟩, hv⟩
  · intro h s v t ha hs hrun
    obtain ⟨hst, b, -, ht, hv⟩ := h s.extent s v t ha (describes_extents_iff.2 ⟨rfl, hs⟩) hrun
    obtain ⟨rfl, hallocated⟩ := describes_extents_iff.1 ht
    exact ⟨hst, hallocated, hv⟩

namespace Allocates

theorem pure {v : α} (h : ∀ b, a ≤ b → Q b v) : Allocates a Q (pure v) :=
  allocates_iff.2 (.pure h)

theorem bind {x : Eval α} {k : α → Eval β} (hx : Allocates a Q x)
    (hk : ∀ b v, a ≤ b → Q b v → Allocates b Q' (k v)) :
    Allocates a Q' (x >>= k) :=
  allocates_iff.2 <| .bind (allocates_iff.1 hx) fun b v hab hv => allocates_iff.1 (hk b v hab hv)

theorem newScope (outer : Option Nat) :
    Allocates a (fun b scope => scope < b.scopes) (newScope outer) :=
  allocates_iff.2 (.newScope outer)

theorem finishTask (id : Nat) {result : Value} (hresult : result.Within a) :
    Allocates a (fun _ _ => True) (finishTask id result) := by
  rw [← fits_extents] at hresult
  exact allocates_iff.2 (.finishTask id hresult)

theorem onOwnCount {x : Eval α} (hx : Allocates a Q x) : Allocates a Q (onOwnCount x) :=
  allocates_iff.2 (allocates_iff.1 hx).onOwnCount

end Allocates

end Eval

/-- An evaluator that keeps to what was allocated, in every scope that was created. -/
def KeepsAllocated (eval : Expr → Nat → Eval Value) : Prop :=
  ∀ a e scope, scope < a.scopes → Eval.Allocates a Value.Within (eval e scope)

section

open Eval

variable {eval : Expr → Nat → Eval Value} {scope : Nat} {a : Extent}

theorem keepsAllocated_iff : KeepsAllocated eval ↔ extents.KeptBy eval := by
  unfold KeepsAllocated Ledger.KeptBy
  simp only [allocates_iff, fits_extents]
  exact Iff.rfl

theorem evalBody_allocates (h : KeepsAllocated eval) (body : Block) (hscope : scope < a.scopes) :
    Allocates a Value.Within (evalBody eval body scope) := by
  rw [allocates_iff, ← fits_extents]
  exact Ledger.evalBody_keeps (keepsAllocated_iff.1 h) hscope body

/-- **A call keeps to what was allocated**, whatever is called. -/
theorem applyValue_allocates (h : KeepsAllocated eval) (callee : Value) {args : List Value}
    (hargs : ∀ v ∈ args, v.Within a) :
    Allocates a Value.Within (applyValue eval callee args scope) := by
  rw [← fits_extents] at hargs
  rw [allocates_iff, ← fits_extents]
  exact Ledger.applyValue_keeps (keepsAllocated_iff.1 h) callee hargs

end

/-- **Evaluation keeps to what was allocated, and goes onward.** -/
theorem evaluate_allocates (budget : Nat) : KeepsAllocated (evaluate budget) :=
  keepsAllocated_iff.2 (extents.evaluate_keeps budget)

/-- **Running a program in a state that mentions only what was allocated ends in such a state.**  So
do all programs that are run one after another, from the state before anything was evaluated on. -/
theorem State.Allocated.runProgram {s t : State} (hs : s.Allocated) {scope : Nat}
    (hscope : scope < s.scopes.size) {budget : Nat} {program : Program} {v : Value}
    (hrun : Monkey.runProgram budget program scope s = some (v, t)) :
    s.Onward t ∧ t.Allocated ∧ v.Within t.extent := by
  obtain ⟨hst, b, -, ht, hv⟩ := (describes_extents_iff.2 ⟨rfl, hs⟩).runProgram hscope hrun
  obtain ⟨rfl, hallocated⟩ := describes_extents_iff.1 ht
  rw [fits_extents] at hv
  exact ⟨hst, hallocated, hv⟩

end Monkey
