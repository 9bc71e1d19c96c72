import Mathlib.Data.Nat.Basic
import Monkey.Proofs.Actions
import Monkey.Proofs.Footing
import Monkey.Proofs.Holding

/-!
# Handles of tasks

A task is registered under the next number, and none is ever struck off.  Who launches a task gets
its handle, and handles are made in no other way: values are taken out, put together anew, bound,
sent and joined, but the handles in them are old ones.  So every handle that can be come by belongs
to a task that is registered, if this is so at the beginning.  That is a discipline that the threads
of all programs keep to: the handles that they deal with are those of tasks that have got a number.

## Main definitions

* `Value.StandsIn` — what every value inside of another one has to stand for.
* `Value.HandlesIn`, `State.Registered` — values with handles of known tasks only, and states whose
  handles belong to registered tasks.
* `handling` — the discipline of known handles.

## Main results

* `Value.matches_self_iff` — **a value matches itself exactly if all that is inside does.**
* `State.Registered.runProgram`, `State.Registered.expandMacros` — no handle dangles after the run
  of a program or the expansion of its macros.
-/

namespace Monkey

/-! ### Values that match themselves -/

/-- The numbers of the value itself, without those of what is inside, stand for themselves. -/
def Value.StandsIn (μ : Matching) : Value → Prop
  | .string a _ | .array a _ | .hash a _ | .returned a _ | .error a _ | .quote a _ =>
    μ.addresses a a
  | .function a c | .macroFn a c => μ.addresses a a ∧ μ.scopes c.scope c.scope
  | .task id => μ.tasks id id
  | _ => True

section

variable {μ : Matching} {v w : Value}

/-- What is inside of a value that matches itself matches itself. -/
theorem Value.Matches.holds (h : Value.Matches μ v v) (hw : v.Holds w) : Value.Matches μ w w := by
  induction hw with
  | self => exact h
  | element hmem _ ih =>
    cases h with
    | array _ hs => exact ih (List.forall₂_same.1 hs _ hmem)
  | entry hmem _ ih =>
    cases h with
    | hash _ hs => exact ih (Keywise.same_iff.1 hs _ hmem)
  | returned _ ih =>
    cases h with
    | returned _ hv => exact ih hv

mutual

theorem Value.matches_of_standsIn : (v : Value) → v.All (Value.StandsIn μ) → Value.Matches μ v v
  | .integer n, _ => .integer n
  | .boolean b, _ => .boolean b
  | .null, _ => .null
  | .string _ text, h => .string text (h _ .self)
  | .array _ vs, h => .array (h _ .self) (allMatch_of_standsIn vs (Value.all_array.1 h).2)
  | .hash _ es, h => .hash (h _ .self) (entriesMatch_of_standsIn es (Value.all_hash.1 h).2)
  | .function _ _, h => .function (h _ .self).1 ⟨rfl, rfl, (h _ .self).2⟩
  | .returned _ v, h =>
    .returned (h _ .self) (Value.matches_of_standsIn v (Value.all_returned.1 h).2)
  | .error _ message, h => .error message (h _ .self)
  | .quote _ e, h => .quote e (h _ .self)
  | .macroFn _ _, h => .macroFn (h _ .self).1 ⟨rfl, rfl, (h _ .self).2⟩
  | .builtin b, _ => .builtin b
  | .intrinsic i, _ => .intrinsic i
  | .task _, h => .task (h _ .self)

theorem allMatch_of_standsIn : (vs : List Value) → (∀ v ∈ vs, v.All (Value.StandsIn μ)) →
    List.Forall₂ (Value.Matches μ) vs vs
  | [], _ => .nil
  | v :: vs, h => by
    obtain ⟨hv, hvs⟩ := List.forall_mem_cons.1 h
    exact .cons (Value.matches_of_standsIn v hv) (allMatch_of_standsIn vs hvs)

theorem entriesMatch_of_standsIn : (es : List (HashKey × Value)) →
    (∀ e ∈ es, e.2.All (Value.StandsIn μ)) → Keywise (Value.Matches μ) es es
  | [], _ => .nil
  | (key, v) :: es, h => by
    obtain ⟨hv, hes⟩ := List.forall_mem_cons.1 h
    exact .cons key (Value.matches_of_standsIn v hv) (entriesMatch_of_standsIn es hes)

end

/-- **A value matches itself exactly if all that is inside does.** -/
theorem Value.matches_self_iff : Value.Matches μ v v ↔ v.All (Value.StandsIn μ) := by
  refine ⟨fun h w hw => ?_, Value.matches_of_standsIn v⟩
  have hself := h.holds hw
  -- the numbers on both sides are those of one value
  cases w with
  | string | array | hash | returned | error | quote | task =>
    cases hself
    assumption
  | function addr c =>
    cases hself with
    | function haddr hc => exact ⟨haddr, hc.scope⟩
  | macroFn addr c =>
    cases hself with
    | macroFn haddr hc => exact ⟨haddr, hc.scope⟩
  | integer | boolean | null | builtin | intrinsic => trivial

end

/-! ### Handles -/

/-- If the value is the handle of a task, its number is one of those that are known. -/
def Value.IsHandleIn (known : Nat → Prop) : Value → Prop
  | .task id => known id
  | _ => True

/-- The handles of tasks that the value holds have numbers that are known. -/
def Value.HandlesIn (known : Nat → Prop) (v : Value) : Prop := v.All (Value.IsHandleIn known)

/-- Whatever a scope binds and whatever a task has for a result holds handles with known numbers
only. -/
def State.HandlesIn (known : Nat → Prop) (s : State) : Prop := s.Stores (Value.HandlesIn known)

/-- The handles in the state are those of registered tasks. -/
def State.Registered (s : State) : Prop := s.HandlesIn (· < s.tasks.nextId)

section

variable {known known' : Nat → Prop} {v : Value}

theorem Value.HandlesIn.mono (h : v.HandlesIn known) (hle : ∀ id, known id → known' id) :
    v.HandlesIn known' := by
  refine Value.All.imp h fun w hw => ?_
  cases w with
  | task id => exact hle id hw
  | _ => trivial

theorem Value.handlesIn_null : Value.null.HandlesIn known :=
  (Value.all_iff_of_isLeaf rfl).2 trivial

end

/-! ### The discipline of known handles -/

/-- Tasks with numbers below a given one are known, and so is everything else. -/
def knownTasks : Footing Nat where
  matching n := ⟨.identity, .identity, .among (· < n)⟩
  Owns _ := Eq
  Looks _ := True
  matching_mono hle := ⟨id, id, fun ⟨heq, hlt⟩ => ⟨heq, Nat.lt_of_lt_of_le hlt hle⟩⟩
  owns_mono _ := id
  scopes_of_owns := id
  looks _ := trivial

section

variable {n : Nat} {v : Value}

theorem handlesIn_iff_matches :
    v.HandlesIn (· < n) ↔ Value.Matches (knownTasks.matching n) v v := by
  rw [Value.matches_self_iff]
  refine forall₂_congr fun w _ => ?_
  cases w with
  | task id => exact (and_iff_right rfl).symm
  | function | macroFn => exact iff_of_true trivial ⟨rfl, rfl⟩
  | string | array | hash | returned | error | quote => exact iff_of_true trivial rfl
  | integer | boolean | null | builtin | intrinsic => exact Iff.rfl

/-- What is kept in the state by an action that is allowed has handles of known tasks only. -/
theorem Action.Alike.handlesIn {β : Type} {a : Action β} (h : a.Alike knownTasks n a) :
    ∀ v ∈ a.stored, v.HandlesIn (· < n) := by
  intro v hv
  cases h with
  | setName name _ hmatches | send _ hmatches =>
    rw [List.mem_singleton.1 hv]
    exact handlesIn_iff_matches.2 hmatches
  | _ => cases hv

/-- What the discipline of known handles keeps true: so many tasks have got a number, and no handle
in the state is one of another task. -/
structure State.Knows (n : Nat) (s : State) : Prop where
  registry : s.tasks.Valid
  nextId_eq : s.tasks.nextId = n
  handles : s.HandlesIn (· < n)

/-- What comes of an action that is allowed has handles of known tasks only. -/
theorem State.Knows.gives {β : Type} {a : Action β} {s t : State} {b : β} (hs : s.Knows n)
    (hmay : a.Alike knownTasks n a) (hrun : a.run s = some (b, t)) :
    a.Gives knownTasks t.tasks.nextId a b b := by
  obtain ⟨hvalid, rfl, hhandles⟩ := hs
  have hmatch {v : Value} (hv : v.HandlesIn (· < s.tasks.nextId)) :
      Value.Matches (knownTasks.matching s.tasks.nextId) v v := handlesIn_iff_matches.1 hv
  cases hmay with
  | stuck => cases hrun
  | newScope | fresh | permit =>
    cases hrun
    exact rfl
  -- the new number is known from now on
  | register =>
    cases hrun
    exact ⟨rfl, Nat.lt_succ_self _⟩
  | look =>
    cases hrun
    refine Scopes.looksAlike (Keywise.same_iff.2 fun entry hentry => ?_) ?_ _
    · exact hmatch (hhandles.bound hentry)
    · cases s.scopes.outer? _ with
      | none => exact .none
      | some _ => exact .some rfl
  -- the reply is what an entry held, or `null` for a sender that was dropped
  | @join id _ hid =>
    obtain ⟨hreply, rfl⟩ := Eval.joinTask_eq_some_iff.1 hrun
    change Option.Rel (Value.Matches (knownTasks.matching (s.tasks.join id).2.nextId)) b b ∧ _
    rw [s.tasks.nextId_join id]
    refine ⟨?_, fun _ => rfl⟩
    cases b with
    | some v =>
      exact .some (hmatch (hhandles.answer? Value.handlesIn_null
        (Tasks.join_eq_result_iff.1 hreply)))
    | none => exact .none
  | note | setName | print | enterCall | leaveCall | send | close => trivial

/-- **The discipline of known handles.** -/
def handling : Discipline Nat where
  toRules := knownTasks.rules
  Holds := State.Knows
  holds_callDepth h _ := ⟨h.registry, h.nextId_eq, ⟨h.handles.bound, h.handles.result⟩⟩
  step {β n a s t b} hs hmay hrun := by
    have hnext := Action.nextId_eq hrun
    rw [hs.nextId_eq] at hnext
    have hle : n ≤ t.tasks.nextId := by omega
    refine ⟨t.tasks.nextId, hle, ⟨Action.valid hs.registry hrun, rfl, ?_⟩, hs.gives hmay hrun⟩
    have hstores := Action.stores hs.handles Value.handlesIn_null
      (Action.Alike.handlesIn hmay) hrun
    exact hstores.imp fun _ hv => hv.mono fun _ hid => Nat.lt_of_lt_of_le hid hle

end

/-- At first there are no tasks, and no handles. -/
theorem State.registered_of_empty {s : State} (hempty : s.tasks = .empty)
    (hfree : ∀ scope name v id, (name, v) ∈ s.scopes.bindings scope → ¬ v.Holds (.task id)) :
    s.Registered where
  bound {scope name v} hmem w hw := by
    cases w with
    | task id => exact absurd hw (hfree scope name v id hmem)
    | _ => trivial
  result {id state v} hget := by
    rw [hempty] at hget
    cases hget

namespace State.Registered

variable {s t : State} {budget scope macros : Nat} {α : Type} {a : α}

theorem knows (hs : s.Registered) (hvalid : s.tasks.Valid) : s.Knows s.tasks.nextId :=
  ⟨hvalid, rfl, hs⟩

/-- No handle dangles where code ends that keeps to the discipline. -/
theorem of_run {x : Code α} {Q : Nat → α → α → Prop} (hs : s.Registered) (hvalid : s.tasks.Valid)
    (hQ : Lasting Q) (hx : ∀ n, x.Abide knownTasks.rules n Q x) (hrun : x.run s = some (a, t)) :
    t.Registered := by
  obtain ⟨n, -, ⟨-, rfl, hhandles⟩, -⟩ := handling.run hQ (hx _) (hs.knows hvalid) hrun
  exact hhandles

theorem runProgram (hs : s.Registered) (hvalid : s.tasks.Valid) {program : Program} {v : Value}
    (hrun : runProgram budget program scope s = some (v, t)) : t.Registered := by
  rw [← Code.run_runProgramOn] at hrun
  exact hs.of_run hvalid knownTasks.rules.sends_mono
    (fun _ => knownTasks.runProgramOn _ program rfl) hrun

theorem bindMacros (hs : s.Registered) (hvalid : s.tasks.Valid)
    {definitions : List MacroDefinition}
    (hrun : bindMacros (m := Eval) macros definitions s = some ((), t)) : t.Registered := by
  rw [← Code.run_bindMacros] at hrun
  exact hs.of_run hvalid lasting_anyResults (fun _ => knownTasks.bindMacros definitions rfl) hrun

theorem expandMacros (hs : s.Registered) (hvalid : s.tasks.Valid) {program : Program}
    {reply : Except ExpansionError Program}
    (hrun : expandMacros (evaluate budget) macros program s = some (reply, t)) :
    t.Registered := by
  rw [← Code.run_expandMacros] at hrun
  exact hs.of_run hvalid (fun _ _ _ _ _ => id)
    (fun _ => knownTasks.expandMacros _ (fun _ => trivial) program rfl) hrun

end State.Registered

end Monkey
