import Monkey.Proofs.Clean

/-!
# What has been allocated

Scopes, addresses and tasks are numbered in the order in which they are given out, and a number is
never given out twice.  What a state mentions was given out before: every address in it is below
the next one, and every closure in it has a scope of the store.  A property of all that a state has
stored is kept by every step that stores nothing else.

Only the handles of tasks are left out, since a program may be given the handle of a task of
another registry.

## Main definitions

* `Extent`, `State.extent` — how much has been given out.
* `State.Stores` — states that have stored nothing but values with a property.
* `Value.Within`, `State.Allocated` — values and states that mention only what was given out.
* `Tasks.answer?` — what a join of a task gives, once its sender is closed.
* `State.Onward` — what holds between a state and the state that an evaluation ends in.

## Main results

* `State.Stores.find?`, `State.Stores.answer?` — **what is looked up or awaited was stored.**
* `State.allocated_start` — the state before anything was evaluated mentions nothing.
* `Tasks.changes_finish` — what ending a task changes.
-/

namespace Monkey

/-! ### Extents -/

/-- How many scopes, addresses and tasks have been given out. -/
structure Extent where
  scopes : Nat
  addresses : Nat
  tasks : Nat

/-- At least as much has been given out. -/
instance : LE Extent where
  le a b := a.scopes ≤ b.scopes ∧ a.addresses ≤ b.addresses ∧ a.tasks ≤ b.tasks

namespace Extent

variable {a b c : Extent}

theorem le_refl (a : Extent) : a ≤ a := ⟨Nat.le_refl _, Nat.le_refl _, Nat.le_refl _⟩

theorem scopes_le (hab : a ≤ b) : a.scopes ≤ b.scopes := hab.1

theorem addresses_le (hab : a ≤ b) : a.addresses ≤ b.addresses := hab.2.1

theorem le_trans (hab : a ≤ b) (hbc : b ≤ c) : a ≤ c :=
  ⟨Nat.le_trans hab.1 hbc.1, Nat.le_trans hab.2.1 hbc.2.1, Nat.le_trans hab.2.2 hbc.2.2⟩

end Extent

/-- What a state has given out. -/
def State.extent (s : State) : Extent where
  scopes := s.scopes.size
  addresses := s.nextAddress
  tasks := s.tasks.nextId

/-! ### Values -/

mutual

/-- The value mentions only addresses and scopes that were given out. -/
def Value.Within (a : Extent) : Value → Prop
  | .string addr _ => addr < a.addresses
  | .array addr elements => addr < a.addresses ∧ allWithin a elements
  | .hash addr entries => addr < a.addresses ∧ entriesWithin a entries
  | .function addr closure => addr < a.addresses ∧ closure.scope < a.scopes
  | .returned addr value => addr < a.addresses ∧ value.Within a
  | .error addr _ => addr < a.addresses
  | .quote addr _ => addr < a.addresses
  | .macroFn addr closure => addr < a.addresses ∧ closure.scope < a.scopes
  | _ => True

/-- So does every value of a list. -/
def allWithin (a : Extent) : List Value → Prop
  | [] => True
  | v :: vs => v.Within a ∧ allWithin a vs

/-- So does every value of a list of entries. -/
def entriesWithin (a : Extent) : List (HashKey × Value) → Prop
  | [] => True
  | (_, v) :: es => v.Within a ∧ entriesWithin a es

end

section

variable {a b : Extent}

theorem allWithin_iff {vs : List Value} : allWithin a vs ↔ ∀ v ∈ vs, v.Within a := by
  induction vs with
  | nil => simp [allWithin]
  | cons v vs ih => simp [allWithin, ih]

theorem entriesWithin_iff {es : List (HashKey × Value)} :
    entriesWithin a es ↔ ∀ e ∈ es, e.2.Within a := by
  induction es with
  | nil => simp [entriesWithin]
  | cons e es ih =>
    obtain ⟨key, v⟩ := e
    simp [entriesWithin, ih]

mutual

/-- What was given out stays given out. -/
theorem Value.Within.mono (hab : a ≤ b) : {v : Value} → v.Within a → v.Within b
  | .string _ _, h | .error _ _, h | .quote _ _, h => Nat.lt_of_lt_of_le h hab.2.1
  | .array _ _, h => ⟨Nat.lt_of_lt_of_le h.1 hab.2.1, allWithin_mono hab h.2⟩
  | .hash _ _, h => ⟨Nat.lt_of_lt_of_le h.1 hab.2.1, entriesWithin_mono hab h.2⟩
  | .function _ _, h | .macroFn _ _, h =>
    ⟨Nat.lt_of_lt_of_le h.1 hab.2.1, Nat.lt_of_lt_of_le h.2 hab.1⟩
  | .returned _ _, h => ⟨Nat.lt_of_lt_of_le h.1 hab.2.1, Value.Within.mono hab h.2⟩
  | .integer _, _ | .boolean _, _ | .null, _ | .builtin _, _ | .intrinsic _, _ | .task _, _ =>
    trivial

theorem allWithin_mono (hab : a ≤ b) : {vs : List Value} → allWithin a vs → allWithin b vs
  | [], _ => trivial
  | _ :: _, h => ⟨Value.Within.mono hab h.1, allWithin_mono hab h.2⟩

theorem entriesWithin_mono (hab : a ≤ b) :
    {es : List (HashKey × Value)} → entriesWithin a es → entriesWithin b es
  | [], _ => trivial
  | (_, _) :: _, h => ⟨Value.Within.mono hab h.1, entriesWithin_mono hab h.2⟩

end

end

/-! ### Tasks -/

namespace TaskState

/-- What a join gives, once the sender is closed. -/
def answer? : TaskState → Option Value
  | .running _ => none
  | .ended sent => some (sent.getD .null)
  | .joined result => some result

/-- What becomes of a task that sends its result and ends. -/
def finished (result : Value) : TaskState → TaskState
  | .running sent => .ended (some (sent.getD result))
  | state => state

@[simp] theorem answer?_asked (state : TaskState) : state.asked.answer? = state.answer? := by
  cases state <;> rfl

end TaskState

namespace Tasks

/-- What a join of a task gives, once its sender is closed. -/
def answer? (t : Tasks) (id : Nat) : Option Value := (t.get? id).bind TaskState.answer?

/-- Sending a result and closing the sender changes one task, and it is finished then. -/
theorem changes_finish (t : Tasks) (id : Nat) (result : Value) :
    t.Changes id (TaskState.finished result) ((t.send id result).2.close id).2 := by
  intro other
  rw [changes_close _ id other, (t.changes_send id result).self, t.changes_send id result other,
    Option.map_map]
  split
  · congr 1
    funext state
    rcases state with (_ | _) | _ | _ <;> rfl
  · rfl

/-- A change that leaves the answers of its task as they are leaves all answers. -/
theorem Changes.answer?_of_answer? {t u : Tasks} {id other : Nat} {f : TaskState → TaskState}
    {v : Value} (h : t.Changes id f u)
    (hf : ∀ state, state.answer? = some v → (f state).answer? = some v)
    (hv : t.answer? other = some v) : u.answer? other = some v := by
  rw [answer?, Option.bind_eq_some_iff] at hv ⊢
  obtain ⟨state, hget, hanswer⟩ := hv
  by_cases heq : other = id
  · subst heq
    exact ⟨f state, by rw [h.self, hget, Option.map_some], hf state hanswer⟩
  · exact ⟨state, by rw [h.of_ne heq, hget], hanswer⟩

/-- A join gives the answer of the task. -/
theorem join_eq_result_iff {t : Tasks} {id : Nat} {v : Value} :
    (t.join id).1 = .result v ↔ t.answer? id = some v := by
  unfold join answer?
  cases t.get? id with
  | none => simp
  | some state => cases state <;> simp [TaskState.answer?]

/-- A join gives nothing where there is no such task. -/
theorem join_eq_unknown_iff {t : Tasks} {id : Nat} :
    (t.join id).1 = .unknown ↔ t.get? id = none := by
  unfold join
  cases t.get? id with
  | none => simp
  | some state => cases state <;> simp

theorem nextId_finish (t : Tasks) (id : Nat) (result : Value) :
    ((t.send id result).2.close id).2.nextId = t.nextId := by
  rw [nextId_close, nextId_send]

theorem Valid.finish {t : Tasks} (h : t.Valid) (id : Nat) (result : Value) :
    ((t.send id result).2.close id).2.Valid :=
  (h.send id result).close id

/-- Registering a task answers for no other. -/
theorem answer?_register {t : Tasks} (h : t.Valid) (id : Nat) :
    t.register.2.answer? id = t.answer? id := by
  rw [answer?, get?_register]
  split
  · next heq =>
    rw [heq, answer?, h.get?_eq_none (Nat.le_refl _)]
    rfl
  · rfl

/-- Closing a sender changes no answer that there is. -/
theorem answer?_close {t : Tasks} {other : Nat} {v : Value} (h : t.answer? other = some v)
    (id : Nat) : (t.close id).2.answer? other = some v := by
  refine (t.changes_close id).answer?_of_answer? (fun state hanswer => ?_) h
  cases state with
  | running sent => cases hanswer
  | _ => exact hanswer

/-- What a task has answered it answers after another one was finished, and after itself was. -/
theorem answer?_finish {t : Tasks} {other : Nat} {v : Value} (h : t.answer? other = some v)
    (id : Nat) (result : Value) :
    ((t.send id result).2.close id).2.answer? other = some v := by
  refine (t.changes_finish id result).answer?_of_answer? (fun state hanswer => ?_) h
  cases state with
  | running sent => cases hanswer
  | _ => exact hanswer

/-- Asking for a result changes no answer. -/
theorem answer?_join (t : Tasks) (id other : Nat) :
    (t.join id).2.answer? other = t.answer? other := by
  rw [answer?, t.changes_join id other, answer?]
  split
  · next heq =>
    subst heq
    cases t.get? other with
    | none => rfl
    | some state => exact state.answer?_asked
  · rfl

end Tasks

/-! ### States -/

/-- Every value that is bound and every result of a task has a property. -/
structure State.Stores (P : Value → Prop) (s : State) : Prop where
  bound : ∀ {id : Nat} {name : String} {v : Value}, (name, v) ∈ s.scopes.bindings id → P v
  result : ∀ {id : Nat} {state : TaskState} {v : Value},
    s.tasks.get? id = some state → state.value? = some v → P v

/-- Nothing is bound before anything was evaluated, and there are no tasks. -/
theorem State.stores_start (P : Value → Prop) (maxCallDepth : Nat) (output : Output) :
    (State.start maxCallDepth output).Stores P where
  bound hmem := by simp [State.start, Scopes.bindings, Scopes.get?, Scopes.empty] at hmem
  result {id} _ _ hget := by
    have hnone : (State.start maxCallDepth output).tasks.get? id = none :=
      Tasks.valid_empty.get?_eq_none (Nat.zero_le id)
    rw [hnone] at hget
    cases hget

namespace State.Stores

variable {P Q : Value → Prop} {s t : State}

theorem imp (h : s.Stores P) (hPQ : ∀ v, P v → Q v) : s.Stores Q where
  bound hmem := hPQ _ (h.bound hmem)
  result hget hv := hPQ _ (h.result hget hv)

/-- A state with the same tasks that binds nothing more. -/
theorem congr (h : s.Stores P) (htasks : t.tasks = s.tasks)
    (hmem : ∀ {id : Nat} {name : String} {v : Value},
      (name, v) ∈ t.scopes.bindings id → (name, v) ∈ s.scopes.bindings id) : t.Stores P where
  bound h' := h.bound (hmem h')
  result hget := h.result (htasks ▸ hget)

theorem newScope (h : s.Stores P) (outer : Option Nat) :
    State.Stores P { s with scopes := s.scopes.add outer } :=
  h.congr rfl Scopes.mem_bindings_of_add

theorem setName (h : s.Stores P) {v : Value} (hv : P v) (scope : Nat) (name : String) :
    State.Stores P { s with scopes := s.scopes.set scope name v } where
  bound hmem := by
    rcases Scopes.mem_bindings_of_set hmem with rfl | hmem
    · exact hv
    · exact h.bound hmem
  result := h.result

/-- A name that is looked up has a value with the property. -/
theorem find? (h : s.Stores P) {scope : Nat} {name : String} {v : Value}
    (hfind : s.scopes.find? scope name = some v) : P v := by
  have hanywhere : ∀ {id outer : Nat}, True → s.scopes.outer? id = some outer → True :=
    fun _ _ => trivial
  obtain ⟨_, -, hmem⟩ :=
    Scopes.exists_mem_bindings_of_find? (P := fun _ => True) hanywhere trivial hfind
  exact h.bound hmem

/-- A task that was just registered has no result. -/
theorem registerTask (h : s.Stores P) :
    State.Stores P { s with tasks := s.tasks.register.2 } where
  bound := h.bound
  result hget hv := by
    rcases Tasks.get?_of_register hget with rfl | hget
    · cases hv
    · exact h.result hget hv

/-- One task is changed, and whatever its result is then has the property. -/
theorem changeTask (h : s.Stores P) {tasks : Tasks} {id : Nat} {f : TaskState → TaskState}
    (htasks : s.tasks.Changes id f tasks)
    (hf : ∀ state v, s.tasks.get? id = some state → (f state).value? = some v → P v) :
    State.Stores P { s with tasks := tasks } where
  bound := h.bound
  result hother hv := by
    rcases htasks.get?_eq_some hother with ⟨old, -, hold, rfl⟩ | hother
    · exact hf old _ hold hv
    · exact h.result hother hv

theorem sendResult (h : s.Stores P) (id : Nat) {result : Value} (hresult : P result) :
    State.Stores P { s with tasks := (s.tasks.send id result).2 } := by
  refine h.changeTask (s.tasks.changes_send id result) fun state v hget hv => ?_
  rcases TaskState.value?_sending hv with rfl | hv
  · exact hresult
  · exact h.result hget hv

/-- Closing a sender gives no task a result. -/
theorem closeTask (h : s.Stores P) (id : Nat) :
    State.Stores P { s with tasks := (s.tasks.close id).2 } := by
  refine h.changeTask (s.tasks.changes_close id) fun state v hget hv => ?_
  rw [TaskState.value?_closing] at hv
  exact h.result hget hv

theorem finishTask (h : s.Stores P) (id : Nat) {result : Value} (hresult : P result) :
    State.Stores P { s with tasks := ((s.tasks.send id result).2.close id).2 } :=
  (h.sendResult id hresult).closeTask id

/-- Null is the answer of a task that has sent no result. -/
theorem getD_sent (h : s.Stores P) (hnull : P .null) {id : Nat} {sent : Option Value}
    (hget : s.tasks.get? id = some (.ended sent)) : P (sent.getD .null) :=
  Value.getD_null_of hnull fun _ hv => h.result hget hv

theorem joinTask (h : s.Stores P) (hnull : P .null) (id : Nat) :
    State.Stores P { s with tasks := (s.tasks.join id).2 } := by
  refine h.changeTask (s.tasks.changes_join id) fun state v hget hv => ?_
  rcases TaskState.value?_asked hv with rfl | hv
  · exact hnull
  · exact h.result hget hv

/-- What a task answers has the property. -/
theorem answer? (h : s.Stores P) (hnull : P .null) {id : Nat} {v : Value}
    (hv : s.tasks.answer? id = some v) : P v := by
  rw [Tasks.answer?, Option.bind_eq_some_iff] at hv
  obtain ⟨state, hget, hanswer⟩ := hv
  cases state with
  | running sent => cases hanswer
  | ended sent =>
    cases hanswer
    exact h.getD_sent hnull hget
  | joined value =>
    cases hanswer
    exact h.result hget rfl

end State.Stores

/-- Every value that is bound and every result of a task mentions only what was given out, and the
tasks are those whose numbers were given out. -/
structure State.Allocated (s : State) : Prop where
  registry : s.tasks.Valid
  bound : ∀ {id : Nat} {name : String} {v : Value},
    (name, v) ∈ s.scopes.bindings id → v.Within s.extent
  result : ∀ {id : Nat} {state : TaskState} {v : Value},
    s.tasks.get? id = some state → state.value? = some v → v.Within s.extent

/-- **The state before anything was evaluated mentions nothing.** -/
theorem State.allocated_start (maxCallDepth : Nat) (output : Output) :
    (State.start maxCallDepth output).Allocated where
  registry := Tasks.valid_empty
  bound := (stores_start _ maxCallDepth output).bound
  result := (stores_start _ maxCallDepth output).result

/-- What holds between a state and the state that an evaluation ends in. -/
structure State.Onward (s t : State) : Prop where
  extent_le : s.extent ≤ t.extent
  callDepth_eq : t.callDepth = s.callDepth
  maxCallDepth_eq : t.maxCallDepth = s.maxCallDepth
  spawnFailure_eq : t.spawnFailure = s.spawnFailure
  answer? : ∀ {id : Nat} {v : Value}, s.tasks.answer? id = some v → t.tasks.answer? id = some v
  output : ∃ lines, t.output = s.output.printLines lines

theorem Output.printLines_append (lines more : List String) (output : Output) :
    output.printLines (lines ++ more) = (output.printLines lines).printLines more :=
  List.foldl_append

namespace State

variable {s t u : State}

theorem Onward.refl (s : State) : s.Onward s :=
  ⟨s.extent.le_refl, rfl, rfl, rfl, id, [], rfl⟩

/-- A step that prints nothing and gives nothing out. -/
theorem Onward.of_extent_eq (hextent : t.extent = s.extent) (hdepth : t.callDepth = s.callDepth)
    (hmax : t.maxCallDepth = s.maxCallDepth) (hhost : t.spawnFailure = s.spawnFailure)
    (hanswer : ∀ {id : Nat} {v : Value}, s.tasks.answer? id = some v → t.tasks.answer? id = some v)
    (houtput : t.output = s.output) : s.Onward t :=
  ⟨hextent ▸ s.extent.le_refl, hdepth, hmax, hhost, hanswer, [], houtput⟩

theorem Onward.trans (hst : s.Onward t) (htu : t.Onward u) : s.Onward u where
  extent_le := Extent.le_trans hst.extent_le htu.extent_le
  callDepth_eq := htu.callDepth_eq.trans hst.callDepth_eq
  maxCallDepth_eq := htu.maxCallDepth_eq.trans hst.maxCallDepth_eq
  spawnFailure_eq := htu.spawnFailure_eq.trans hst.spawnFailure_eq
  answer? h := htu.answer? (hst.answer? h)
  output := by
    obtain ⟨lines, hlines⟩ := hst.output
    obtain ⟨more, hmore⟩ := htu.output
    exact ⟨lines ++ more, by rw [Output.printLines_append, ← hlines, hmore]⟩

theorem extent_le_newScope (s : State) (outer : Option Nat) :
    s.extent ≤ State.extent { s with scopes := s.scopes.add outer } :=
  ⟨by simp [State.extent], Nat.le_refl _, Nat.le_refl _⟩

theorem Allocated.stores (h : s.Allocated) : s.Stores (Value.Within s.extent) :=
  ⟨h.bound, h.result⟩

theorem Allocated.newScope (h : s.Allocated) (outer : Option Nat) :
    State.Allocated { s with scopes := s.scopes.add outer } := by
  have hle := s.extent_le_newScope outer
  have hstores := (h.stores.imp fun _ hv => hv.mono hle).newScope outer
  exact ⟨h.registry, hstores.bound, hstores.result⟩

/-- What a task answers mentions only what was given out. -/
theorem Allocated.answer? (h : s.Allocated) {id : Nat} {v : Value}
    (hv : s.tasks.answer? id = some v) : v.Within s.extent :=
  h.stores.answer? trivial hv

theorem extent_setName (s : State) (scope : Nat) (name : String) (v : Value) :
    State.extent { s with scopes := s.scopes.set scope name v } = s.extent := by
  simp [State.extent]

theorem extent_le_register (s : State) :
    s.extent ≤ State.extent { s with tasks := s.tasks.register.2 } :=
  ⟨Nat.le_refl _, Nat.le_refl _, by simp [State.extent]⟩

end State

end Monkey
