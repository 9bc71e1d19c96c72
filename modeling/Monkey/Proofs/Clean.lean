import Monkey.Evaluation

/-!
# Values that hold nothing abrupt

An error or the wrapper of a `return` ends everything around it; no other value holds one.  A value
is clean if it is not abrupt and no array or hash inside of it holds anything abrupt.  Values lead
on to scopes, through closures, and to tasks, through handles; a state is clean in a region of
scopes and tasks if nothing in it leads out of the region or to anything abrupt.  The scopes and
tasks that are still to be created always belong to the region, so that one region serves for a
whole run.

## Main definitions

* `Region`, `Value.CleanIn`, `State.CleanIn` — regions, and what is clean in them.
* `Value.ResultIn`, `Value.OutcomeIn` — what a call may give, and what an expression may give.
* `Reaches`, `State.CleanFrom` — what scopes lead to, and states in which that is clean.

## Main results

* `State.CleanFrom.cleanIn` — what scopes lead to, with all that is still to be created, is a
  region.
* `Value.at_resultIn`, `Builtin.apply_resultIn` — **operations on clean values give clean values or
  errors.**
-/

namespace Monkey

/-- A set of scopes and a set of tasks. -/
structure Region where
  scopes : Nat → Prop
  tasks : Nat → Prop

/-- The region of all scopes and all tasks. -/
def Region.all : Region := ⟨fun _ => True, fun _ => True⟩

mutual

/-- Neither the value nor anything inside of it is abrupt, and it leads into the region only. -/
def Value.CleanIn (r : Region) : Value → Prop
  | .array _ elements => cleanAll r elements
  | .hash _ entries => cleanEntries r entries
  | .function _ closure => r.scopes closure.scope
  | .macroFn _ closure => r.scopes closure.scope
  | .task id => r.tasks id
  | .returned _ _ => False
  | .error _ _ => False
  | _ => True

/-- Every value of a list is clean. -/
def cleanAll (r : Region) : List Value → Prop
  | [] => True
  | v :: vs => v.CleanIn r ∧ cleanAll r vs

/-- Every value of a list of entries is clean. -/
def cleanEntries (r : Region) : List (HashKey × Value) → Prop
  | [] => True
  | (_, v) :: es => v.CleanIn r ∧ cleanEntries r es

end

/-- Neither the value nor anything inside of it is abrupt. -/
def Value.Clean (v : Value) : Prop := v.CleanIn .all

/-- What a call, a program or a task may give: an error, or a clean value. -/
def Value.ResultIn (r : Region) : Value → Prop
  | .error _ _ => True
  | v => v.CleanIn r

/-- What an expression may give: an error, a clean value, or the wrapper of a clean value. -/
def Value.OutcomeIn (r : Region) : Value → Prop
  | .error _ _ => True
  | .returned _ v => v.CleanIn r
  | v => v.CleanIn r

section

variable {r : Region}

theorem cleanAll_iff {vs : List Value} : cleanAll r vs ↔ ∀ v ∈ vs, v.CleanIn r := by
  induction vs with
  | nil => simp [cleanAll]
  | cons v vs ih => simp [cleanAll, ih]

theorem cleanEntries_iff {es : List (HashKey × Value)} :
    cleanEntries r es ↔ ∀ e ∈ es, e.2.CleanIn r := by
  induction es with
  | nil => simp [cleanEntries]
  | cons e es ih =>
    obtain ⟨k, v⟩ := e
    simp [cleanEntries, ih]

namespace Value

theorem CleanIn.resultIn {v : Value} (h : v.CleanIn r) : v.ResultIn r := by
  cases v with
  | error => exact h.elim
  | _ => exact h

theorem ResultIn.outcomeIn {v : Value} (h : v.ResultIn r) : v.OutcomeIn r := by
  cases v with
  | returned => exact h.elim
  | _ => exact h

/-- Of what an expression may give, the values that are not abrupt are clean. -/
theorem OutcomeIn.cleanIn {v : Value} (h : v.OutcomeIn r) (hv : v.isAbrupt = false) :
    v.CleanIn r := by
  cases v with
  | returned | error => cases hv
  | _ => exact h

/-- What is left of an outcome once a `return` has been caught. -/
theorem OutcomeIn.unwrapReturn {v : Value} (h : v.OutcomeIn r) : v.unwrapReturn.ResultIn r := by
  cases v with
  | returned addr value => exact CleanIn.resultIn h
  | _ => exact h

end Value

/-! ### Operations on clean values -/

theorem insert_clean {entries : Entries Value} {key : HashKey} {v : Value}
    (h : ∀ e ∈ entries, e.2.CleanIn r) (hv : v.CleanIn r) :
    ∀ e ∈ Entries.insert key v entries, e.2.CleanIn r := by
  intro e he
  rcases Entries.mem_insert he with rfl | he
  · exact hv
  · exact h e he

theorem PrefixOp.apply_resultIn (op : PrefixOp) (v : Value) (fresh : Nat) :
    (op.apply v fresh).ResultIn r := by
  unfold PrefixOp.apply
  split <;> trivial

theorem InfixOp.apply_resultIn (op : InfixOp) (v w : Value) (fresh : Nat) :
    (op.apply v w fresh).ResultIn r := by
  unfold InfixOp.apply
  split
  · cases op with
    | div =>
      -- only division can go wrong
      simp only [InfixOp.applyIntegers]
      split <;> trivial
    | _ => trivial
  · unfold InfixOp.applyStrings
    split <;> trivial
  · unfold InfixOp.applyOthers
    split
    · trivial
    · split <;> trivial

/-- **Indexing a clean value gives a clean value or an error.** -/
theorem Value.at_resultIn {base : Value} (h : base.CleanIn r) (position : Value) (fresh : Nat) :
    (base.at position fresh).ResultIn r := by
  unfold Value.at
  split
  · rw [Value.CleanIn, cleanAll_iff] at h
    unfold elementAt
    split
    · trivial
    · refine (getD_null_of (P := CleanIn r) trivial fun v hv => ?_).resultIn
      exact h v (List.mem_of_getElem? hv)
  · rw [Value.CleanIn, cleanEntries_iff] at h
    split
    · refine (getD_null_of (P := CleanIn r) trivial fun v hv => ?_).resultIn
      exact h _ (Entries.mem_of_find? hv)
    · trivial
  · trivial

theorem Builtin.applyArray_resultIn (b : Builtin) {elements more : List Value}
    (he : ∀ v ∈ elements, v.CleanIn r) (hm : ∀ v ∈ more, v.CleanIn r) (fresh : Nat) :
    (b.applyArray elements more fresh).ResultIn r := by
  cases b with
  | first =>
    refine (Value.getD_null_of (P := Value.CleanIn r) trivial fun v hv => ?_).resultIn
    exact he v (List.mem_of_head? hv)
  | last =>
    refine (Value.getD_null_of (P := Value.CleanIn r) trivial fun v hv => ?_).resultIn
    exact he v (List.mem_of_getLast? hv)
  | rest =>
    cases elements with
    | nil => trivial
    | cons v tail => exact cleanAll_iff.2 (List.forall_mem_cons.1 he).2
  | push =>
    refine cleanAll_iff.2 fun v hv => ?_
    rcases List.mem_append.1 hv with hv | hv
    · exact he v hv
    · exact hm v hv
  | len | puts => trivial

/-- **A native function gives a clean value or an error, if its arguments are clean.** -/
theorem Builtin.apply_resultIn (b : Builtin) {args : List Value} (h : ∀ v ∈ args, v.CleanIn r)
    (fresh : Nat) : (b.apply args fresh).ResultIn r := by
  unfold Builtin.apply
  split
  · trivial
  · split
    · trivial
    · split
      · unfold Builtin.applyLen
        split <;> trivial
      · rw [List.forall_mem_cons, Value.CleanIn, cleanAll_iff] at h
        exact Builtin.applyArray_resultIn _ h.1 h.2 fresh
      · trivial
      · trivial

/-! ### Clean states -/

/-- The result that a task has so far. -/
def TaskState.value? : TaskState → Option Value
  | .running sent => sent
  | .ended sent => sent
  | .joined result => some result

namespace TaskState

variable {state : TaskState} {result v : Value}

/-- A task that is to send a result has that one then, or the one that it had. -/
theorem value?_sending (h : (state.sending result).value? = some v) :
    v = result ∨ state.value? = some v := by
  rcases state with (_ | _) | _ | _
  · exact .inl (Option.some.inj h).symm
  all_goals exact .inr h

theorem value?_closing (state : TaskState) : state.closing.value? = state.value? := by
  cases state <;> rfl

/-- The result of a task that is asked for it is the one that it had, or null. -/
theorem value?_asked (h : state.asked.value? = some v) : v = .null ∨ state.value? = some v := by
  rcases state with _ | (_ | _) | _
  · exact .inr h
  · exact .inl (Option.some.inj h).symm
  all_goals exact .inr h

end TaskState

/-- Every binding and every result of a task in the region is clean, errors being possible results,
and nothing in the region leads out of it.  The registry is one as it comes about. -/
structure State.CleanIn (r : Region) (s : State) : Prop where
  registry : s.tasks.Valid
  outer : ∀ {id outer : Nat}, r.scopes id → s.scopes.outer? id = some outer → r.scopes outer
  bound : ∀ {id : Nat} {name : String} {v : Value}, r.scopes id →
    (name, v) ∈ s.scopes.bindings id → v.CleanIn r
  result : ∀ {id : Nat} {state : TaskState} {v : Value}, r.tasks id →
    s.tasks.get? id = some state → state.value? = some v → v.ResultIn r
  /-- The scopes that are still to be created belong to the region. -/
  newScopes : ∀ {id : Nat}, s.scopes.size ≤ id → r.scopes id
  /-- The tasks that are still to be started belong to the region. -/
  newTasks : ∀ {id : Nat}, s.tasks.nextId ≤ id → r.tasks id

namespace State.CleanIn

variable {s : State}

/-- A name that is looked up from a scope of the region has a clean value. -/
theorem find? (h : s.CleanIn r) {name : String} {v : Value} {id : Nat} (hid : r.scopes id)
    (hfind : s.scopes.find? id name = some v) : v.CleanIn r := by
  obtain ⟨other, hother, hmem⟩ := Scopes.exists_mem_bindings_of_find? h.outer hid hfind
  exact h.bound hother hmem

theorem newScope (h : s.CleanIn r) {outer : Option Nat}
    (houter : ∀ o, outer = some o → r.scopes o) :
    State.CleanIn r { s with scopes := s.scopes.add outer } where
  registry := h.registry
  outer {id o} hid ho := by
    rcases Scopes.outer?_of_add ho with ho | ⟨-, hlast⟩
    · exact h.outer hid ho
    · exact houter o hlast
  bound hid hmem := h.bound hid (Scopes.mem_bindings_of_add hmem)
  result := h.result
  newScopes {id} hid := by
    refine h.newScopes ?_
    simp only [Scopes.size_add] at hid
    omega
  newTasks := h.newTasks

theorem setName (h : s.CleanIn r) {v : Value} (hv : v.CleanIn r) (scope : Nat) (name : String) :
    State.CleanIn r { s with scopes := s.scopes.set scope name v } where
  registry := h.registry
  outer hid ho := by
    rw [Scopes.outer?_set] at ho
    exact h.outer hid ho
  bound hid hmem := by
    rcases Scopes.mem_bindings_of_set hmem with rfl | hmem
    · exact hv
    · exact h.bound hid hmem
  result := h.result
  newScopes {id} hid := by
    rw [Scopes.size_set] at hid
    exact h.newScopes hid
  newTasks := h.newTasks

/-- Only the scopes and the tasks of a state count. -/
theorem congr (h : s.CleanIn r) {t : State} (hscopes : t.scopes = s.scopes)
    (htasks : t.tasks = s.tasks) : t.CleanIn r where
  registry := htasks ▸ h.registry
  outer hid ho := h.outer hid (hscopes ▸ ho)
  bound hid hmem := h.bound hid (hscopes ▸ hmem)
  result hid hget := h.result hid (htasks ▸ hget)
  newScopes hid := h.newScopes (hscopes ▸ hid)
  newTasks hid := h.newTasks (htasks ▸ hid)

theorem registerTask (h : s.CleanIn r) :
    State.CleanIn r { s with tasks := s.tasks.register.2 } where
  registry := h.registry.register
  outer := h.outer
  bound := h.bound
  result {id state v} hid hget hv := by
    rcases Tasks.get?_of_register hget with rfl | hget
    · -- a task that was just registered has sent nothing
      cases hv
    · exact h.result hid hget hv
  newScopes := h.newScopes
  newTasks {id} hid := by
    refine h.newTasks ?_
    simp only [Tasks.nextId_register] at hid
    omega

/-- One task is changed, and what its result is then may be one. -/
theorem changeTask (h : s.CleanIn r) {tasks : Tasks} {id : Nat} {f : TaskState → TaskState}
    (hvalid : tasks.Valid) (hnext : tasks.nextId = s.tasks.nextId)
    (htasks : s.tasks.Changes id f tasks)
    (hf : ∀ state v, s.tasks.get? id = some state → (f state).value? = some v →
      v.ResultIn r) :
    State.CleanIn r { s with tasks := tasks } where
  registry := hvalid
  outer := h.outer
  bound := h.bound
  result hother hstate hv := by
    rcases htasks.get?_eq_some hstate with ⟨old, -, hold, rfl⟩ | hstate
    · exact hf old _ hold hv
    · exact h.result hother hstate hv
  newScopes := h.newScopes
  newTasks hother := h.newTasks (hnext ▸ hother)

theorem sendTask (h : s.CleanIn r) {id : Nat} (hid : r.tasks id) {v : Value}
    (hv : v.ResultIn r) : State.CleanIn r { s with tasks := (s.tasks.send id v).2 } := by
  refine h.changeTask (h.registry.send id v) (Tasks.nextId_send ..) (s.tasks.changes_send id v)
    fun state w hget hw => ?_
  rcases TaskState.value?_sending hw with rfl | hw
  · exact hv
  · exact h.result hid hget hw

theorem closeTask (h : s.CleanIn r) {id : Nat} (hid : r.tasks id) :
    State.CleanIn r { s with tasks := (s.tasks.close id).2 } := by
  refine h.changeTask (h.registry.close id) (Tasks.nextId_close ..) (s.tasks.changes_close id)
    fun state w hget hw => ?_
  rw [TaskState.value?_closing] at hw
  exact h.result hid hget hw

/-- What a join gives is a possible result of a task. -/
theorem joinTask_result (h : s.CleanIn r) {id : Nat} (hid : r.tasks id) {v : Value}
    (hv : (s.tasks.join id).1 = .result v) : v.ResultIn r := by
  unfold Tasks.join at hv
  split at hv
  · cases hv
  · cases hv
  · next sent hget =>
    cases hv
    cases sent with
    | none => trivial
    | some w => exact h.result hid hget rfl
  · next w hget =>
    cases hv
    exact h.result hid hget rfl

theorem joinTask (h : s.CleanIn r) {id : Nat} (hid : r.tasks id) :
    State.CleanIn r { s with tasks := (s.tasks.join id).2 } := by
  refine h.changeTask (h.registry.join id) (Tasks.nextId_join ..) (s.tasks.changes_join id)
    fun state w hget hw => ?_
  rcases TaskState.value?_asked hw with rfl | hw
  · trivial
  · exact h.result hid hget hw

end State.CleanIn

end

/-! ### What scopes lead to -/

/-- What is met on the way from a scope: scopes, tasks and values. -/
inductive Item
  | scope (id : Nat)
  | task (id : Nat)
  | value (v : Value)

/-- What can be met on the way from the scopes that `roots` holds for: outwards, through bindings,
into arrays and hashes, through closures, and through handles to the results of tasks. -/
inductive Reaches (s : State) (roots : Nat → Prop) : Item → Prop
  | root {id : Nat} : roots id → Reaches s roots (.scope id)
  | outer {id outer : Nat} : Reaches s roots (.scope id) → s.scopes.outer? id = some outer →
      Reaches s roots (.scope outer)
  | bound {id : Nat} {name : String} {v : Value} : Reaches s roots (.scope id) →
      (name, v) ∈ s.scopes.bindings id → Reaches s roots (.value v)
  | element {addr : Nat} {elements : List Value} {v : Value} :
      Reaches s roots (.value (.array addr elements)) → v ∈ elements → Reaches s roots (.value v)
  | entry {addr : Nat} {entries : List (HashKey × Value)} {key : HashKey} {v : Value} :
      Reaches s roots (.value (.hash addr entries)) → (key, v) ∈ entries →
      Reaches s roots (.value v)
  | closure {addr : Nat} {c : Closure} : Reaches s roots (.value (.function addr c)) →
      Reaches s roots (.scope c.scope)
  | macroClosure {addr : Nat} {c : Closure} : Reaches s roots (.value (.macroFn addr c)) →
      Reaches s roots (.scope c.scope)
  | handle {id : Nat} : Reaches s roots (.value (.task id)) → Reaches s roots (.task id)
  | result {id : Nat} {state : TaskState} {v : Value} : Reaches s roots (.task id) →
      s.tasks.get? id = some state → state.value? = some v → Reaches s roots (.value v)

/-- Every scope that is reached from `roots` binds clean values only, and every task that is reached
has a clean result or an error.  The registry is one as it comes about. -/
structure State.CleanFrom (roots : Nat → Prop) (s : State) : Prop where
  registry : s.tasks.Valid
  bound : ∀ {id : Nat} {name : String} {v : Value}, Reaches s roots (.scope id) →
    (name, v) ∈ s.scopes.bindings id → v.Clean
  result : ∀ {id : Nat} {state : TaskState} {v : Value}, Reaches s roots (.task id) →
    s.tasks.get? id = some state → state.value? = some v → v.ResultIn .all

/-- What is reached from some scopes, and all that is still to be created. -/
def State.reach (s : State) (roots : Nat → Prop) : Region where
  scopes id := Reaches s roots (.scope id) ∨ s.scopes.size ≤ id
  tasks id := Reaches s roots (.task id) ∨ s.tasks.nextId ≤ id

section

variable {s : State} {roots : Nat → Prop}

mutual

/-- A clean value that is reached leads to what is reached. -/
theorem Value.Clean.cleanIn_reach : (v : Value) → v.Clean → Reaches s roots (.value v) →
    v.CleanIn (s.reach roots)
  | .array _ elements, h, hv => cleanAll_reach elements h fun _ hw => hv.element hw
  | .hash _ entries, h, hv => cleanEntries_reach entries h fun _ hw => hv.entry hw
  | .function _ _, _, hv => Or.inl hv.closure
  | .macroFn _ _, _, hv => Or.inl hv.macroClosure
  | .task _, _, hv => Or.inl hv.handle
  | .returned _ _, h, _ | .error _ _, h, _ => h.elim
  | .integer _, _, _ | .boolean _, _, _ | .null, _, _ | .string _ _, _, _ | .quote _ _, _, _
  | .builtin _, _, _ | .intrinsic _, _, _ => trivial

theorem cleanAll_reach : (vs : List Value) → cleanAll .all vs →
    (∀ v ∈ vs, Reaches s roots (.value v)) → cleanAll (s.reach roots) vs
  | [], _, _ => trivial
  | v :: vs, h, hvs =>
    ⟨Value.Clean.cleanIn_reach v h.1 (hvs v List.mem_cons_self),
      cleanAll_reach vs h.2 fun w hw => hvs w (List.mem_cons_of_mem _ hw)⟩

theorem cleanEntries_reach : (es : List (HashKey × Value)) → cleanEntries .all es →
    (∀ e ∈ es, Reaches s roots (.value e.2)) → cleanEntries (s.reach roots) es
  | [], _, _ => trivial
  | (key, v) :: es, h, hes =>
    ⟨Value.Clean.cleanIn_reach v h.1 (hes (key, v) List.mem_cons_self),
      cleanEntries_reach es h.2 fun e he => hes e (List.mem_cons_of_mem _ he)⟩

end

/-- **What scopes lead to is a region in which the state is clean**, together with all that is
still to be created. -/
theorem State.CleanFrom.cleanIn (h : s.CleanFrom roots) : s.CleanIn (s.reach roots) where
  registry := h.registry
  outer {id outer} hid houter := by
    rcases hid with hid | hid
    · exact Or.inl (hid.outer houter)
    · simp [Scopes.outer?, s.scopes.get?_of_size_le hid] at houter
  bound {id name v} hid hmem := by
    rcases hid with hid | hid
    · exact Value.Clean.cleanIn_reach v (h.bound hid hmem) (hid.bound hmem)
    · -- a scope that is still to be created binds nothing yet
      simp [Scopes.bindings, s.scopes.get?_of_size_le hid] at hmem
  result {id state v} hid hget hv := by
    rcases hid with hid | hid
    · have hclean := h.result hid hget hv
      cases v with
      -- a task may have failed
      | error addr message => trivial
      | _ => exact Value.Clean.cleanIn_reach _ hclean (hid.result hget hv)
    · rw [h.registry.get?_eq_none hid] at hget
      cases hget
  newScopes := Or.inr
  newTasks := Or.inr

end

end Monkey
