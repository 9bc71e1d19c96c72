import Monkey.Proofs.Comparison
import Monkey.Proofs.Renaming

/-!
# Runs up to renaming

Let one state be another one with its scopes and addresses renamed.  Whatever ends in the one ends
in the other: with the renamed value, in the renamed state, and it prints the same lines.  Both runs
do the same steps, and what they allocate on the way gets renamed numbers because both count on.

The tasks that had been registered before the runs need not be in the same state.  It is enough that
those that answer in the one state answer alike in the other, where more of them may have ended.

## Main definitions

* `State.Renamed` — states that are the same up to renaming.
* `Eval.Follows` — evaluations of which the second one ends wherever the first one does, alike.
* `Renaming.comparison` — **evaluation in a renamed state ends alike.**
-/

namespace Monkey

/-! ### Renamed states -/

section

variable (ρ : Renaming)

/-- Bindings with their values renamed. -/
def Bindings.rename (bindings : Bindings) : Bindings :=
  bindings.map (Prod.map id (Value.rename ρ))

/-- A scope with its values and the scope around it renamed. -/
def Scope.rename (scope : Scope) : Scope where
  bindings := scope.bindings.rename ρ
  outer := scope.outer.map ρ.scope

/-- A task with its result renamed. -/
def TaskState.rename : TaskState → TaskState
  | .running sent => .running (sent.map (Value.rename ρ))
  | .ended sent => .ended (sent.map (Value.rename ρ))
  | .joined result => .joined (result.rename ρ)

theorem Bindings.find?_rename (bindings : Bindings) (name : String) :
    (bindings.rename ρ).find? name = (bindings.find? name).map (Value.rename ρ) := by
  induction bindings with
  | nil => rfl
  | cons entry rest ih =>
    obtain ⟨other, stored⟩ := entry
    simp only [rename, List.map_cons, Prod.map_apply, id_eq, Bindings.find?] at ih ⊢
    split
    · rfl
    · exact ih

theorem Bindings.set_rename (bindings : Bindings) (name : String) (value : Value) :
    (bindings.set name value).rename ρ = (bindings.rename ρ).set name (value.rename ρ) := by
  induction bindings with
  | nil => rfl
  | cons entry rest ih =>
    obtain ⟨other, stored⟩ := entry
    simp only [rename, List.map_cons, Prod.map_apply, id_eq, Bindings.set] at ih ⊢
    split
    · rfl
    · rw [List.map_cons, ih]
      rfl

theorem TaskState.answer?_rename (state : TaskState) :
    (state.rename ρ).answer? = state.answer?.map (Value.rename ρ) := by
  cases state with
  | running => rfl
  | ended sent => cases sent <;> rfl
  | joined => rfl

theorem TaskState.finished_rename (state : TaskState) (result : Value) :
    (state.finished result).rename ρ = (state.rename ρ).finished (result.rename ρ) := by
  cases state with
  | running sent => cases sent <;> rfl
  | _ => rfl

theorem TaskState.closing_rename (state : TaskState) :
    state.closing.rename ρ = (state.rename ρ).closing := by
  cases state <;> rfl

theorem TaskState.asked_rename (state : TaskState) :
    state.asked.rename ρ = (state.rename ρ).asked := by
  cases state with
  | ended sent => cases sent <;> rfl
  | _ => rfl

end

/-- The second state is the first one with its scopes and addresses renamed.  The tasks registered
since the moment of the renaming correspond exactly; of the earlier ones those that answer in the
first state answer alike in the second. -/
structure State.Renamed (ρ : Renaming) (s t : State) : Prop where
  since_le : ρ.since ≤ s.extent
  scopes_eq : t.scopes.size = s.scopes.size + ρ.scopesBy
  addresses_eq : t.nextAddress = s.nextAddress + ρ.addressesBy
  registry : s.tasks.Valid
  registry' : t.tasks.Valid
  tasks_eq : t.tasks.nextId = s.tasks.nextId
  get?_scopes : ∀ id, t.scopes.get? (ρ.scope id) = (s.scopes.get? id).map (Scope.rename ρ)
  get?_tasks : ∀ id, ρ.since.tasks ≤ id →
    t.tasks.get? id = (s.tasks.get? id).map (TaskState.rename ρ)
  answer? : ∀ {id : Nat} {v : Value}, s.tasks.answer? id = some v →
    t.tasks.answer? id = some (v.rename ρ)
  callDepth_eq : t.callDepth = s.callDepth
  maxCallDepth_eq : t.maxCallDepth = s.maxCallDepth
  spawnFailure_eq : t.spawnFailure = s.spawnFailure

namespace State.Renamed

variable {ρ : Renaming} {s t : State}

theorem nextAddress (h : s.Renamed ρ t) : ρ.address s.nextAddress = t.nextAddress := by
  have hsince : ρ.since.addresses ≤ s.nextAddress := h.since_le.2.1
  rw [ρ.address_of_le hsince, h.addresses_eq]

theorem nextScope (h : s.Renamed ρ t) : ρ.scope s.scopes.size = t.scopes.size := by
  have hsince : ρ.since.scopes ≤ s.scopes.size := h.since_le.1
  rw [ρ.scope_of_le hsince, h.scopes_eq]

/-- The scopes that were created are renamed to scopes that were. -/
theorem scope_lt_iff (h : s.Renamed ρ t) {id : Nat} :
    ρ.scope id < t.scopes.size ↔ id < s.scopes.size := by
  have hsize := h.scopes_eq
  have hsince : ρ.since.scopes ≤ s.scopes.size := h.since_le.1
  unfold Renaming.scope
  split <;> omega

theorem bindings (h : s.Renamed ρ t) (id : Nat) :
    t.scopes.bindings (ρ.scope id) = (s.scopes.bindings id).rename ρ := by
  simp only [Scopes.bindings, h.get?_scopes]
  cases s.scopes.get? id <;> rfl

theorem outer? (h : s.Renamed ρ t) (id : Nat) :
    t.scopes.outer? (ρ.scope id) = (s.scopes.outer? id).map ρ.scope := by
  simp only [Scopes.outer?, h.get?_scopes]
  cases s.scopes.get? id <;> rfl

/-- **A name has the renamed value in the renamed scope.** -/
theorem find? (h : s.Renamed ρ t) (name : String) (id : Nat) :
    t.scopes.find? (ρ.scope id) name = (s.scopes.find? id name).map (Value.rename ρ) := by
  -- the scopes on the way outwards have smaller and smaller numbers
  induction id using Nat.strongRecOn with
  | _ id ih =>
    rw [Scopes.find?_eq_or, s.scopes.find?_eq_or, h.bindings, h.outer?, Bindings.find?_rename]
    cases (s.scopes.bindings id).find? name with
    | some v => rfl
    | none =>
      cases houter : s.scopes.outer? id with
      | none => rfl
      | some outer => exact ih outer (s.scopes.outer?_lt houter)

theorem fresh (h : s.Renamed ρ t) :
    State.Renamed ρ { s with nextAddress := s.nextAddress + 1 }
      { t with nextAddress := t.nextAddress + 1 } :=
  { h with
    since_le := ⟨h.since_le.1, Nat.le_succ_of_le h.since_le.2.1, h.since_le.2.2⟩
    addresses_eq := by
      have := h.addresses_eq
      dsimp only
      omega }

theorem newScope (h : s.Renamed ρ t) (outer : Nat) :
    State.Renamed ρ { s with scopes := s.scopes.add (some outer) }
      { t with scopes := t.scopes.add (some (ρ.scope outer)) } :=
  { h with
    since_le := Extent.le_trans h.since_le (s.extent_le_newScope _)
    scopes_eq := by
      simp only [Scopes.size_add, h.scopes_eq]
      omega
    get?_scopes := by
      intro id
      rcases Nat.lt_trichotomy id s.scopes.size with hlt | rfl | hgt
      · rw [Scopes.get?_add_of_lt _ _ hlt, Scopes.get?_add_of_lt _ _ (h.scope_lt_iff.2 hlt)]
        exact h.get?_scopes id
      · -- the two new scopes lie in corresponding ones, or both in none
        rw [h.nextScope, Scopes.get?_add_self, Scopes.get?_add_self]
        by_cases houter : outer < s.scopes.size
        · have houter' := h.scope_lt_iff.2 houter
          simp [Scope.rename, Bindings.rename, Option.filter, houter, houter']
        · have houter' := mt h.scope_lt_iff.1 houter
          simp [Scope.rename, Bindings.rename, Option.filter, houter, houter']
      · have hnone : (s.scopes.add (some outer)).get? id = none :=
          Scopes.get?_of_size_le _ (by rwa [Scopes.size_add])
        have hid : ¬ρ.scope id < t.scopes.size := mt h.scope_lt_iff.1 (by omega)
        have hne : ρ.scope id ≠ t.scopes.size := by
          rw [← h.nextScope, ne_eq, ρ.scope_eq_iff]
          omega
        have hnone' : (t.scopes.add (some (ρ.scope outer))).get? (ρ.scope id) = none :=
          Scopes.get?_of_size_le _ (by rw [Scopes.size_add]; omega)
        rw [hnone, hnone']
        rfl }

theorem setName (h : s.Renamed ρ t) (scope : Nat) (name : String) (v : Value) :
    State.Renamed ρ { s with scopes := s.scopes.set scope name v }
      { t with scopes := t.scopes.set (ρ.scope scope) name (v.rename ρ) } :=
  { h with
    since_le := by
      rw [State.extent_setName]
      exact h.since_le
    scopes_eq := by simp only [Scopes.size_set, h.scopes_eq]
    get?_scopes := by
      intro id
      by_cases heq : id = scope
      · subst heq
        rw [Scopes.get?_set_self, Scopes.get?_set_self, h.get?_scopes]
        cases s.scopes.get? id with
        | none => rfl
        | some found => simp [Scope.rename, Bindings.set_rename]
      · rw [Scopes.get?_set_of_ne _ _ _ heq, Scopes.get?_set_of_ne _ _ _ (by simpa using heq)]
        exact h.get?_scopes id }

theorem setCallDepth (h : s.Renamed ρ t) (depth : Nat) :
    State.Renamed ρ { s with callDepth := depth } { t with callDepth := depth } :=
  { h with callDepth_eq := rfl }

theorem printLines (h : s.Renamed ρ t) (lines : List String) :
    State.Renamed ρ { s with output := s.output.printLines lines }
      { t with output := t.output.printLines lines } :=
  { h with }

/-! Tasks -/

theorem registerTask (h : s.Renamed ρ t) :
    State.Renamed ρ { s with tasks := s.tasks.register.2 }
      { t with tasks := t.tasks.register.2 } :=
  { h with
    since_le := Extent.le_trans h.since_le s.extent_le_register
    registry := h.registry.register
    registry' := h.registry'.register
    tasks_eq := by simp only [Tasks.nextId_register, h.tasks_eq]
    get?_tasks := by
      intro id hid
      rw [Tasks.get?_register, Tasks.get?_register, h.tasks_eq]
      split
      · rfl
      · exact h.get?_tasks id hid
    answer? := by
      intro id v hv
      rw [Tasks.answer?_register h.registry] at hv
      rw [Tasks.answer?_register h.registry']
      exact h.answer? hv }

/-- Corresponding changes of one task each. -/
theorem get?_tasks_of_map (h : s.Renamed ρ t) {f g : TaskState → TaskState} {tasks tasks' : Tasks}
    {id : Nat} (hfg : ∀ state, (f state).rename ρ = g (state.rename ρ))
    (htasks : s.tasks.Changes id f tasks) (htasks' : t.tasks.Changes id g tasks') {other : Nat}
    (hother : ρ.since.tasks ≤ other) :
    tasks'.get? other = (tasks.get? other).map (TaskState.rename ρ) := by
  -- the task that was changed in both, or another one
  by_cases heq : other = id
  · subst heq
    rw [htasks.self, htasks'.self, h.get?_tasks other hother]
    cases s.tasks.get? other with
    | none => rfl
    | some state => simp [hfg]
  · rw [htasks.of_ne heq, htasks'.of_ne heq]
    exact h.get?_tasks other hother

/-- A task that corresponds to another one answers alike. -/
theorem answer?_of_get? {tasks tasks' : Tasks} {id : Nat} {v : Value}
    (h : tasks'.get? id = (tasks.get? id).map (TaskState.rename ρ))
    (hv : tasks.answer? id = some v) : tasks'.answer? id = some (v.rename ρ) := by
  rw [Tasks.answer?, Option.bind_eq_some_iff] at hv
  obtain ⟨state, hget, hanswer⟩ := hv
  rw [Tasks.answer?, h, hget, Option.map_some, Option.bind_some, TaskState.answer?_rename, hanswer]
  rfl

/-- Corresponding changes of a task that is registered since the moment of the renaming. -/
theorem changeTask (h : s.Renamed ρ t) {id : Nat} (hid : ρ.since.tasks ≤ id)
    {f g : TaskState → TaskState} {tasks tasks' : Tasks}
    (hfg : ∀ state, (f state).rename ρ = g (state.rename ρ))
    (hvalid : tasks.Valid) (hvalid' : tasks'.Valid)
    (hnext : tasks.nextId = s.tasks.nextId) (hnext' : tasks'.nextId = t.tasks.nextId)
    (htasks : s.tasks.Changes id f tasks) (htasks' : t.tasks.Changes id g tasks') :
    State.Renamed ρ { s with tasks := tasks } { t with tasks := tasks' } := by
  have hget : ∀ other, ρ.since.tasks ≤ other → _ := fun other =>
    h.get?_tasks_of_map hfg htasks htasks'
  exact { h with
    since_le := ⟨h.since_le.1, h.since_le.2.1, by
      simp only [State.extent, hnext]
      exact h.since_le.2.2⟩
    registry := hvalid
    registry' := hvalid'
    tasks_eq := by simp only [hnext, hnext', h.tasks_eq]
    get?_tasks := hget
    answer? := by
      intro other v hv
      by_cases heq : other = id
      · exact answer?_of_get? (hget other (heq ▸ hid)) hv
      · -- another task is as it was
        rw [Tasks.answer?, htasks.of_ne heq] at hv
        rw [Tasks.answer?, htasks'.of_ne heq]
        exact h.answer? hv }

theorem finishTask (h : s.Renamed ρ t) {id : Nat} (hid : ρ.since.tasks ≤ id) (result : Value) :
    State.Renamed ρ { s with tasks := ((s.tasks.send id result).2.close id).2 }
      { t with tasks := ((t.tasks.send id (result.rename ρ)).2.close id).2 } :=
  h.changeTask hid (fun state => state.finished_rename ρ result) (h.registry.finish id result)
    (h.registry'.finish id _) (s.tasks.nextId_finish id result) (t.tasks.nextId_finish id _)
    (s.tasks.changes_finish id result) (t.tasks.changes_finish id (result.rename ρ))

theorem closeTask (h : s.Renamed ρ t) {id : Nat} (hid : ρ.since.tasks ≤ id) :
    State.Renamed ρ { s with tasks := (s.tasks.close id).2 }
      { t with tasks := (t.tasks.close id).2 } :=
  h.changeTask hid (TaskState.closing_rename ρ) (h.registry.close id) (h.registry'.close id)
    (s.tasks.nextId_close id) (t.tasks.nextId_close id) (s.tasks.changes_close id)
    (t.tasks.changes_close id)

theorem joinTask (h : s.Renamed ρ t) (id : Nat) :
    State.Renamed ρ { s with tasks := (s.tasks.join id).2 }
      { t with tasks := (t.tasks.join id).2 } :=
  { h with
    since_le := ⟨h.since_le.1, h.since_le.2.1, by
      simp only [State.extent, Tasks.nextId_join]
      exact h.since_le.2.2⟩
    registry := h.registry.join id
    registry' := h.registry'.join id
    tasks_eq := by simp only [Tasks.nextId_join, h.tasks_eq]
    get?_tasks := fun _ => h.get?_tasks_of_map (TaskState.asked_rename ρ)
      (s.tasks.changes_join id) (t.tasks.changes_join id)
    answer? := by
      intro other v hv
      rw [Tasks.answer?_join] at hv ⊢
      exact h.answer? hv }

end State.Renamed

/-! ### Evaluations that end alike -/

namespace Eval

variable {α β γ δ : Type} {ρ : Renaming}

/-- Wherever `x` ends in a state, `y` ends in the renamed state: with what `Q` relates to the result
of `x`, in the renamed state, and after printing the same lines. -/
def Follows (ρ : Renaming) (Q : α → β → Prop) (x : Eval α) (y : Eval β) : Prop :=
  ∀ s t a s', s.Renamed ρ t → x s = some (a, s') →
    ∃ b t' lines, y t = some (b, t') ∧ Q a b ∧ s'.Renamed ρ t' ∧
      s'.output = s.output.printLines lines ∧ t'.output = t.output.printLines lines

namespace Follows

variable {Q : α → β → Prop} {Q' : γ → δ → Prop} {x : Eval α} {y : Eval β} {k : α → Eval γ}
  {l : β → Eval δ}

theorem pure {a : α} {b : β} (h : Q a b) : Follows ρ Q (pure a) (pure b) := by
  intro s t a' s' hst hrun
  cases hrun
  exact ⟨b, t, [], rfl, h, hst, rfl, rfl⟩

theorem stuck : Follows ρ Q Eval.stuck y := by
  intro s t a s' _ hrun
  cases hrun

theorem bind (hx : Follows ρ Q x y) (hk : ∀ a b, Q a b → Follows ρ Q' (k a) (l b)) :
    Follows ρ Q' (x >>= k) (y >>= l) := by
  intro s t c s' hst hrun
  obtain ⟨a, u, hxs, hku⟩ := bind_eq_some_iff.1 hrun
  obtain ⟨b, u', lines, hyt, hab, huu', hout, hout'⟩ := hx s t a u hst hxs
  obtain ⟨d, t', more, hlu', hcd, hst', hmore, hmore'⟩ := hk a b hab u u' c s' huu' hku
  refine ⟨d, t', lines ++ more, bind_eq_some_iff.2 ⟨b, u', hyt, hlu'⟩, hcd, hst', ?_, ?_⟩
  · rw [Output.printLines_append, ← hout, hmore]
  · rw [Output.printLines_append, ← hout', hmore']

/-- A step that always ends and prints nothing. -/
theorem of_step {step : State → α × State} {step' : State → β × State}
    (hresult : ∀ s t, s.Renamed ρ t → Q (step s).1 (step' t).1)
    (hstate : ∀ s t, s.Renamed ρ t → (step s).2.Renamed ρ (step' t).2)
    (houtput : ∀ s, (step s).2.output = s.output) (houtput' : ∀ t, (step' t).2.output = t.output) :
    Follows ρ Q (fun s => some (step s)) (fun t => some (step' t)) := by
  intro s t a s' hst hrun
  rw [Option.some.injEq, Prod.ext_iff] at hrun
  obtain ⟨rfl, rfl⟩ := hrun
  exact ⟨_, _, [], rfl, hresult s t hst, hstate s t hst, houtput s, houtput' t⟩

theorem fresh : Follows ρ ρ.matching.addresses fresh fresh :=
  of_step (fun _ _ h => h.nextAddress.symm) (fun _ _ h => h.fresh) (fun _ => rfl) fun _ => rfl

theorem raise (e : EvalError) :
    Follows ρ (Value.Matches ρ.matching) (Machine.raise e) (Machine.raise e) :=
  bind fresh fun _ _ haddr => pure (e.toValue_matches haddr)

theorem newScope {a b : Nat} (hab : ρ.matching.scopes a b) :
    Follows ρ ρ.matching.scopes (newScope (some a)) (newScope (some b)) := by
  cases hab
  exact of_step (fun _ _ h => h.nextScope.symm) (fun _ _ h => h.newScope a) (fun _ => rfl)
    fun _ => rfl

theorem setName {a b : Nat} {v w : Value} (name : String) (hab : ρ.matching.scopes a b)
    (hvw : Value.Matches ρ.matching v w) :
    Follows ρ (fun _ _ => True) (setName a name v) (setName b name w) := by
  cases hab
  cases hvw.eq_rename
  exact of_step (fun _ _ _ => trivial) (fun _ _ h => h.setName a name v) (fun _ => rfl)
    fun _ => rfl

theorem findName {a b : Nat} (name : String) (hab : ρ.matching.scopes a b) :
    Follows ρ (Option.Rel (Value.Matches ρ.matching)) (findName a name) (findName b name) := by
  cases hab
  refine of_step (fun s t h => ?_) (fun _ _ h => h) (fun _ => rfl) fun _ => rfl
  rw [h.find? name a]
  cases s.scopes.find? a name with
  | none => exact .none
  | some v => exact .some v.matches_rename

theorem printLines (lines : List String) :
    Follows ρ (fun _ _ => True) (printLines lines) (printLines lines) := by
  intro s t _ s' hst hrun
  cases hrun
  exact ⟨(), _, lines, rfl, trivial, hst.printLines lines, rfl, rfl⟩

theorem onOwnCount (hxy : Follows ρ Q x y) : Follows ρ Q (onOwnCount x) (onOwnCount y) := by
  intro s t a s' hst hrun
  obtain ⟨u, hbody, rfl⟩ := onOwnCount_eq_some_iff.1 hrun
  obtain ⟨b, u', lines, hbody', hab, huu', hlines⟩ := hxy _ _ a u (hst.setCallDepth 0) hbody
  refine ⟨b, _, lines, onOwnCount_eq_some_iff.2 ⟨u', hbody', rfl⟩, hab, ?_, hlines⟩
  rw [hst.callDepth_eq]
  exact huu'.setCallDepth s.callDepth

/-- A join gives the renamed result, or tells both that there is no such task. -/
theorem joinTask (id : Nat) :
    Follows ρ (fun found found' => found' = found.map (Value.rename ρ)) (joinTask id)
      (joinTask id) := by
  intro s t found s' hst hrun
  obtain ⟨hreply, rfl⟩ := joinTask_eq_some_iff.1 hrun
  refine ⟨found.map (Value.rename ρ), _, [], joinTask_eq_some_iff.2 ⟨?_, rfl⟩, rfl,
    hst.joinTask id, rfl, rfl⟩
  cases found with
  | some v =>
    exact Tasks.join_eq_result_iff.2 (hst.answer? (Tasks.join_eq_result_iff.1 hreply))
  | none =>
    -- the tasks of both registries have the same numbers
    have hnone := Tasks.join_eq_unknown_iff.1 hreply
    refine Tasks.join_eq_unknown_iff.2 (hst.registry'.get?_eq_none ?_)
    rw [hst.tasks_eq]
    refine Nat.le_of_not_lt fun hlt => ?_
    have hsome := (hst.registry.isSome_get?_iff id).2 hlt
    rw [hnone] at hsome
    cases hsome

/-- A task that is started in both runs has the same number in both and is a new one. -/
theorem start {x y : Eval Value} (hxy : Follows ρ (Value.Matches ρ.matching) x y) :
    Follows ρ (Value.Matches ρ.matching) (Machine.start x) (Machine.start y) := by
  rw [start_eq, start_eq]
  have hregister : Follows ρ (fun i j => ρ.since.tasks ≤ i ∧ i = j) registerTask registerTask :=
    of_step (fun _ _ h => ⟨h.since_le.2.2, h.tasks_eq.symm⟩) (fun _ _ h => h.registerTask)
      (fun _ => rfl) fun _ => rfl
  have haskHost : ∀ id : Nat, Follows ρ Eq (askHost id) (askHost id) := fun id =>
    of_step (fun _ _ h => congrFun h.spawnFailure_eq.symm id) (fun _ _ h => h) (fun _ => rfl)
      fun _ => rfl
  -- both tasks get one number, and the host does the same with both
  refine bind hregister fun i j hij => ?_
  obtain ⟨hid, rfl⟩ := hij
  refine bind (haskHost i) fun refusal _ hrefusal => ?_
  cases hrefusal
  cases refusal with
  | some reason =>
    exact bind (of_step (fun _ _ _ => trivial) (fun _ _ h => h.closeTask hid) (fun _ => rfl)
      fun _ => rfl) fun _ _ (_ : True) => raise _
  | none =>
    refine bind hxy.onOwnCount fun v w hvw => ?_
    rw [hvw.unwrapReturn.eq_rename]
    exact bind (of_step (fun _ _ _ => trivial) (fun _ _ h => h.finishTask hid _) (fun _ => rfl)
      fun _ => rfl) fun _ _ (_ : True) => pure (.task rfl)

/-- Both runs count one call more while the body of a function runs. -/
theorem inCall {c d : Closure} (hxy : Follows ρ Q x y) :
    Follows ρ Q (Machine.inCall c x) (Machine.inCall d y) := by
  have hcount : ∀ {f : Nat → Nat}, Follows ρ (fun _ _ => True)
      (fun s => some ((), { s with callDepth := f s.callDepth }))
      (fun s => some ((), { s with callDepth := f s.callDepth })) := fun {f} => by
    refine of_step (fun _ _ _ => trivial) (fun s t h => ?_) (fun _ => rfl) fun _ => rfl
    rw [h.callDepth_eq]
    exact h.setCallDepth _
  exact bind (hcount (f := (· + 1))) fun _ _ _ => bind hxy fun _ _ hab =>
    bind (hcount (f := (· - 1))) fun _ _ _ => pure hab

end Follows

end Eval

/-- Running in a renamed state corresponds to running in the first one. -/
def Renaming.correspondence (ρ : Renaming) : Correspondence Unit Eval Eval where
  matching _ := ρ.matching
  Owns _ := ρ.matching.scopes
  matching_mono _ := le_refl _
  owns_mono _ := id
  scopes_of_owns := id
  Runs _ Q := Eval.Follows ρ (Q ())
  pure := .pure
  bind hx hk := .bind hx fun a b => hk () a b (le_refl _)
  noted _ := id
  giving := id
  stuck := .stuck
  fresh := .fresh
  newScope := .newScope
  setName := .setName
  find _ := .findName _
  printed f hvs := by
    rw [allMatch_eq_rename hvs, renameAll_eq_map, f.printed_rename]
    exact .printLines _
  await {_ a _} hab := by
    cases hab
    refine .bind (.joinTask a) fun found _ hfound => ?_
    cases hfound
    cases found with
    | some v => exact .pure v.matches_rename
    | none => exact .raise _

open Correspondence in
/-- **Evaluation in a renamed state ends alike**: with the renamed value, in the renamed state, and
after printing the same lines. -/
def Renaming.comparison (ρ : Renaming) : Comparison Unit Eval Eval where
  toCorrespondence := ρ.correspondence
  call hcd hvs hxy hkl := by
    refine call_of_steps (fun {_ c d vs ws} hcd hvs => ?_) (fun _ => Eval.Follows.inCall) hcd hvs
      (fun _ _ => hxy) hkl
    have hargs : c.params.length = d.params.length ∧ vs.length = ws.length :=
      ⟨congrArg _ hcd.params_eq, hvs.length_eq⟩
    refine Eval.Follows.of_step (fun s t h => ?_) (fun _ _ h => h) (fun _ => rfl) fun _ => rfl
    simp only [sameResult, Closure.refusal?, hargs, h.callDepth_eq, h.maxCallDepth_eq]
  start h := .start (h () (le_refl _))

end Monkey
