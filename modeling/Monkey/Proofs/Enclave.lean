import Monkey.Proofs.Clean
import Monkey.Proofs.Handles

/-!
# Enclaves

An enclave is made of scopes and tasks.  A state is sealed in it if nothing in the enclave leads
out of it: no scope lies in one outside, and no value in it holds a function, a macro or a handle
from outside.  Scopes and tasks that are still to be created belong to the enclave.  An enclave may
be one without macros.

Two enclaves may divide a state between them, so that they share nothing that is there.  A step that
stays in the one creates nothing that belongs to the other.

## Main definitions

* `Enclave`, `Value.LiesIn`, `State.Sealed` — enclaves, and values and states that do not lead out.
* `State.SameOutside` — states that are the same outside of an enclave.
* `State.Divided` — states that two enclaves divide between them.
* `Scopes.Inside` — scopes that lie inside a given one.

## Main results

* `State.Sealed.of_reaches` — **whatever is reached from an enclave lies in it.**
* `State.Divided.later` — **a state stays divided**, when something happens in one of the enclaves.
* `State.Divided.of_inside` — scopes inside one of an enclave belong to it.
-/

namespace Monkey

/-- A set of scopes and a set of tasks, in which macros may or may not turn up. -/
structure Enclave where
  scopes : Nat → Prop
  tasks : Nat → Prop
  macros : Prop

/-- What is to be called, or waited for, leads to a scope or a task of the enclave. -/
def Value.LeadsInto (r : Enclave) : Value → Prop
  | .function _ c => r.scopes c.scope
  | .macroFn _ c => r.macros ∧ r.scopes c.scope
  | .task id => r.tasks id
  | _ => True

/-- Whatever the value holds leads into the enclave. -/
def Value.LiesIn (r : Enclave) (v : Value) : Prop := v.All (Value.LeadsInto r)

section

variable {r : Enclave} {v : Value}

namespace Value

/-- Data leads nowhere. -/
theorem leadsInto_of_isData (v : Value) (h : v.isData = true) : v.LeadsInto r := by
  cases v with
  | function | macroFn | task => cases h
  | _ => trivial

theorem LiesIn.of_isScalar (h : v.isScalar = true) : v.LiesIn r :=
  all_of_isScalar leadsInto_of_isData h

/-- A value with nothing inside lies in the enclave, if it leads there. -/
theorem liesIn_of_isLeaf (hleaf : v.isLeaf = true) (h : v.LeadsInto r) : v.LiesIn r :=
  (all_iff_of_isLeaf hleaf).2 h

theorem liesIn_array_iff {addr : Nat} {elements : List Value} :
    (array addr elements).LiesIn r ↔ ∀ v ∈ elements, v.LiesIn r :=
  all_array_iff leadsInto_of_isData

theorem liesIn_hash_iff {addr : Nat} {entries : List (HashKey × Value)} :
    (hash addr entries).LiesIn r ↔ ∀ e ∈ entries, e.2.LiesIn r :=
  all_hash_iff leadsInto_of_isData

theorem liesIn_returned_iff {addr : Nat} : (returned addr v).LiesIn r ↔ v.LiesIn r :=
  all_returned_iff leadsInto_of_isData

theorem LiesIn.unwrapReturn (h : v.LiesIn r) : v.unwrapReturn.LiesIn r :=
  All.unwrapReturn h

end Value

end

/-! ### Sealed states -/

/-- Nothing in the enclave leads out of it. -/
structure State.Sealed (r : Enclave) (s : State) : Prop where
  outer : ∀ {id outer : Nat}, r.scopes id → s.scopes.outer? id = some outer → r.scopes outer
  bound : ∀ {id : Nat} {name : String} {v : Value}, r.scopes id →
    (name, v) ∈ s.scopes.bindings id → v.LiesIn r
  result : ∀ {id : Nat} {state : TaskState} {v : Value}, r.tasks id →
    s.tasks.get? id = some state → state.value? = some v → v.LiesIn r
  /-- The scopes that are still to be created belong to the enclave. -/
  newScopes : ∀ {id : Nat}, s.scopes.size ≤ id → r.scopes id
  /-- The tasks that are still to be started belong to the enclave. -/
  newTasks : ∀ {id : Nat}, s.tasks.nextId ≤ id → r.tasks id

/-- The scopes and the tasks outside of the enclave are the same in both states. -/
structure State.SameOutside (r : Enclave) (s t : State) : Prop where
  scopes_eq : ∀ {id : Nat}, ¬r.scopes id → t.scopes.get? id = s.scopes.get? id
  tasks_eq : ∀ {id : Nat}, ¬r.tasks id → t.tasks.get? id = s.tasks.get? id

namespace State

variable {r : Enclave} {s t u : State}

theorem SameOutside.refl (r : Enclave) (s : State) : s.SameOutside r s :=
  ⟨fun _ => rfl, fun _ => rfl⟩

theorem SameOutside.trans (hst : s.SameOutside r t) (htu : t.SameOutside r u) :
    s.SameOutside r u :=
  ⟨fun hid => (htu.scopes_eq hid).trans (hst.scopes_eq hid),
    fun hid => (htu.tasks_eq hid).trans (hst.tasks_eq hid)⟩

namespace Sealed

/-- A name that is looked up from a scope of the enclave has a value that lies in it. -/
theorem find? (h : s.Sealed r) {name : String} {v : Value} {id : Nat} (hid : r.scopes id)
    (hfind : s.scopes.find? id name = some v) : v.LiesIn r := by
  obtain ⟨other, hother, hmem⟩ := Scopes.exists_mem_bindings_of_find? h.outer hid hfind
  exact h.bound hother hmem

/-- What a task of the enclave answers lies in it. -/
theorem answer? (h : s.Sealed r) {id : Nat} (hid : r.tasks id) {v : Value}
    (hv : s.tasks.answer? id = some v) : v.LiesIn r := by
  obtain ⟨state, hget, hanswer⟩ := Option.bind_eq_some_iff.1 hv
  cases state with
  | running sent => cases hanswer
  | ended sent =>
    cases hanswer
    cases sent with
    | none => exact .of_isScalar rfl
    | some w => exact h.result hid hget rfl
  | joined w =>
    cases hanswer
    exact h.result hid hget rfl

/-- Only the scopes and the tasks of a state count. -/
theorem congr (h : s.Sealed r) (hscopes : t.scopes = s.scopes) (htasks : t.tasks = s.tasks) :
    t.Sealed r where
  outer hid ho := h.outer hid (hscopes ▸ ho)
  bound hid hmem := h.bound hid (hscopes ▸ hmem)
  result hid hget := h.result hid (htasks ▸ hget)
  newScopes hid := h.newScopes (hscopes ▸ hid)
  newTasks hid := h.newTasks (htasks ▸ hid)

theorem newScope (h : s.Sealed r) {outer : Nat} (houter : r.scopes outer) :
    State.Sealed r { s with scopes := s.scopes.add (some outer) } where
  outer {id o} hid ho := by
    rcases Scopes.outer?_of_add ho with ho | ⟨-, hlast⟩
    · exact h.outer hid ho
    · cases hlast
      exact houter
  bound hid hmem := h.bound hid (Scopes.mem_bindings_of_add hmem)
  result := h.result
  newScopes hid := by
    rw [Scopes.size_add] at hid
    exact h.newScopes (Nat.le_of_succ_le hid)
  newTasks := h.newTasks

theorem setName (h : s.Sealed r) {v : Value} (hv : v.LiesIn r) (scope : Nat) (name : String) :
    State.Sealed r { s with scopes := s.scopes.set scope name v } where
  outer hid ho := by
    rw [Scopes.outer?_set] at ho
    exact h.outer hid ho
  bound hid hmem := by
    rcases Scopes.mem_bindings_of_set hmem with rfl | hmem
    · exact hv
    · exact h.bound hid hmem
  result := h.result
  newScopes hid := by
    rw [Scopes.size_set] at hid
    exact h.newScopes hid
  newTasks := h.newTasks

theorem registerTask (h : s.Sealed r) :
    State.Sealed r { s with tasks := s.tasks.register.2 } where
  outer := h.outer
  bound := h.bound
  result {id state v} hid hget hv := by
    rcases Tasks.get?_of_register hget with rfl | hget
    · -- a task that was just registered has sent nothing
      cases hv
    · exact h.result hid hget hv
  newScopes := h.newScopes
  newTasks hid := by
    rw [Tasks.nextId_register] at hid
    exact h.newTasks (Nat.le_of_succ_le hid)

/-- One task is changed, and whatever its result is then lies in the enclave. -/
theorem changeTask (h : s.Sealed r) {id : Nat} {f : TaskState → TaskState} {tasks : Tasks}
    (hsize : tasks.nextId = s.tasks.nextId) (htasks : s.tasks.Changes id f tasks)
    (hresult : ∀ {state : TaskState} {v : Value}, s.tasks.get? id = some state →
      (f state).value? = some v → v.LiesIn r) :
    State.Sealed r { s with tasks := tasks } where
  outer := h.outer
  bound := h.bound
  result hother hstate hv := by
    rcases htasks.get?_eq_some hstate with ⟨old, -, hold, rfl⟩ | hstate
    · exact hresult hold hv
    · exact h.result hother hstate hv
  newScopes := h.newScopes
  newTasks hother := h.newTasks (hsize ▸ hother)

theorem sendResult (h : s.Sealed r) {id : Nat} (hid : r.tasks id) {result : Value}
    (hresult : result.LiesIn r) :
    State.Sealed r { s with tasks := (s.tasks.send id result).2 } := by
  refine h.changeTask (Tasks.nextId_send ..) (s.tasks.changes_send id result) ?_
  intro state v hget hv
  rcases TaskState.value?_sending hv with rfl | hv
  · exact hresult
  · exact h.result hid hget hv

theorem closeTask (h : s.Sealed r) {id : Nat} (hid : r.tasks id) :
    State.Sealed r { s with tasks := (s.tasks.close id).2 } := by
  refine h.changeTask (Tasks.nextId_close ..) (s.tasks.changes_close id) ?_
  intro state v hget hv
  rw [TaskState.value?_closing] at hv
  exact h.result hid hget hv

theorem finishTask (h : s.Sealed r) {id : Nat} (hid : r.tasks id) {result : Value}
    (hresult : result.LiesIn r) :
    State.Sealed r { s with tasks := ((s.tasks.send id result).2.close id).2 } :=
  (h.sendResult hid hresult).closeTask hid

theorem joinTask (h : s.Sealed r) {id : Nat} (hid : r.tasks id) :
    State.Sealed r { s with tasks := (s.tasks.join id).2 } := by
  refine h.changeTask (Tasks.nextId_join ..) (s.tasks.changes_join id) ?_
  intro state v hget hv
  rcases TaskState.value?_asked hv with rfl | hv
  · exact .of_isScalar rfl
  · exact h.result hid hget hv

end Sealed

/-! What a step changes lies in the enclave. -/

theorem SameOutside.newScope (h : s.Sealed r) (outer : Option Nat) :
    s.SameOutside r { s with scopes := s.scopes.add outer } := by
  refine ⟨fun {id} hid => s.scopes.get?_add_of_lt outer ?_, fun _ => rfl⟩
  exact Nat.lt_of_not_le fun hle => hid (h.newScopes hle)

theorem SameOutside.setName {scope : Nat} (hscope : r.scopes scope) (s : State) (name : String)
    (v : Value) : s.SameOutside r { s with scopes := s.scopes.set scope name v } := by
  refine ⟨fun {id} hid => s.scopes.get?_set_of_ne name v ?_, fun _ => rfl⟩
  rintro rfl
  exact hid hscope

theorem SameOutside.registerTask (h : s.Sealed r) :
    s.SameOutside r { s with tasks := s.tasks.register.2 } := by
  refine ⟨fun _ => rfl, fun {id} hid => s.tasks.get?_register_of_ne ?_⟩
  rintro rfl
  exact hid (h.newTasks (Nat.le_refl _))

theorem SameOutside.changeTask {id : Nat} (hid : r.tasks id) {f : TaskState → TaskState}
    {tasks : Tasks} (htasks : s.tasks.Changes id f tasks) :
    s.SameOutside r { s with tasks := tasks } := by
  refine ⟨fun _ => rfl, fun {other} hother => ?_⟩
  have hne : other ≠ id := by
    rintro rfl
    exact hother hid
  exact htasks.of_ne hne

end State

/-! ### What is reached -/

/-- A scope or a task belongs to the enclave; a value lies in it. -/
def Item.BelongsTo (r : Enclave) : Item → Prop
  | .scope id => r.scopes id
  | .task id => r.tasks id
  | .value v => v.LiesIn r

/-- **Whatever is reached from an enclave lies in it.** -/
theorem State.Sealed.of_reaches {r : Enclave} {s : State} (h : s.Sealed r) {roots : Nat → Prop}
    (hroots : ∀ id, roots id → r.scopes id) {item : Item} (hitem : Reaches s roots item) :
    item.BelongsTo r := by
  induction hitem with
  | root hid => exact hroots _ hid
  | outer _ ho ih => exact h.outer ih ho
  | bound _ hmem ih => exact h.bound ih hmem
  | element _ hv ih => exact Value.liesIn_array_iff.1 ih _ hv
  | entry _ hv ih => exact Value.liesIn_hash_iff.1 ih _ hv
  | closure _ ih => exact ih _ .self
  | macroClosure _ ih => exact (ih _ .self).2
  | handle _ ih => exact ih _ .self
  | result _ hget hv ih => exact h.result ih hget hv

/-- The scopes from which one comes outwards to a given one, which is one of them. -/
inductive Scopes.Inside (s : Scopes) (around : Nat) : Nat → Prop
  | self : Inside s around around
  | outward {id outer : Nat} : s.outer? id = some outer → Inside s around outer →
    Inside s around id

theorem State.Sealed.of_inside {r : Enclave} {s : State} (h : s.Sealed r) {around id : Nat}
    (hid : s.scopes.Inside around id) (hr : r.scopes id) : r.scopes around := by
  induction hid with
  | self => exact hr
  | outward ho _ ih => exact ih (h.outer hr ho)

/-! ### Two enclaves -/

/-- The enclave without what was created on the way from one state to another. -/
def Enclave.without (r : Enclave) (s t : State) : Enclave where
  scopes id := r.scopes id ∧ (id < s.scopes.size ∨ t.scopes.size ≤ id)
  tasks id := r.tasks id ∧ (id < s.tasks.nextId ∨ t.tasks.nextId ≤ id)
  macros := r.macros

/-- A value that mentions only what was there does not lead to what was created later. -/
theorem Value.LiesIn.without {r : Enclave} {v : Value} {s : State} (h : v.LiesIn r)
    (hwithin : v.Within s.extent) (hhandles : v.HandlesIn (· < s.tasks.nextId)) (t : State) :
    v.LiesIn (r.without s t) := by
  intro w hw
  have hleads := h w hw
  have hgiven := hwithin.of_holds hw
  cases w with
  | function addr c => exact ⟨hleads, Or.inl hgiven.2⟩
  | macroFn addr c => exact ⟨hleads.1, hleads.2, Or.inl hgiven.2⟩
  | task id => exact ⟨hleads, Or.inl (hhandles _ hw)⟩
  | _ => trivial

/-- The two enclaves divide the state between them: nothing in one of them leads into the other, and
every scope belongs to one of them. -/
structure State.Divided (p q : Enclave) (s : State) : Prop where
  left : s.Sealed p
  right : s.Sealed q
  cover : ∀ id, p.scopes id ∨ q.scopes id
  /-- What belongs to both of them is still to be created. -/
  size_le_of_scopes : ∀ {id : Nat}, p.scopes id → q.scopes id → s.scopes.size ≤ id
  size_le_of_tasks : ∀ {id : Nat}, p.tasks id → q.tasks id → s.tasks.nextId ≤ id

namespace State

variable {p q : Enclave} {s t : State}

theorem Divided.symm (h : s.Divided p q) : s.Divided q p where
  left := h.right
  right := h.left
  cover id := (h.cover id).symm
  size_le_of_scopes hq hp := h.size_le_of_scopes hp hq
  size_le_of_tasks hq hp := h.size_le_of_tasks hp hq

/-- What lies inside a scope of one enclave belongs to that enclave. -/
theorem Divided.of_inside (h : s.Divided p q) {around id : Nat} (haround : p.scopes around)
    (hlt : around < s.scopes.size) (hid : s.scopes.Inside around id) : p.scopes id := by
  refine (h.cover id).resolve_right fun hq => ?_
  -- the other enclave does not come to this scope either
  exact Nat.not_le_of_lt hlt (h.size_le_of_scopes haround (h.right.of_inside hid hq))

/-- An enclave of which nothing that was there is changed leads to nothing that is created. -/
theorem Sealed.without (h : s.Sealed q) (hs : s.Allocated) (hhandles : s.Registered)
    (hvalid : t.tasks.Valid) (hle : s.extent ≤ t.extent)
    (hscopes : ∀ {id : Nat}, q.scopes id → id < s.scopes.size →
      t.scopes.get? id = s.scopes.get? id)
    (htasks : ∀ {id : Nat}, q.tasks id → id < s.tasks.nextId → t.tasks.get? id = s.tasks.get? id) :
    t.Sealed (q.without s t) where
  outer {id outer} hid ho := by
    obtain ⟨scope, hget, -⟩ := Option.bind_eq_some_iff.1 ho
    have hlt := hid.2.resolve_right (Nat.not_le_of_lt (Scopes.lt_size_of_get? hget))
    rw [Scopes.outer?, hscopes hid.1 hlt] at ho
    -- a scope is created after the one around it
    exact ⟨h.outer hid.1 ho, Or.inl (Nat.lt_trans (s.scopes.outer?_lt ho) hlt)⟩
  bound {id name v} hid hmem := by
    cases hget : t.scopes.get? id with
    | none =>
      rw [Scopes.bindings, hget] at hmem
      cases hmem
    | some scope =>
      have hlt := hid.2.resolve_right (Nat.not_le_of_lt (Scopes.lt_size_of_get? hget))
      rw [Scopes.bindings, hscopes hid.1 hlt] at hmem
      exact (h.bound hid.1 hmem).without (hs.bound hmem) (hhandles.bound hmem) t
  result {id state v} hid hget hv := by
    have hlt := hid.2.resolve_right (Nat.not_le_of_lt (hvalid.lt_nextId hget))
    rw [htasks hid.1 hlt] at hget
    exact (h.result hid.1 hget hv).without (hs.result hget hv) (hhandles.result hget hv) t
  newScopes hid := ⟨h.newScopes (Nat.le_trans hle.1 hid), Or.inr hid⟩
  newTasks hid := ⟨h.newTasks (Nat.le_trans hle.2.2 hid), Or.inr hid⟩

/-- **A state stays divided**, when something happens in one of the enclaves.  What was created then
does not belong to the other one any more. -/
theorem Divided.later (h : s.Divided p q) (hs : s.Allocated) (hhandles : s.Registered)
    (hvalid : t.tasks.Valid) (hle : s.extent ≤ t.extent) (ht : t.Sealed p)
    (hsame : s.SameOutside p t) :
    t.Divided p (q.without s t) where
  left := ht
  right := by
    refine h.right.without hs hhandles hvalid hle (fun hq hlt => hsame.scopes_eq fun hp => ?_)
      fun hq hlt => hsame.tasks_eq fun hp => ?_
    · exact Nat.not_le_of_lt hlt (h.size_le_of_scopes hp hq)
    · exact Nat.not_le_of_lt hlt (h.size_le_of_tasks hp hq)
  cover id := by
    -- what was there before is covered as before, and what is new lies on the left
    by_cases hid : id < s.scopes.size
    · exact (h.cover id).imp_right fun hq => ⟨hq, Or.inl hid⟩
    · exact Or.inl (h.left.newScopes (Nat.le_of_not_lt hid))
  size_le_of_scopes hp hq := hq.2.resolve_left (Nat.not_lt_of_le (h.size_le_of_scopes hp hq.1))
  size_le_of_tasks hp hq := hq.2.resolve_left (Nat.not_lt_of_le (h.size_le_of_tasks hp hq.1))

end State

end Monkey
