import Monkey.Value

/-!
# Tasks

The registry of the tasks that were started.  It is a table of entries by number, and a counter from
which the numbers are given out.  A task has room for one result, which it may send while its sender
is open.  Once the sender is closed the task can be joined, and every join gives the same value.

Whoever asks for a task looks its number up, which gives nothing for an entry that is marked as
dead.  The sender of a task needs no number to be looked up: it belongs to the entry.

## Main definitions

* `TaskState`, `TaskEntry` — what is known of a task, and its entry.
* `Tasks` — the registry.
* `Tasks.register`, `Tasks.send`, `Tasks.close`, `Tasks.join` — the life of a task.
* `Tasks.Changes` — registries that differ in one task.
* `Tasks.Valid` — registries as they come about.

## Main results

* `Tasks.Valid.register`, `Tasks.Valid.send`, `Tasks.Valid.close`, `Tasks.Valid.join` — **the
  numbers of the tasks are those that were given out**, and no entry dies.
-/

namespace Monkey

/-- What is known of a task. -/
inductive TaskState
  /-- The sender is open; there may be a result already. -/
  | running (sent : Option Value)
  /-- The sender is closed, and nobody has asked for the result yet. -/
  | ended (sent : Option Value)
  /-- The result was asked for. -/
  | joined (result : Value)
  deriving Inhabited

namespace TaskState

/-- What becomes of a task that sends a result; there is room for one. -/
def sending (result : Value) : TaskState → TaskState
  | .running none => .running (some result)
  | state => state

/-- What becomes of a task whose sender is closed. -/
def closing : TaskState → TaskState
  | .running sent => .ended sent
  | state => state

/-- What becomes of a task that is asked for its result. -/
def asked : TaskState → TaskState
  | .ended sent => .joined (sent.getD .null)
  | state => state

end TaskState

/-- An entry of the registry. -/
structure TaskEntry where
  /-- Whether the task can be looked up. -/
  alive : Bool
  state : TaskState
  deriving Inhabited

/-- The registry of tasks. -/
structure Tasks where
  /-- The entries by their numbers, each number with one entry. -/
  entries : List (Nat × TaskEntry)
  /-- The number of the next task. -/
  nextId : Nat
  deriving Inhabited

/-- What becomes of a value that is sent. -/
inductive Delivery
  | sent
  /-- There is a result already. -/
  | full
  /-- The sender is closed, or there is no such task. -/
  | noSender
  deriving DecidableEq, Repr, Inhabited

/-- What a join gives. -/
inductive JoinReply
  | unknown
  /-- The sender is still open. -/
  | wouldBlock
  | result (value : Value)
  deriving Inhabited

/-- Puts an entry into a table, in place of another one of its number. -/
def insertEntry (id : Nat) (entry : TaskEntry) :
    List (Nat × TaskEntry) → List (Nat × TaskEntry)
  | [] => [(id, entry)]
  | (other, old) :: rest =>
    if other = id then (id, entry) :: rest else (other, old) :: insertEntry id entry rest

namespace Tasks

/-- The registry without tasks. -/
def empty : Tasks := ⟨[], 0⟩

/-- The number of entries. -/
def size (t : Tasks) : Nat := t.entries.length

/-- The entry of a given number. -/
def slot? (t : Tasks) (id : Nat) : Option TaskEntry := t.entries.lookup id

/-- What is known of the task of a given number, if it can be looked up. -/
def get? (t : Tasks) (id : Nat) : Option TaskState :=
  ((t.slot? id).filter TaskEntry.alive).map TaskEntry.state

/-- Puts down what is known of a task. -/
def put (t : Tasks) (id : Nat) (state : TaskState) : Tasks where
  entries := t.entries.map fun (other, entry) =>
    (other, if other = id then { entry with state := state } else entry)
  nextId := t.nextId

/-- Registers a task, with an open sender, and gives its number. -/
def register (t : Tasks) : Nat × Tasks :=
  (t.nextId, ⟨insertEntry t.nextId ⟨true, .running none⟩ t.entries, t.nextId + 1⟩)

/-- Sends the result of a task. -/
def send (t : Tasks) (id : Nat) (value : Value) : Delivery × Tasks :=
  match (t.slot? id).map TaskEntry.state with
  | some (.running none) => (.sent, t.put id (.running (some value)))
  | some (.running (some _)) => (.full, t)
  | _ => (.noSender, t)

/-- Closes the sender of a task, and tells whether it was open. -/
def close (t : Tasks) (id : Nat) : Bool × Tasks :=
  match (t.slot? id).map TaskEntry.state with
  | some (.running sent) => (true, t.put id (.ended sent))
  | _ => (false, t)

/-- Asks for the result of a task, which is `null` if the task sent none. -/
def join (t : Tasks) (id : Nat) : JoinReply × Tasks :=
  match t.get? id with
  | none => (.unknown, t)
  | some (.running _) => (.wouldBlock, t)
  | some (.ended sent) =>
    let value := sent.getD .null
    (.result value, t.put id (.joined value))
  | some (.joined value) => (.result value, t)

/-- The text of a registry. -/
def describe (t : Tasks) : String :=
  "ThreadRegistry \x7b tasks: " ++ toString t.size ++ ", next_id: " ++ toString t.nextId ++ " \x7d"

/-- The text of a task. -/
def describeTask (t : Tasks) (id : Nat) : Option String :=
  (t.get? id).map fun state =>
    let joined := match state with
      | .joined _ => "true"
      | _ => "false"
    "TaskHandle \x7b id: ThreadId(" ++ toString id ++ "), joined: Some(" ++ joined ++ ") \x7d"

/-! ### Entries -/

theorem lookup_entry (id key : Nat) (entry : TaskEntry) (rest : List (Nat × TaskEntry)) :
    ((key, entry) :: rest).lookup id = if id = key then some entry else rest.lookup id := by
  rw [List.lookup_cons]
  split
  · next heq => rw [if_pos (beq_iff_eq.1 heq)]
  · next hne => rw [if_neg fun heq => by simp [heq] at hne]

theorem lookup_insertEntry (entries : List (Nat × TaskEntry)) (id : Nat) (entry : TaskEntry)
    (other : Nat) : (insertEntry id entry entries).lookup other =
      if other = id then some entry else entries.lookup other := by
  induction entries with
  | nil => exact lookup_entry other id entry []
  | cons first rest ih =>
    obtain ⟨key, old⟩ := first
    simp only [insertEntry]
    split
    · next heq =>
      subst heq
      simp only [lookup_entry]
      split <;> rfl
    · next hne =>
      simp only [lookup_entry, ih]
      by_cases hother : other = key
      · rw [if_pos hother, if_pos hother, if_neg fun heq => hne (hother.symm.trans heq)]
      · rw [if_neg hother, if_neg hother]

theorem length_insertEntry {entries : List (Nat × TaskEntry)} {id : Nat} (entry : TaskEntry)
    (h : entries.lookup id = none) :
    (insertEntry id entry entries).length = entries.length + 1 := by
  induction entries with
  | nil => rfl
  | cons first rest ih =>
    obtain ⟨key, old⟩ := first
    rw [lookup_entry] at h
    split at h
    · cases h
    · next hne =>
      rw [insertEntry, if_neg (Ne.symm hne), List.length_cons, List.length_cons, ih h]

variable (t : Tasks)

@[simp] theorem nextId_register : t.register.2.nextId = t.nextId + 1 := rfl

@[simp] theorem nextId_put (id : Nat) (state : TaskState) : (t.put id state).nextId = t.nextId :=
  rfl

@[simp] theorem size_put (id : Nat) (state : TaskState) : (t.put id state).size = t.size :=
  List.length_map _

theorem slot?_register (id : Nat) : t.register.2.slot? id =
    if id = t.nextId then some ⟨true, .running none⟩ else t.slot? id :=
  lookup_insertEntry t.entries t.nextId _ id

theorem slot?_put (id other : Nat) (state : TaskState) : (t.put id state).slot? other =
    if other = id then (t.slot? id).map fun entry => { entry with state := state }
    else t.slot? other := by
  obtain ⟨entries, nextId⟩ := t
  simp only [put, slot?]
  induction entries with
  | nil => split <;> rfl
  | cons first rest ih =>
    obtain ⟨key, old⟩ := first
    simp only [List.map_cons, lookup_entry, ih]
    by_cases hid : other = id
    · subst hid
      rw [if_pos rfl, if_pos rfl]
      by_cases hkey : other = key
      · rw [if_pos hkey, if_pos hkey, if_pos hkey.symm]
        rfl
      · rw [if_neg hkey, if_neg hkey]
    · rw [if_neg hid, if_neg hid]
      by_cases hkey : other = key
      · rw [if_pos hkey, if_pos hkey, if_neg fun heq => hid (hkey.trans heq)]
      · rw [if_neg hkey, if_neg hkey]

/-- Of the lookups only that of the new task has changed. -/
theorem get?_register (id : Nat) : t.register.2.get? id =
    if id = t.nextId then some (.running none) else t.get? id := by
  simp only [get?, slot?_register]
  split <;> rfl

theorem get?_register_self : t.register.2.get? t.nextId = some (.running none) := by
  rw [get?_register, if_pos rfl]

/-- Registering a task leaves the others as they are. -/
theorem get?_register_of_ne {id : Nat} (h : id ≠ t.nextId) :
    t.register.2.get? id = t.get? id := by
  rw [get?_register, if_neg h]

theorem get?_put (id other : Nat) (state : TaskState) :
    (t.put id state).get? other =
      if other = id then (t.get? id).map fun _ => state else t.get? other := by
  simp only [get?, slot?_put]
  split
  · cases hentry : t.slot? id with
    | none => rfl
    | some entry => cases halive : entry.alive <;> simp [Option.filter, halive]
  · rfl

theorem get?_put_of_ne {id other : Nat} (state : TaskState) (h : other ≠ id) :
    (t.put id state).get? other = t.get? other := by
  rw [get?_put, if_neg h]

/-- Only what was put down last counts. -/
theorem put_put (id : Nat) (state state' : TaskState) :
    (t.put id state).put id state' = t.put id state' := by
  simp only [put, List.map_map, mk.injEq, and_true]
  refine List.map_congr_left fun entry _ => ?_
  simp only [Function.comp_apply]
  split <;> rfl

/-- A task of a registry with one more task was there before, or has sent nothing. -/
theorem get?_of_register {t : Tasks} {id : Nat} {state : TaskState}
    (h : t.register.2.get? id = some state) : state = .running none ∨ t.get? id = some state := by
  rw [get?_register] at h
  split at h
  · exact Or.inl (Option.some.inj h).symm
  · exact Or.inr h

/-- What a lookup gives, the entry being known. -/
theorem get?_of_slot? {t : Tasks} {id : Nat} {entry : TaskEntry} (h : t.slot? id = some entry) :
    t.get? id = if entry.alive then some entry.state else none := by
  rw [get?, h, Option.filter_some]
  split <;> rfl

/-- Whoever looks tasks up sees one task changed in `u`, and the others as they are in `t`. -/
def Changes (t : Tasks) (id : Nat) (f : TaskState → TaskState) (u : Tasks) : Prop :=
  ∀ other, u.get? other = if other = id then (t.get? id).map f else t.get? other

namespace Changes

variable {t u : Tasks} {id other : Nat} {f : TaskState → TaskState}

theorem self (h : t.Changes id f u) : u.get? id = (t.get? id).map f := by rw [h id, if_pos rfl]

theorem of_ne (h : t.Changes id f u) (hne : other ≠ id) : u.get? other = t.get? other := by
  rw [h other, if_neg hne]

/-- A task is the one that was changed, or it is as it was. -/
theorem get?_eq_some (h : t.Changes id f u) {state : TaskState}
    (hget : u.get? other = some state) :
    (∃ old, other = id ∧ t.get? id = some old ∧ f old = state) ∨ t.get? other = some state := by
  rw [h other] at hget
  split at hget
  · next heq =>
    obtain ⟨old, hold, hstate⟩ := Option.map_eq_some_iff.1 hget
    exact .inl ⟨old, heq, hold, hstate⟩
  · exact .inr hget

/-- Putting down what has become of a task changes that task. -/
theorem of_put (h : ∀ entry, t.slot? id = some entry →
      u = t.put id (f entry.state) ∨ u = t ∧ f entry.state = entry.state)
    (hnone : t.slot? id = none → u = t) : t.Changes id f u := by
  intro other
  cases hslot : t.slot? id with
  | none =>
    have hget : t.get? id = none := by
      rw [get?, hslot]
      rfl
    rw [hnone hslot, hget]
    split
    · next heq => rw [heq, hget, Option.map_none]
    · rfl
  | some entry =>
    have hget := get?_of_slot? hslot
    -- the entry changes, or has nothing to change
    rcases h entry hslot with hput | ⟨hput, hsame⟩
    · rw [hput, get?_put, hget]
      cases entry.alive <;> rfl
    · rw [hput]
      split
      · next heq =>
        rw [heq, hget]
        cases entry.alive
        · rfl
        · rw [if_pos rfl, Option.map_some, hsame]
      · rfl

end Changes

/-- Sending a result changes one task. -/
theorem changes_send (id : Nat) (result : Value) :
    t.Changes id (TaskState.sending result) (t.send id result).2 := by
  refine .of_put (fun entry hslot => ?_) fun hslot => ?_
  · simp only [send, hslot, Option.map_some]
    rcases entry.state with (_ | _) | _ | _
    · exact .inl rfl
    all_goals exact .inr ⟨rfl, rfl⟩
  · simp only [send, hslot, Option.map_none]

/-- Closing a sender changes one task. -/
theorem changes_close (id : Nat) : t.Changes id TaskState.closing (t.close id).2 := by
  refine .of_put (fun entry hslot => ?_) fun hslot => ?_
  · simp only [close, hslot, Option.map_some]
    rcases entry.state with _ | _ | _
    · exact .inl rfl
    all_goals exact .inr ⟨rfl, rfl⟩
  · simp only [close, hslot, Option.map_none]

/-- Asking for a result changes one task. -/
theorem changes_join (id : Nat) : t.Changes id TaskState.asked (t.join id).2 := by
  -- the tasks that a join leaves alone are asked in vain
  have hsame : (t.get? id).map TaskState.asked = t.get? id → t.Changes id TaskState.asked t := by
    intro hasked other
    split
    · next heq => rw [heq, hasked]
    · rfl
  cases hget : t.get? id with
  | none =>
    simp only [join, hget]
    exact hsame (hget ▸ rfl)
  | some state =>
    cases state with
    | running sent =>
      simp only [join, hget]
      exact hsame (hget ▸ rfl)
    | ended sent =>
      intro other
      simp only [join, hget]
      rw [get?_put, hget]
      rfl
    | joined value =>
      simp only [join, hget]
      exact hsame (hget ▸ rfl)

@[simp] theorem nextId_send (id : Nat) (result : Value) :
    (t.send id result).2.nextId = t.nextId := by
  unfold send
  split <;> rfl

@[simp] theorem nextId_close (id : Nat) : (t.close id).2.nextId = t.nextId := by
  unfold close
  split <;> rfl

@[simp] theorem nextId_join (id : Nat) : (t.join id).2.nextId = t.nextId := by
  unfold join
  split <;> rfl

/-! ### Registries as they come about -/

/-- The numbers that have an entry are those that were given out, there are as many of them as were
given out, and every entry can be looked up. -/
structure Valid (t : Tasks) : Prop where
  isSome_slot?_iff : ∀ id, (t.slot? id).isSome ↔ id < t.nextId
  size_eq : t.size = t.nextId
  alive : ∀ {id : Nat} {entry : TaskEntry}, t.slot? id = some entry → entry.alive = true

theorem valid_empty : empty.Valid where
  isSome_slot?_iff id := iff_of_false (fun h => nomatch h) (Nat.not_lt_zero id)
  size_eq := rfl
  alive h := nomatch h

namespace Valid

variable {t : Tasks}

theorem slot?_eq_none (h : t.Valid) {id : Nat} (hid : t.nextId ≤ id) : t.slot? id = none := by
  have hsome := mt (h.isSome_slot?_iff id).1 (Nat.not_lt_of_le hid)
  exact Option.not_isSome_iff_eq_none.1 hsome

/-- **The tasks are those whose numbers were given out.** -/
theorem isSome_get?_iff (h : t.Valid) (id : Nat) : (t.get? id).isSome ↔ id < t.nextId := by
  rw [← h.isSome_slot?_iff id, get?]
  cases hentry : t.slot? id with
  | none => exact Iff.rfl
  | some entry => simp [Option.filter, h.alive hentry]

/-- In such a registry looking a task up never fails for an entry that is there. -/
theorem get?_eq (h : t.Valid) (id : Nat) : t.get? id = (t.slot? id).map TaskEntry.state := by
  rw [get?]
  cases hentry : t.slot? id with
  | none => rfl
  | some entry => simp [Option.filter, h.alive hentry]

theorem get?_eq_none (h : t.Valid) {id : Nat} (hid : t.nextId ≤ id) : t.get? id = none := by
  rw [get?, h.slot?_eq_none hid]
  rfl

theorem lt_nextId (h : t.Valid) {id : Nat} {state : TaskState} (hget : t.get? id = some state) :
    id < t.nextId :=
  (h.isSome_get?_iff id).1 (Option.isSome_of_eq_some hget)

theorem register (h : t.Valid) : t.register.2.Valid where
  isSome_slot?_iff id := by
    rw [slot?_register, nextId_register]
    split
    · next heq => exact iff_of_true rfl (heq ▸ Nat.lt_succ_self _)
    · next hne =>
      rw [h.isSome_slot?_iff id]
      omega
  size_eq := by
    rw [nextId_register, ← h.size_eq]
    exact length_insertEntry _ (h.slot?_eq_none (Nat.le_refl _))
  alive {id entry} hentry := by
    rw [slot?_register] at hentry
    split at hentry
    · cases hentry
      rfl
    · exact h.alive hentry

theorem put (h : t.Valid) (id : Nat) (state : TaskState) : (t.put id state).Valid where
  isSome_slot?_iff other := by
    rw [slot?_put, nextId_put, ← h.isSome_slot?_iff other]
    split
    · next heq => rw [Option.isSome_map, heq]
    · exact Iff.rfl
  size_eq := by rw [size_put, nextId_put, h.size_eq]
  alive {other entry} hentry := by
    rw [slot?_put] at hentry
    split at hentry
    · obtain ⟨old, hold, heq⟩ := Option.map_eq_some_iff.1 hentry
      have halive := h.alive hold
      rwa [← heq]
    · exact h.alive hentry

theorem send (h : t.Valid) (id : Nat) (value : Value) : (t.send id value).2.Valid := by
  unfold Tasks.send
  split
  · exact h.put id _
  · exact h
  · exact h

theorem close (h : t.Valid) (id : Nat) : (t.close id).2.Valid := by
  unfold Tasks.close
  split
  · exact h.put id _
  · exact h

theorem join (h : t.Valid) (id : Nat) : (t.join id).2.Valid := by
  unfold Tasks.join
  split
  · exact h
  · exact h
  · exact h.put id _
  · exact h

end Valid

end Tasks

end Monkey
