import Monkey.Text.Quoted
import Monkey.Value

/-!
# Scopes

A scope binds names to values and may lie inside another one.  All scopes are kept in one store,
numbered in the order of their creation.  A scope is always created after the one around it, so that
every chain of scopes ends.  Binding a name changes one scope only, and no scope ever moves.

## Main definitions

* `Bindings` — names with values; `Bindings.set` and `Bindings.find?`.
* `Scope`, `Scopes` — a scope, and the store of all of them.
* `Scopes.add`, `Scopes.set`, `Scopes.find?` — creating a scope, binding a name in one scope, and
  looking a name up from one scope outwards.
-/

namespace Monkey

/-- Names with the values that they are bound to. -/
abbrev Bindings := List (String × Value)

namespace Bindings

/-- The value that a name is bound to. -/
def find? (name : String) : Bindings → Option Value
  | [] => none
  | (other, value) :: rest => if name = other then some value else find? name rest

/-- Binds a name, in place of what it was bound to. -/
def set (name : String) (value : Value) : Bindings → Bindings
  | [] => [(name, value)]
  | (other, stored) :: rest =>
    if name = other then (name, value) :: rest else (other, stored) :: set name value rest

/-- The names that are bound. -/
def names (bindings : Bindings) : List String := bindings.map Prod.fst

@[simp] theorem find?_nil (name : String) : find? name [] = none := rfl

theorem find?_set (name other : String) (value : Value) (bindings : Bindings) :
    find? other (set name value bindings) =
      if other = name then some value else find? other bindings := by
  induction bindings with
  | nil => simp [set, find?]
  | cons entry rest ih =>
    obtain ⟨k, stored⟩ := entry
    by_cases hk : name = k
    · subst hk
      by_cases ho : other = name <;> simp [set, find?, ho]
    · by_cases ho : other = k
      · subst ho
        simp [set, find?, hk, Ne.symm hk]
      · simp [set, find?, hk, ho, ih]

@[simp] theorem find?_set_self (name : String) (value : Value) (bindings : Bindings) :
    find? name (set name value bindings) = some value := by
  simp [find?_set]

theorem mem_of_find? {bindings : Bindings} {name : String} {v : Value}
    (h : bindings.find? name = some v) : (name, v) ∈ bindings := by
  induction bindings with
  | nil => cases h
  | cons entry rest ih =>
    obtain ⟨other, stored⟩ := entry
    unfold Bindings.find? at h
    split at h
    · next heq =>
      cases h
      rw [heq]
      exact List.mem_cons_self
    · exact List.mem_cons_of_mem _ (ih h)

theorem mem_set {bindings : Bindings} {name other : String} {v w : Value}
    (h : (other, w) ∈ bindings.set name v) : w = v ∨ (other, w) ∈ bindings := by
  induction bindings with
  | nil =>
    cases h with
    | head => exact Or.inl rfl
    | tail _ h => cases h
  | cons entry rest ih =>
    obtain ⟨k, stored⟩ := entry
    unfold Bindings.set at h
    split at h
    · rcases List.mem_cons.1 h with heq | h
      · cases heq
        exact Or.inl rfl
      · exact Or.inr (List.mem_cons_of_mem _ h)
    · rcases List.mem_cons.1 h with heq | h
      · exact Or.inr (heq ▸ List.mem_cons_self)
      · exact (ih h).imp id (List.mem_cons_of_mem _)

end Bindings

/-- A scope: what it binds, and the scope around it. -/
structure Scope where
  bindings : Bindings
  outer : Option Nat
  deriving Inhabited

/-- The store of all scopes, in the order of their creation. -/
structure Scopes where
  toArray : Array Scope
  /-- A scope is created after the one around it. -/
  outer_lt : ∀ {id : Nat} {scope : Scope} {outer : Nat},
    toArray[id]? = some scope → scope.outer = some outer → outer < id

namespace Scopes

/-- The store without scopes. -/
def empty : Scopes := ⟨#[], by simp⟩

instance : Inhabited Scopes := ⟨empty⟩

/-- The number of scopes. -/
def size (s : Scopes) : Nat := s.toArray.size

/-- The scope of a given number. -/
def get? (s : Scopes) (id : Nat) : Option Scope := s.toArray[id]?

/-- The scope around a scope. -/
def outer? (s : Scopes) (id : Nat) : Option Nat := (s.get? id).bind Scope.outer

/-- What a scope itself binds. -/
def bindings (s : Scopes) (id : Nat) : Bindings :=
  match s.get? id with
  | some scope => scope.bindings
  | none => []

/-- Creates an empty scope inside another one, or inside none. -/
def add (s : Scopes) (outer : Option Nat) : Scopes where
  toArray := s.toArray.push ⟨[], outer.filter (· < s.toArray.size)⟩
  outer_lt := by
    intro id scope around found inside
    rw [Array.getElem?_push] at found
    split at found
    · cases found
      simp only [Option.filter_eq_some_iff, decide_eq_true_eq] at inside
      omega
    · exact s.outer_lt found inside

/-- Binds a name in one scope. -/
def set (s : Scopes) (id : Nat) (name : String) (value : Value) : Scopes where
  toArray := s.toArray.modify id fun scope =>
    { scope with bindings := scope.bindings.set name value }
  outer_lt := by
    intro other scope around found inside
    rw [Array.getElem?_modify] at found
    split at found
    · cases old : s.toArray[other]? with
      | none => simp [old] at found
      | some before =>
        simp only [old, Option.map_some, Option.some.injEq] at found
        subst found
        exact s.outer_lt old inside
    · exact s.outer_lt found inside

theorem outer?_lt (s : Scopes) {id outer : Nat} (h : s.outer? id = some outer) : outer < id := by
  simp only [outer?, Option.bind_eq_some_iff] at h
  obtain ⟨scope, found, inside⟩ := h
  exact s.outer_lt found inside

/-- The value that a name has in a scope: what the scope binds it to, or else what it has in the
scope around. -/
def find? (s : Scopes) (id : Nat) (name : String) : Option Value :=
  match (s.bindings id).find? name with
  | some value => some value
  | none =>
    match _inside : s.outer? id with
    | some outer => s.find? outer name
    | none => none
termination_by id
decreasing_by exact s.outer?_lt _inside

/-- What a scope itself says of a name: the value that it binds it to, or else the scope around it,
in which to look next. -/
def look (s : Scopes) (id : Nat) (name : String) : Value ⊕ Option Nat :=
  match (s.bindings id).find? name with
  | some value => .inl value
  | none => .inr (s.outer? id)

/-- Whether a scope itself binds a name. -/
def bindsLocally (s : Scopes) (id : Nat) (name : String) : Bool :=
  ((s.bindings id).find? name).isSome

/-- The names that a scope binds, in order, and whether it lies inside another one. -/
def describe (s : Scopes) (id : Nat) : String :=
  let names := (s.bindings id).names.mergeSort (fun a b => a ≤ b)
  let inside := if (s.outer? id).isSome then "true" else "false"
  "Environment \x7b names: " ++ quotedList names ++ ", has_outer: " ++ inside ++ " \x7d"

@[simp] theorem size_add (s : Scopes) (outer : Option Nat) :
    (s.add outer).size = s.size + 1 := by
  simp [add, size]

@[simp] theorem size_set (s : Scopes) (id : Nat) (name : String) (value : Value) :
    (s.set id name value).size = s.size := by
  simp [set, size]

/-- There is no scope with a number that has not been given out. -/
theorem get?_of_size_le (s : Scopes) {id : Nat} (h : s.size ≤ id) : s.get? id = none :=
  Array.getElem?_eq_none h

/-- Creating a scope leaves the others as they are. -/
theorem get?_add_of_lt (s : Scopes) (outer : Option Nat) {id : Nat} (h : id < s.size) :
    (s.add outer).get? id = s.get? id := by
  simp only [get?, add, size] at *
  rw [Array.getElem?_push, if_neg (by omega)]

/-- The scope created last is empty. -/
theorem get?_add_self (s : Scopes) (outer : Option Nat) :
    (s.add outer).get? s.size = some ⟨[], outer.filter (· < s.size)⟩ :=
  Array.getElem?_push_size

/-- Binding a name in a scope leaves the other scopes as they are. -/
theorem get?_set_of_ne (s : Scopes) {id other : Nat} (name : String) (value : Value)
    (h : other ≠ id) : (s.set id name value).get? other = s.get? other := by
  simp only [get?, set]
  rw [Array.getElem?_modify, if_neg (Ne.symm h)]

/-- Binding a name in a scope changes the bindings of that scope. -/
theorem get?_set_self (s : Scopes) (id : Nat) (name : String) (value : Value) :
    (s.set id name value).get? id =
      (s.get? id).map fun scope =>
        { scope with bindings := scope.bindings.set name value } := by
  simp only [get?, set]
  rw [Array.getElem?_modify, if_pos rfl]

theorem lt_size_of_get? {s : Scopes} {id : Nat} {scope : Scope} (h : s.get? id = some scope) :
    id < s.size := by
  by_cases hid : id < s.size
  · exact hid
  · rw [s.get?_of_size_le (Nat.le_of_not_lt hid)] at h
    cases h

/-- The scope around a scope is the same as before; around the scope that was created lies the one
that it was created in. -/
theorem outer?_add (s : Scopes) (outer : Option Nat) (id : Nat) :
    (s.add outer).outer? id = if id = s.size then outer.filter (· < s.size) else s.outer? id := by
  rcases Nat.lt_trichotomy id s.size with hlt | rfl | hgt
  · rw [if_neg (Nat.ne_of_lt hlt), outer?, get?_add_of_lt s outer hlt, outer?]
  · rw [if_pos rfl, outer?, get?_add_self, Option.bind_some]
  · have hnone : (s.add outer).get? id = none := get?_of_size_le _ (by rwa [size_add])
    rw [if_neg (Nat.ne_of_gt hgt), outer?, hnone, outer?, s.get?_of_size_le (Nat.le_of_lt hgt)]

/-- The scope around a scope is the same as before, but for a scope that was just created. -/
theorem outer?_of_add {s : Scopes} {outer : Option Nat} {id around : Nat}
    (h : (s.add outer).outer? id = some around) :
    s.outer? id = some around ∨ id = s.size ∧ outer = some around := by
  rw [outer?_add] at h
  split at h
  · next hid => exact Or.inr ⟨hid, (Option.filter_eq_some_iff.1 h).1⟩
  · exact Or.inl h

/-- A new scope binds nothing. -/
@[simp] theorem bindings_add (s : Scopes) (outer : Option Nat) (id : Nat) :
    (s.add outer).bindings id = s.bindings id := by
  rcases Nat.lt_trichotomy id s.size with hlt | rfl | hgt
  · rw [bindings, get?_add_of_lt s outer hlt, bindings]
  · rw [bindings, get?_add_self, bindings, s.get?_of_size_le (Nat.le_refl _)]
  · have hnone : (s.add outer).get? id = none := get?_of_size_le _ (by rwa [size_add])
    rw [bindings, hnone, bindings, s.get?_of_size_le (Nat.le_of_lt hgt)]

theorem mem_bindings_of_add {s : Scopes} {outer : Option Nat} {id : Nat} {entry : String × Value}
    (h : entry ∈ (s.add outer).bindings id) : entry ∈ s.bindings id := by
  rwa [bindings_add] at h

/-- Binding a name in a scope changes what that scope binds, and no other one. -/
theorem bindings_set (s : Scopes) (id : Nat) (name : String) (value : Value) (other : Nat) :
    (s.set id name value).bindings other =
      if other = id ∧ other < s.size then (s.bindings other).set name value
      else s.bindings other := by
  by_cases heq : other = id
  · subst heq
    cases hget : s.get? other with
    | none =>
      have hnot : ¬other < s.size := Nat.not_lt.2 (Array.getElem?_eq_none_iff.1 hget)
      simp [bindings, get?_set_self, hget, hnot]
    | some scope => simp [bindings, get?_set_self, hget, lt_size_of_get? hget]
  · simp [bindings, get?_set_of_ne s name value heq, heq]

/-- A binding is the one that was made last or an older one. -/
theorem mem_bindings_of_set {s : Scopes} {id other : Nat} {name key : String} {value stored : Value}
    (h : (key, stored) ∈ (s.set id name value).bindings other) :
    stored = value ∨ (key, stored) ∈ s.bindings other := by
  rw [bindings_set] at h
  split at h
  · exact Bindings.mem_set h
  · exact Or.inr h

/-- What a scope binds a name to, or else what the scope around it does. -/
theorem find?_eq_or (s : Scopes) (id : Nat) (name : String) :
    s.find? id name =
      ((s.bindings id).find? name).or ((s.outer? id).bind fun outer => s.find? outer name) := by
  rw [Scopes.find?]
  split
  · next found => rw [found, Option.some_or]
  · next found =>
    rw [found, Option.none_or]
    split
    · next inside => rw [inside, Option.bind_some]
    · next inside => rw [inside, Option.bind_none]

/-- A scope knows a name by the value that it was bound to in that scope. -/
theorem find?_set_self (s : Scopes) (name : String) (value : Value) {id : Nat} (h : id < s.size) :
    (s.set id name value).find? id name = some value := by
  have hget : s.get? id = some s.toArray[id] := Array.getElem?_eq_getElem h
  rw [find?_eq_or, bindings, get?_set_self, hget]
  simp only [Option.map_some, Bindings.find?_set_self, Option.some_or]

/-- A scope that knows a name is one of the store. -/
theorem lt_size_of_find? {s : Scopes} {id : Nat} {name : String} {value : Value}
    (h : s.find? id name = some value) : id < s.size := by
  by_cases hid : id < s.size
  · exact hid
  · have hnone := s.get?_of_size_le (Nat.le_of_not_lt hid)
    rw [find?_eq_or, bindings, outer?, hnone] at h
    cases h

/-- A name has the same value in a scope after another one was created. -/
theorem find?_add_of_lt (s : Scopes) (outer : Option Nat) (name : String) {id : Nat}
    (h : id < s.size) : (s.add outer).find? id name = s.find? id name := by
  induction id using Nat.strongRecOn with
  | _ id ih =>
    have hget := s.get?_add_of_lt outer h
    rw [find?_eq_or, s.find?_eq_or, bindings, bindings, outer?, outer?, hget]
    cases houter : (s.get? id).bind Scope.outer with
    | none => rfl
    | some around =>
      have hlt : around < id := s.outer?_lt houter
      rw [Option.bind_some, Option.bind_some, ih around hlt (Nat.lt_trans hlt h)]

/-- In a new scope a name has the value that it has in the scope around. -/
theorem find?_add_self (s : Scopes) (name : String) {outer : Nat} (h : outer < s.size) :
    (s.add (some outer)).find? s.size name = s.find? outer name := by
  have hget : (s.add (some outer)).get? s.size = some ⟨[], some outer⟩ := by
    rw [get?_add_self, Option.filter_some, if_pos (decide_eq_true h)]
  rw [find?_eq_or, bindings, outer?, hget]
  exact s.find?_add_of_lt (some outer) name h

/-- A name that is looked up is bound in a scope on the way outwards. -/
theorem exists_mem_bindings_of_find? {s : Scopes} {P : Nat → Prop} {name : String} {value : Value}
    (houter : ∀ {id outer : Nat}, P id → s.outer? id = some outer → P outer) :
    ∀ {id : Nat}, P id → s.find? id name = some value →
      ∃ other, P other ∧ (name, value) ∈ s.bindings other := by
  intro id
  -- the scopes on the way outwards have smaller and smaller numbers
  induction id using Nat.strongRecOn with
  | _ id ih =>
    intro hid hfind
    rw [find?] at hfind
    split at hfind
    · next found hfound =>
      cases hfind
      exact ⟨id, hid, Bindings.mem_of_find? hfound⟩
    · split at hfind
      · next outer hinside => exact ih outer (s.outer?_lt hinside) (houter hid hinside) hfind
      · cases hfind

/-- No step changes which scope lies around which. -/
@[simp] theorem outer?_set (s : Scopes) (id other : Nat) (name : String) (value : Value) :
    (s.set id name value).outer? other = s.outer? other := by
  by_cases h : other = id
  · subst h
    simp only [outer?, get?_set_self]
    cases s.get? other <;> rfl
  · simp only [outer?, get?_set_of_ne s name value h]

/-- Binding a name changes the value of no other name. -/
theorem find?_set_of_ne (s : Scopes) (id : Nat) {name other : String} (value : Value)
    (h : other ≠ name) (scope : Nat) :
    (s.set id name value).find? scope other = s.find? scope other := by
  induction scope using Nat.strongRecOn with
  | _ scope ih =>
    have hbindings : ((s.set id name value).bindings scope).find? other =
        (s.bindings scope).find? other := by
      rw [bindings_set]
      split
      · rw [Bindings.find?_set, if_neg h]
      · rfl
    rw [find?_eq_or, s.find?_eq_or, hbindings, outer?_set]
    cases houter : s.outer? scope with
    | none => rfl
    | some outer => rw [Option.bind_some, Option.bind_some, ih outer (s.outer?_lt houter)]

end Scopes

end Monkey
