import Monkey.Proofs.Allocation
import Monkey.Proofs.Matching

/-!
# Renaming what was allocated

Scopes and addresses are numbers that are given out one after another, so two runs that do the same
steps from different states allocate the same things under different numbers.  A renaming keeps the
numbers that had been given out at some moment and moves the later ones by fixed distances.  Nothing
in the language looks at such a number but to compare it with another one: types and texts stay the
same under a renaming, and a value matches the renamed one.

## Main definitions

* `Renaming`, `Value.rename` — the renamings, and a value renamed.
* `Renaming.matching` — every number stands for its new one.

## Main results

* `Value.inspect_rename` — **a renaming does not change the text of a value.**
* `Value.matches_rename`, `Value.Matches.eq_rename` — **a value matches the renamed one and no
  other.**
* `Value.Within.rename_eq` — a renaming keeps the values that mention only what it keeps.
-/

namespace Monkey

/-- A renaming of scopes and addresses.  Those given out before some moment keep their numbers, and
the later ones are moved. -/
structure Renaming where
  since : Extent
  /-- How far the later scopes are moved. -/
  scopesBy : Nat
  /-- How far the later addresses are moved. -/
  addressesBy : Nat

namespace Renaming

variable (ρ : Renaming)

/-- The new number of a scope. -/
def scope (id : Nat) : Nat := if id < ρ.since.scopes then id else id + ρ.scopesBy

/-- The new number of an address. -/
def address (addr : Nat) : Nat := if addr < ρ.since.addresses then addr else addr + ρ.addressesBy

theorem scope_of_lt {id : Nat} (h : id < ρ.since.scopes) : ρ.scope id = id := if_pos h

theorem scope_of_le {id : Nat} (h : ρ.since.scopes ≤ id) : ρ.scope id = id + ρ.scopesBy :=
  if_neg (Nat.not_lt.2 h)

theorem address_of_lt {addr : Nat} (h : addr < ρ.since.addresses) : ρ.address addr = addr :=
  if_pos h

theorem address_of_le {addr : Nat} (h : ρ.since.addresses ≤ addr) :
    ρ.address addr = addr + ρ.addressesBy :=
  if_neg (Nat.not_lt.2 h)

@[simp] theorem scope_eq_iff {a b : Nat} : ρ.scope a = ρ.scope b ↔ a = b := by
  unfold scope
  split <;> split <;> omega

@[simp] theorem address_eq_iff {a b : Nat} : ρ.address a = ρ.address b ↔ a = b := by
  unfold address
  split <;> split <;> omega

@[simp] theorem address_beq (a b : Nat) : (ρ.address a == ρ.address b) = (a == b) := by
  rw [Bool.eq_iff_iff, beq_iff_eq, beq_iff_eq, address_eq_iff]

end Renaming

/-- A closure in its renamed scope. -/
def Closure.rename (ρ : Renaming) (c : Closure) : Closure := { c with scope := ρ.scope c.scope }

mutual

/-- A value with other numbers for its scopes and addresses.  Tasks keep their numbers, which are
part of the texts of their handles. -/
def Value.rename (ρ : Renaming) : Value → Value
  | .integer value => .integer value
  | .boolean value => .boolean value
  | .null => .null
  | .string addr text => .string (ρ.address addr) text
  | .array addr elements => .array (ρ.address addr) (renameAll ρ elements)
  | .hash addr entries => .hash (ρ.address addr) (renameEntries ρ entries)
  | .function addr closure => .function (ρ.address addr) (closure.rename ρ)
  | .returned addr value => .returned (ρ.address addr) (value.rename ρ)
  | .error addr message => .error (ρ.address addr) message
  | .quote addr e => .quote (ρ.address addr) e
  | .macroFn addr closure => .macroFn (ρ.address addr) (closure.rename ρ)
  | .builtin function => .builtin function
  | .intrinsic function => .intrinsic function
  | .task id => .task id

/-- Each value renamed. -/
def renameAll (ρ : Renaming) : List Value → List Value
  | [] => []
  | v :: vs => v.rename ρ :: renameAll ρ vs

/-- The value of each entry renamed. -/
def renameEntries (ρ : Renaming) : List (HashKey × Value) → List (HashKey × Value)
  | [] => []
  | (key, v) :: es => (key, v.rename ρ) :: renameEntries ρ es

end

section

variable (ρ : Renaming)

@[simp] theorem renameAll_eq_map (vs : List Value) :
    renameAll ρ vs = vs.map (Value.rename ρ) := by
  induction vs with
  | nil => rfl
  | cons v vs ih => simp [renameAll, ih]

@[simp] theorem renameEntries_eq_map (es : List (HashKey × Value)) :
    renameEntries ρ es = es.map (Prod.map id (Value.rename ρ)) := by
  induction es with
  | nil => rfl
  | cons e es ih =>
    obtain ⟨key, v⟩ := e
    simp [renameEntries, ih]

/-! ### What a renaming leaves alone -/

namespace Value

@[simp] theorem type_rename (v : Value) : (v.rename ρ).type = v.type := by
  cases v <;> rfl

@[simp] theorem typeName_rename (v : Value) : (v.rename ρ).typeName = v.typeName := by
  simp [typeName]

@[simp] theorem message?_rename (v : Value) : (v.rename ρ).message? = v.message? := by
  cases v <;> rfl

end Value

@[simp] theorem Closure.inspect_rename (c : Closure) : (c.rename ρ).inspect = c.inspect := rfl

mutual

/-- **The text of a value does not depend on any number given out.** -/
@[simp] theorem Value.inspect_rename : (v : Value) → (v.rename ρ).inspect = v.inspect
  | .array _ elements => by
    simp only [Value.rename, Value.inspect, inspectAll_rename elements]
  | .hash _ entries => by
    simp only [Value.rename, Value.inspect, inspectEntries_rename entries]
  | .returned _ value => by
    simp only [Value.rename, Value.inspect, Value.inspect_rename value]
  | .function _ _ | .macroFn _ _ => by
    simp only [Value.rename, Value.inspect, Closure.inspect_rename]
  | .integer _ | .boolean _ | .null | .string _ _ | .error _ _ | .quote _ _ | .builtin _
  | .intrinsic _ | .task _ => by
    simp only [Value.rename, Value.inspect]

theorem inspectAll_rename : (vs : List Value) → inspectAll (renameAll ρ vs) = inspectAll vs
  | [] => rfl
  | v :: vs => by
    simp only [renameAll, inspectAll, Value.inspect_rename v, inspectAll_rename vs]

theorem inspectEntries_rename :
    (es : List (HashKey × Value)) → inspectEntries (renameEntries ρ es) = inspectEntries es
  | [] => rfl
  | (key, v) :: es => by
    simp only [renameEntries, inspectEntries, Value.inspect_rename v, inspectEntries_rename es]

end

/-- A native function prints the same lines for renamed arguments. -/
theorem Builtin.printed_rename (b : Builtin) (args : List Value) :
    b.printed (args.map (Value.rename ρ)) = b.printed args := by
  cases b <;> simp [Builtin.printed]

end

/-! ### Renamed values match -/

section

variable {ρ : Renaming}

/-- Every number stands for its new one. -/
def Renaming.matching (ρ : Renaming) : Matching where
  scopes := ⟨fun a b => b = ρ.scope a, by rintro a b _ _ rfl rfl; exact ρ.scope_eq_iff.symm⟩
  addresses := ⟨fun a b => b = ρ.address a, by rintro a b _ _ rfl rfl; exact ρ.address_eq_iff.symm⟩
  tasks := .identity

theorem Closure.matches_rename (c : Closure) : c.Matches ρ.matching (c.rename ρ) := ⟨rfl, rfl, rfl⟩

mutual

/-- A value matches the renamed one. -/
theorem Value.matches_rename : (v : Value) → Value.Matches ρ.matching v (v.rename ρ)
  | .integer n => .integer n
  | .boolean b => .boolean b
  | .null => .null
  | .string _ text => .string text rfl
  | .array _ vs => .array rfl (allMatch_rename vs)
  | .hash _ es => .hash rfl (entriesMatch_rename es)
  | .function _ c => .function rfl c.matches_rename
  | .returned _ v => .returned rfl v.matches_rename
  | .error _ message => .error message rfl
  | .quote _ e => .quote e rfl
  | .macroFn _ c => .macroFn rfl c.matches_rename
  | .builtin b => .builtin b
  | .intrinsic i => .intrinsic i
  | .task _ => .task rfl

theorem allMatch_rename :
    (vs : List Value) → List.Forall₂ (Value.Matches ρ.matching) vs (renameAll ρ vs)
  | [] => .nil
  | v :: vs => .cons v.matches_rename (allMatch_rename vs)

theorem entriesMatch_rename :
    (es : List (HashKey × Value)) → Keywise (Value.Matches ρ.matching) es (renameEntries ρ es)
  | [] => .nil
  | (key, v) :: es => .cons key v.matches_rename (entriesMatch_rename es)

end

theorem Closure.Matches.eq_rename {c d : Closure} (h : c.Matches ρ.matching d) :
    d = c.rename ρ := by
  obtain ⟨params, body, scope⟩ := d
  obtain ⟨rfl, rfl, hscope⟩ := h
  cases hscope
  rfl

mutual

/-- **It matches no other value.** -/
theorem Value.Matches.eq_rename : {v w : Value} → Value.Matches ρ.matching v w → w = v.rename ρ
  | .integer _, _, .integer _ | .boolean _, _, .boolean _ | .null, _, .null
  | .builtin _, _, .builtin _ | .intrinsic _, _, .intrinsic _ => rfl
  | .string _ _, _, .string _ rfl | .error _ _, _, .error _ rfl | .quote _ _, _, .quote _ rfl
  | .task _, _, .task rfl => rfl
  | .array _ _, _, .array rfl hs => by rw [Value.rename, allMatch_eq_rename hs]
  | .hash _ _, _, .hash rfl hs => by rw [Value.rename, entriesMatch_eq_rename hs]
  | .function _ _, _, .function rfl hc | .macroFn _ _, _, .macroFn rfl hc => by
    rw [Value.rename, hc.eq_rename]
  | .returned _ _, _, .returned rfl hv => by rw [Value.rename, Value.Matches.eq_rename hv]

theorem allMatch_eq_rename : {vs ws : List Value} →
    List.Forall₂ (Value.Matches ρ.matching) vs ws → ws = renameAll ρ vs
  | [], _, .nil => rfl
  | _ :: _, _, .cons h hs => by
    rw [renameAll, Value.Matches.eq_rename h, allMatch_eq_rename hs]

theorem entriesMatch_eq_rename : {es fs : List (HashKey × Value)} →
    Keywise (Value.Matches ρ.matching) es fs → fs = renameEntries ρ es
  | [], _, .nil => rfl
  | _ :: _, _, .cons _ h hs => by
    rw [renameEntries, Value.Matches.eq_rename h, entriesMatch_eq_rename hs]

end

end

section

variable (ρ : Renaming)

/-! ### What a renaming keeps -/

mutual

/-- A renaming keeps the values that mention only what it keeps. -/
theorem Value.Within.rename_eq : {v : Value} → v.Within ρ.since → v.rename ρ = v
  | .string _ _, h | .error _ _, h | .quote _ _, h => by
    simp only [Value.rename, ρ.address_of_lt h]
  | .array _ _, h => by
    simp only [Value.rename, ρ.address_of_lt h.1, renameAll_eq h.2]
  | .hash _ _, h => by
    simp only [Value.rename, ρ.address_of_lt h.1, renameEntries_eq h.2]
  | .function _ _, h | .macroFn _ _, h => by
    simp only [Value.rename, Closure.rename, ρ.address_of_lt h.1, ρ.scope_of_lt h.2]
  | .returned _ _, h => by
    simp only [Value.rename, ρ.address_of_lt h.1, Value.Within.rename_eq h.2]
  | .integer _, _ | .boolean _, _ | .null, _ | .builtin _, _ | .intrinsic _, _ | .task _, _ => rfl

theorem renameAll_eq : {vs : List Value} → allWithin ρ.since vs → renameAll ρ vs = vs
  | [], _ => rfl
  | _ :: _, h => by simp only [renameAll, Value.Within.rename_eq h.1, renameAll_eq h.2]

theorem renameEntries_eq :
    {es : List (HashKey × Value)} → entriesWithin ρ.since es → renameEntries ρ es = es
  | [], _ => rfl
  | (_, _) :: _, h => by
    simp only [renameEntries, Value.Within.rename_eq h.1, renameEntries_eq h.2]

end

end

end Monkey
