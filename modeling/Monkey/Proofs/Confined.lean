import Monkey.Expr.Parts
import Monkey.Proofs.Holding

/-!
# Code that calls can run

Without `eval`, `launch`, `await` and `quote` all that evaluation runs are the bodies of functions
that it meets: in the scope that it runs in and the scopes around, in arrays and hashes, and in the
scopes of the functions met so far.  An evaluation is confined to some scopes, and to bodies in
which not too many expressions lie inside one another, if nothing that it can meet leads any
further.

## Main definitions

* `Expr.Plain` — expressions that use no reserved name and are not nested too deeply.
* `State.Meets`, `State.PlainFrom` — what evaluation in a scope can meet, and states in which that
  is plain.
* `Confines`, `Value.ConfinedTo`, `State.ConfinedTo` — bounds for what evaluation runs, and values
  and states that keep to them.

## Main results

* `State.PlainFrom.confinedTo` — **what a scope leads to, with all that is still to be created, is
  such a bound.**
* `Builtin.apply_confinedTo`, `Value.at_confinedTo` — **operations on confined values give confined
  values.**
-/

namespace Monkey

/-! ### Plain expressions -/

/-- The names that mean the same everywhere, as nothing can be bound in their place, and by which
other code is run than bodies of functions. -/
def reservedNames : List String := ["eval", "launch", "await", "quote"]

/-- On every path in the expression there are at most `h` expressions, and none of them is a
reserved name. -/
structure Expr.Plain (h : Nat) (e : Expr) : Prop where
  length_le : ∀ {n : Nat} {p : Expr}, Path n e p → n ≤ h
  not_reserved : ∀ {n : Nat} {name : String}, name ∈ reservedNames → ¬Path n e (.ident name)

/-- Every statement of the block is plain. -/
def Block.Plain (h : Nat) (body : Block) : Prop := ∀ st ∈ body, st.value.Plain h

namespace Expr

variable {h : Nat} {e p : Expr}

theorem Plain.part (he : e.Plain (h + 1)) (hp : p ∈ e.parts) : p.Plain h where
  length_le hpath := Nat.le_of_succ_le_succ (he.length_le (.part hp hpath))
  not_reserved hname hpath := he.not_reserved hname (.part hp hpath)

theorem Plain.mono {k : Nat} (he : e.Plain h) (hk : h ≤ k) : e.Plain k :=
  ⟨fun hpath => Nat.le_trans (he.length_le hpath) hk, he.not_reserved⟩

/-- An expression that is only a name is no reserved one. -/
theorem Plain.name_not_mem {name : String} (he : (Expr.ident name).Plain h) :
    name ∉ reservedNames :=
  fun hname => he.not_reserved hname .here

theorem Plain.name?_ne {name : String} (he : e.Plain h) (hname : name ∈ reservedNames) :
    e.name? ≠ some name := by
  intro h
  rw [name?_eq_some_iff] at h
  subst h
  exact he.name_not_mem hname

/-- Every expression lies on a path of its own. -/
theorem not_plain_zero (e : Expr) : ¬e.Plain 0 := fun he =>
  Nat.not_succ_le_zero 0 (he.length_le .here)

/-- Whether an expression is plain shows in its parts. -/
theorem plain_succ_iff :
    e.Plain (h + 1) ↔ (∀ name ∈ reservedNames, e.name? ≠ some name) ∧ ∀ p ∈ e.parts, p.Plain h := by
  constructor
  · intro he
    exact ⟨fun name hname => he.name?_ne hname, fun p hp => he.part hp⟩
  · rintro ⟨hname, hparts⟩
    refine ⟨fun hpath => ?_, fun hreserved hpath => ?_⟩
    · cases hpath with
      | here => exact Nat.succ_le_succ (Nat.zero_le _)
      | part hp hpath => exact Nat.succ_le_succ ((hparts _ hp).length_le hpath)
    · cases hpath with
      | here => exact hname _ hreserved rfl
      | part hp hpath => exact (hparts _ hp).not_reserved hreserved hpath

instance decidablePlain : (h : Nat) → (e : Expr) → Decidable (e.Plain h)
  | 0, e => isFalse (not_plain_zero e)
  | h + 1, _ =>
    have := decidablePlain h
    decidable_of_iff _ plain_succ_iff.symm

end Expr

instance (h : Nat) (body : Block) : Decidable (body.Plain h) :=
  inferInstanceAs (Decidable (∀ st ∈ body, st.value.Plain h))

/-- No intrinsic has a name that is not reserved. -/
theorem Intrinsic.ofName?_eq_none {name : String} (h : name ∉ reservedNames) :
    Intrinsic.ofName? name = none := by
  refine List.find?_eq_none.2 fun i _ hi => h ?_
  rw [← beq_iff_eq.1 hi]
  cases i <;> decide

/-! ### Confined values -/

/-- The scopes that names may be looked up in, the number of expressions that may lie inside one
another in a body, and the limit on active calls. -/
structure Confines where
  scopes : Nat → Prop
  height : Nat
  limit : Nat

/-- Calling the value runs a plain body in one of the scopes, or nothing at all. -/
def Value.CallableIn (c : Confines) : Value → Prop
  | .function _ f => c.scopes f.scope ∧ f.body.Plain c.height
  | .intrinsic _ => False
  | _ => True

/-- Whatever the value holds may be called. -/
def Value.ConfinedTo (c : Confines) (v : Value) : Prop := ∀ w, v.Holds w → w.CallableIn c

section

variable {c : Confines}

namespace Value

/-- Data is never run. -/
theorem callableIn_of_isData (v : Value) (h : v.isData = true) : v.CallableIn c := by
  cases v with
  | function | intrinsic => cases h
  | _ => trivial

theorem ConfinedTo.of_isScalar {v : Value} (h : v.isScalar = true) : v.ConfinedTo c :=
  all_of_isScalar callableIn_of_isData h

theorem confinedTo_array_iff {addr : Nat} {elements : List Value} :
    (array addr elements).ConfinedTo c ↔ ∀ v ∈ elements, v.ConfinedTo c :=
  all_array_iff callableIn_of_isData

theorem confinedTo_hash_iff {addr : Nat} {entries : List (HashKey × Value)} :
    (hash addr entries).ConfinedTo c ↔ ∀ e ∈ entries, e.2.ConfinedTo c :=
  all_hash_iff callableIn_of_isData

theorem confinedTo_returned_iff {addr : Nat} {v : Value} :
    (returned addr v).ConfinedTo c ↔ v.ConfinedTo c :=
  all_returned_iff callableIn_of_isData

/-- A value with nothing inside is confined, if calling it is. -/
theorem confinedTo_iff_of_isLeaf {v : Value} (h : v.isLeaf = true) :
    v.ConfinedTo c ↔ v.CallableIn c :=
  all_iff_of_isLeaf h

theorem ConfinedTo.unwrapReturn {v : Value} (h : v.ConfinedTo c) : v.unwrapReturn.ConfinedTo c :=
  All.unwrapReturn h

/-- **Indexing a confined value gives a confined value.** -/
theorem at_confinedTo {base : Value} (h : base.ConfinedTo c) (position : Value)
    (fresh : Nat) : (base.at position fresh).ConfinedTo c :=
  at_all callableIn_of_isData h position fresh

end Value

/-- **A native function gives a confined value, if its arguments are confined.** -/
theorem Builtin.apply_confinedTo (b : Builtin) {args : List Value}
    (h : ∀ v ∈ args, v.ConfinedTo c) (fresh : Nat) : (b.apply args fresh).ConfinedTo c :=
  b.apply_all Value.callableIn_of_isData h fresh

/-! ### Confined states -/

/-- In a state with `depth` active calls no scope that names may be looked up in leads out of the
confines. -/
structure State.ConfinedTo (c : Confines) (depth : Nat) (s : State) : Prop where
  outer : ∀ {id outer : Nat}, c.scopes id → s.scopes.outer? id = some outer → c.scopes outer
  bound : ∀ {id : Nat} {name : String} {v : Value}, c.scopes id →
    (name, v) ∈ s.scopes.bindings id → v.ConfinedTo c
  /-- The scopes that are still to be created are among those of the confines. -/
  newScopes : ∀ {id : Nat}, s.scopes.size ≤ id → c.scopes id
  callDepth_eq : s.callDepth = depth
  maxCallDepth_eq : s.maxCallDepth = c.limit

namespace State.ConfinedTo

variable {depth : Nat} {s : State}

/-- A name that is looked up has a confined value. -/
theorem find? (h : s.ConfinedTo c depth) {name : String} {v : Value} {id : Nat} (hid : c.scopes id)
    (hfind : s.scopes.find? id name = some v) : v.ConfinedTo c := by
  obtain ⟨other, hother, hmem⟩ := Scopes.exists_mem_bindings_of_find? h.outer hid hfind
  exact h.bound hother hmem

theorem newScope (h : s.ConfinedTo c depth) {outer : Nat} (houter : c.scopes outer) :
    State.ConfinedTo c depth { s with scopes := s.scopes.add (some outer) } where
  outer {id o} hid ho := by
    rcases Scopes.outer?_of_add ho with ho | ⟨-, hlast⟩
    · exact h.outer hid ho
    · cases hlast
      exact houter
  bound hid hmem := h.bound hid (Scopes.mem_bindings_of_add hmem)
  newScopes hid := by
    rw [Scopes.size_add] at hid
    exact h.newScopes (Nat.le_of_succ_le hid)
  callDepth_eq := h.callDepth_eq
  maxCallDepth_eq := h.maxCallDepth_eq

theorem setName (h : s.ConfinedTo c depth) {v : Value} (hv : v.ConfinedTo c) (scope : Nat)
    (name : String) :
    State.ConfinedTo c depth { s with scopes := s.scopes.set scope name v } where
  outer hid ho := by
    rw [Scopes.outer?_set] at ho
    exact h.outer hid ho
  bound hid hmem := by
    rcases Scopes.mem_bindings_of_set hmem with rfl | hmem
    · exact hv
    · exact h.bound hid hmem
  newScopes hid := by
    rw [Scopes.size_set] at hid
    exact h.newScopes hid
  callDepth_eq := h.callDepth_eq
  maxCallDepth_eq := h.maxCallDepth_eq

end State.ConfinedTo

end

/-! ### What a scope leads to -/

/-- The scopes that evaluation in the scope `root` can come to: outwards, and through the functions
that are held by what the scopes bind. -/
inductive State.Meets (s : State) (root : Nat) : Nat → Prop
  | root : Meets s root root
  | outer {id outer : Nat} : Meets s root id → s.scopes.outer? id = some outer →
    Meets s root outer
  | closure {id addr : Nat} {name : String} {v : Value} {f : Closure} : Meets s root id →
    (name, v) ∈ s.scopes.bindings id → v.Holds (.function addr f) → Meets s root f.scope

/-- The values that evaluation in the scope `root` can come to: those that are held by what the
scopes bind. -/
def State.MeetsValue (s : State) (root : Nat) (w : Value) : Prop :=
  ∃ id name v, s.Meets root id ∧ (name, v) ∈ s.scopes.bindings id ∧ v.Holds w

/-- Evaluation in the scope `root` meets functions with plain bodies only, and no intrinsics. -/
structure State.PlainFrom (root h : Nat) (s : State) : Prop where
  body_plain : ∀ {addr : Nat} {f : Closure}, s.MeetsValue root (.function addr f) → f.body.Plain h
  not_intrinsic : ∀ {i : Intrinsic}, ¬s.MeetsValue root (.intrinsic i)

/-- What evaluation in a scope can come to, and all scopes that are still to be created. -/
def State.confines (s : State) (root h : Nat) : Confines where
  scopes id := s.Meets root id ∨ s.scopes.size ≤ id
  height := h
  limit := s.maxCallDepth

/-- **What a scope leads to confines evaluation**, together with all that is still to be created. -/
theorem State.PlainFrom.confinedTo {root h : Nat} {s : State} (hs : s.PlainFrom root h) :
    s.ConfinedTo (s.confines root h) s.callDepth where
  outer {id outer} hid houter := by
    rcases hid with hid | hid
    · exact Or.inl (hid.outer houter)
    · simp [Scopes.outer?, s.scopes.get?_of_size_le hid] at houter
  bound {id name v} hid hmem := by
    rcases hid with hid | hid
    · intro w hw
      have hmet : s.MeetsValue root w := ⟨id, name, v, hid, hmem, hw⟩
      cases w with
      | function addr f => exact ⟨Or.inl (hid.closure hmem hw), hs.body_plain hmet⟩
      | intrinsic i => exact hs.not_intrinsic hmet
      | _ => trivial
    · -- a scope that is still to be created binds nothing yet
      simp [Scopes.bindings, s.scopes.get?_of_size_le hid] at hmem
  newScopes := Or.inr
  callDepth_eq := rfl
  maxCallDepth_eq := rfl

/-- Conversely, evaluation in a scope of the confines meets nothing else. -/
theorem State.ConfinedTo.plainFrom {c : Confines} {depth root : Nat} {s : State}
    (hs : s.ConfinedTo c depth) (hroot : c.scopes root) : s.PlainFrom root c.height := by
  have hscopes : ∀ {id}, s.Meets root id → c.scopes id := by
    intro id hid
    induction hid with
    | root => exact hroot
    | outer _ houter ih => exact hs.outer ih houter
    | closure _ hmem hholds ih => exact (hs.bound ih hmem _ hholds).1
  have hvalues : ∀ {w}, s.MeetsValue root w → w.CallableIn c := by
    rintro w ⟨id, name, v, hid, hmem, hw⟩
    exact hs.bound (hscopes hid) hmem w hw
  exact ⟨fun hf => (hvalues hf).2, hvalues⟩

end Monkey
