import Monkey.Evaluation

/-!
# What values hold

Arrays and hashes have other values inside, and so has the wrapper of a `return`.  A property that
holds of all that is inside the operands of an operation holds of all that is inside its result: the
operations of the language take values out, put them together anew, and make data that has nothing
inside.  Only calls, literals and the intrinsics make functions and handles of tasks.

## Main definitions

* `Value.Holds` — having a value inside.
* `Value.All` — a property of a value and of everything inside it.
* `Value.IsNew` — data of a given allocation.

## Main results

* `Value.at_all_of_new`, `Builtin.apply_all_of_new` — **operations keep to what their operands
  hold**, but for what they make themselves.
* `Value.at_all`, `Builtin.apply_all` — so they keep to it, if it holds of all data.
-/

namespace Monkey

/-- The first value is the second one or has it inside, in arrays, hashes or the wrapper of a
`return`. -/
inductive Value.Holds : Value → Value → Prop
  | self {v : Value} : Holds v v
  | element {addr : Nat} {elements : List Value} {v w : Value} :
    v ∈ elements → Holds v w → Holds (.array addr elements) w
  | entry {addr : Nat} {entries : List (HashKey × Value)} {e : HashKey × Value} {w : Value} :
    e ∈ entries → Holds e.2 w → Holds (.hash addr entries) w
  | returned {addr : Nat} {v w : Value} : Holds v w → Holds (.returned addr v) w

namespace Value

/-- The property holds of the value and of everything inside it. -/
def All (P : Value → Prop) (v : Value) : Prop := ∀ w, v.Holds w → P w

/-- Whether a value has nothing inside. -/
def isLeaf : Value → Bool
  | .array _ _ | .hash _ _ | .returned _ _ => false
  | _ => true

/-- Whether a value is neither something to be called nor the handle of a task. -/
def isData : Value → Bool
  | .function _ _ | .macroFn _ _ | .builtin _ | .intrinsic _ | .task _ => false
  | _ => true

/-- Whether a value is data with nothing inside. -/
def isScalar (v : Value) : Bool := v.isLeaf && v.isData

/-- The address of the allocation that made the value. -/
def addr? : Value → Option Nat
  | .string addr _ | .array addr _ | .hash addr _ | .function addr _ | .returned addr _
  | .error addr _ | .quote addr _ | .macroFn addr _ => some addr
  | _ => none

/-- Data that no allocation made, or the one with the given address did. -/
def IsNew (fresh : Nat) (v : Value) : Prop :=
  v.isData = true ∧ ∀ addr, v.addr? = some addr → addr = fresh

section

variable {P Q : Value → Prop} {v : Value}

theorem all_iff_of_isLeaf (h : v.isLeaf = true) : v.All P ↔ P v := by
  refine ⟨fun hall => hall v .self, fun hv w hw => ?_⟩
  cases hw with
  | self => exact hv
  | element | entry | returned => cases h

theorem All.imp (h : v.All P) (hPQ : ∀ w, P w → Q w) : v.All Q := fun w hw => hPQ w (h w hw)

theorem all_array {addr : Nat} {elements : List Value} :
    (array addr elements).All P ↔ P (array addr elements) ∧ ∀ v ∈ elements, v.All P := by
  refine ⟨fun h => ⟨h _ .self, fun v hv w hw => h w (.element hv hw)⟩, fun h w hw => ?_⟩
  cases hw with
  | self => exact h.1
  | element hv hw => exact h.2 _ hv w hw

theorem all_hash {addr : Nat} {entries : List (HashKey × Value)} :
    (hash addr entries).All P ↔ P (hash addr entries) ∧ ∀ e ∈ entries, e.2.All P := by
  refine ⟨fun h => ⟨h _ .self, fun e he w hw => h w (.entry he hw)⟩, fun h w hw => ?_⟩
  cases hw with
  | self => exact h.1
  | entry he hw => exact h.2 _ he w hw

theorem all_returned {addr : Nat} :
    (returned addr v).All P ↔ P (returned addr v) ∧ v.All P := by
  refine ⟨fun h => ⟨h _ .self, fun w hw => h w (.returned hw)⟩, fun h w hw => ?_⟩
  cases hw with
  | self => exact h.1
  | returned hw => exact h.2 w hw

theorem All.unwrapReturn (h : v.All P) : v.unwrapReturn.All P := by
  cases v with
  | returned addr value => exact (all_returned.1 h).2
  | _ => exact h

/-! A property that is about functions and handles holds of all data. -/

variable (hP : ∀ w : Value, w.isData = true → P w)

include hP

theorem all_array_iff {addr : Nat} {elements : List Value} :
    (array addr elements).All P ↔ ∀ v ∈ elements, v.All P :=
  all_array.trans (and_iff_right (hP _ rfl))

theorem all_hash_iff {addr : Nat} {entries : List (HashKey × Value)} :
    (hash addr entries).All P ↔ ∀ e ∈ entries, e.2.All P :=
  all_hash.trans (and_iff_right (hP _ rfl))

theorem all_returned_iff {addr : Nat} : (returned addr v).All P ↔ v.All P :=
  all_returned.trans (and_iff_right (hP _ rfl))

theorem all_of_isScalar (h : v.isScalar = true) : v.All P := by
  obtain ⟨hleaf, hdata⟩ := Bool.and_eq_true_iff.1 h
  exact (all_iff_of_isLeaf hleaf).2 (hP v hdata)

end

end Value

/-! ### Operations -/

theorem PrefixOp.isScalar_apply (op : PrefixOp) (v : Value) (fresh : Nat) :
    (op.apply v fresh).isScalar = true := by
  unfold PrefixOp.apply
  split <;> rfl

theorem InfixOp.isScalar_apply (op : InfixOp) (v w : Value) (fresh : Nat) :
    (op.apply v w fresh).isScalar = true := by
  unfold InfixOp.apply
  split
  · cases op with
    | div =>
      -- only division can go wrong
      simp only [InfixOp.applyIntegers]
      split <;> rfl
    | _ => rfl
  · unfold InfixOp.applyStrings
    split <;> rfl
  · unfold InfixOp.applyOthers
    split
    · rfl
    · split <;> rfl

/-! What they make anew -/

theorem Value.isNew_null (fresh : Nat) : Value.null.IsNew fresh := ⟨rfl, fun _ h => nomatch h⟩

theorem Value.isNew_integer (fresh : Nat) (n : Int64) : (Value.integer n).IsNew fresh :=
  ⟨rfl, fun _ h => nomatch h⟩

theorem Value.isNew_boolean (fresh : Nat) (b : Bool) : (Value.boolean b).IsNew fresh :=
  ⟨rfl, fun _ h => nomatch h⟩

theorem Value.isNew_string (fresh : Nat) (text : String) : (Value.string fresh text).IsNew fresh :=
  ⟨rfl, fun _ h => (Option.some.inj h).symm⟩

theorem Value.isNew_array (fresh : Nat) (elements : List Value) :
    (Value.array fresh elements).IsNew fresh :=
  ⟨rfl, fun _ h => (Option.some.inj h).symm⟩

theorem Value.isNew_quote (fresh : Nat) (e : Expr) : (Value.quote fresh e).IsNew fresh :=
  ⟨rfl, fun _ h => (Option.some.inj h).symm⟩

theorem EvalError.isNew_toValue (e : EvalError) (fresh : Nat) : (e.toValue fresh).IsNew fresh :=
  ⟨rfl, fun _ h => (Option.some.inj h).symm⟩

theorem PrefixOp.isNew_apply (op : PrefixOp) (v : Value) (fresh : Nat) :
    (op.apply v fresh).IsNew fresh := by
  unfold PrefixOp.apply
  split
  · exact Value.isNew_boolean _ _
  · exact Value.isNew_integer _ _
  · exact EvalError.isNew_toValue _ _

theorem InfixOp.isNew_apply (op : InfixOp) (v w : Value) (fresh : Nat) :
    (op.apply v w fresh).IsNew fresh := by
  unfold InfixOp.apply
  split
  -- operands are two integers, two strings, or others
  · unfold InfixOp.applyIntegers
    split
    · exact Value.isNew_integer _ _
    · exact Value.isNew_integer _ _
    · exact Value.isNew_integer _ _
    · split
      · exact EvalError.isNew_toValue _ _
      · exact Value.isNew_integer _ _
    all_goals exact Value.isNew_boolean _ _
  · unfold InfixOp.applyStrings
    split
    · exact Value.isNew_string _ _
    · exact Value.isNew_boolean _ _
    · exact Value.isNew_boolean _ _
    · exact EvalError.isNew_toValue _ _
  · unfold InfixOp.applyOthers
    split
    · exact EvalError.isNew_toValue _ _
    · split
      · exact Value.isNew_boolean _ _
      · exact Value.isNew_boolean _ _
      · exact EvalError.isNew_toValue _ _

section

variable {P : Value → Prop}

/-- An entry that is put into a hash replaces another one or joins the others. -/
theorem Entries.insert_all {entries : Entries Value} {key : HashKey} {v : Value} (hv : v.All P)
    (h : ∀ e ∈ entries, e.2.All P) : ∀ e ∈ Entries.insert key v entries, e.2.All P := by
  intro e he
  rcases Entries.mem_insert he with rfl | he
  · exact hv
  · exact h e he

/-- A new value with nothing inside has the property, if new values do. -/
theorem Value.all_of_new {v : Value} {fresh : Nat} (hnew : v.IsNew fresh → P v)
    (hleaf : v.isLeaf = true) (hv : v.IsNew fresh) : v.All P :=
  (all_iff_of_isLeaf hleaf).2 (hnew hv)

/-- What is found where nothing need be has the property, if new values do. -/
theorem Value.all_getD_of_new {found : Option Value} {fresh : Nat}
    (hnew : (found.getD .null).IsNew fresh → P (found.getD .null))
    (h : ∀ v, found = some v → v.All P) : (found.getD .null).All P := by
  cases found with
  | none => exact all_of_new hnew rfl (isNew_null fresh)
  | some v => exact h v rfl

variable {fresh : Nat}

/-- **Indexing gives what the base holds, or something new.** -/
theorem Value.at_all_of_new {base : Value} (h : base.All P) (position : Value)
    (hnew : (base.at position fresh).IsNew fresh → P (base.at position fresh)) :
    (base.at position fresh).All P := by
  revert hnew
  unfold Value.at
  split
  · have helements := (all_array.1 h).2
    unfold elementAt
    split
    · exact fun hnew => all_of_new hnew rfl (isNew_null fresh)
    · exact fun hnew => all_getD_of_new hnew fun v hv => helements v (List.mem_of_getElem? hv)
  · have hentries := (all_hash.1 h).2
    split
    · exact fun hnew => all_getD_of_new hnew fun v hv => hentries _ (Entries.mem_of_find? hv)
    · exact fun hnew => all_of_new hnew rfl (EvalError.isNew_toValue _ _)
  · exact fun hnew => all_of_new hnew rfl (EvalError.isNew_toValue _ _)

theorem Builtin.applyArray_all_of_new (b : Builtin) {elements more : List Value}
    (he : ∀ v ∈ elements, v.All P) (hm : ∀ v ∈ more, v.All P)
    (hnew : (b.applyArray elements more fresh).IsNew fresh →
      P (b.applyArray elements more fresh)) : (b.applyArray elements more fresh).All P := by
  cases b with
  | first => exact Value.all_getD_of_new hnew fun v hv => he v (List.mem_of_head? hv)
  | last => exact Value.all_getD_of_new hnew fun v hv => he v (List.mem_of_getLast? hv)
  | rest =>
    cases elements with
    | nil => exact Value.all_of_new hnew rfl (Value.isNew_null fresh)
    | cons v tail =>
      exact Value.all_array.2 ⟨hnew (Value.isNew_array _ _), (List.forall_mem_cons.1 he).2⟩
  | push =>
    refine Value.all_array.2 ⟨hnew (Value.isNew_array _ _), fun v hv => ?_⟩
    exact (List.mem_append.1 hv).elim (he v) (hm v)
  | len | puts => exact Value.all_of_new hnew rfl (Value.isNew_null fresh)

/-- **A native function gives what its arguments hold, or something new made of it.** -/
theorem Builtin.apply_all_of_new (b : Builtin) {args : List Value} (h : ∀ v ∈ args, v.All P)
    (hnew : (b.apply args fresh).IsNew fresh → P (b.apply args fresh)) :
    (b.apply args fresh).All P := by
  revert hnew
  unfold Builtin.apply
  split
  · exact fun hnew => Value.all_of_new hnew rfl (Value.isNew_null fresh)
  split
  · exact fun hnew => Value.all_of_new hnew rfl (EvalError.isNew_toValue _ _)
  split
  · unfold Builtin.applyLen
    split
    · exact fun hnew => Value.all_of_new hnew rfl (Value.isNew_integer _ _)
    · exact fun hnew => Value.all_of_new hnew rfl (Value.isNew_integer _ _)
    · exact fun hnew => Value.all_of_new hnew rfl (EvalError.isNew_toValue _ _)
  · rw [List.forall_mem_cons, Value.all_array] at h
    exact Builtin.applyArray_all_of_new _ h.1.2 h.2
  · exact fun hnew => Value.all_of_new hnew rfl (EvalError.isNew_toValue _ _)
  · exact fun hnew => Value.all_of_new hnew rfl (Value.isNew_null fresh)

/-! Operations that are given the property of all data. -/

variable (hP : ∀ w : Value, w.isData = true → P w)

include hP

/-- **Indexing gives what the base holds, or data.** -/
theorem Value.at_all {base : Value} (h : base.All P) (position : Value) (fresh : Nat) :
    (base.at position fresh).All P :=
  at_all_of_new h position fun hnew => hP _ hnew.1

/-- **A native function gives what its arguments hold, put together anew, or data.** -/
theorem Builtin.apply_all (b : Builtin) {args : List Value} (h : ∀ v ∈ args, v.All P)
    (fresh : Nat) : (b.apply args fresh).All P :=
  b.apply_all_of_new h fun hnew => hP _ hnew.1

end

end Monkey
