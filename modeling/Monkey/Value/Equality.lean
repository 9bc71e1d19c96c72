import Monkey.Value

/-!
# Two notions of equality

Identical values are the same scalar, the same native function, the same task, or made by the same
allocation.  Equal values may also be strings, errors, arrays, hashes or `return` wrappers of
different allocations whose contents are equal; closures and quoted syntax have no contents to
compare.

## Main definitions

* `Value.identical` — what the language compares.
* `Value.equal` — equality of contents.
-/

namespace Monkey

/-- Whether two values are the same thing. -/
def Value.identical : Value → Value → Bool
  | .integer a, .integer b => a == b
  | .boolean a, .boolean b => a == b
  | .null, .null => true
  | .string a _, .string b _ => a == b
  | .array a _, .array b _ => a == b
  | .hash a _, .hash b _ => a == b
  | .function a _, .function b _ => a == b
  | .returned a _, .returned b _ => a == b
  | .error a _, .error b _ => a == b
  | .quote a _, .quote b _ => a == b
  | .macroFn a _, .macroFn b _ => a == b
  | .builtin a, .builtin b => a == b
  | .intrinsic a, .intrinsic b => a == b
  | .task a, .task b => a == b
  | _, _ => false

mutual

/-- Whether two values have equal contents, or else are the same thing. -/
def Value.equal : Value → Value → Bool
  | .string _ a, .string _ b => a == b
  | .error _ a, .error _ b => a == b
  | .array _ a, .array _ b => equalAll a b
  | .hash _ a, .hash _ b => equalEntries a b
  | .returned _ a, .returned _ b => a.equal b
  | a, b => a.identical b

/-- Whether two lists hold equal values in the same order. -/
def equalAll : List Value → List Value → Bool
  | [], [] => true
  | a :: as, b :: bs => a.equal b && equalAll as bs
  | _, _ => false

/-- Whether two hashes have the same keys with equal values. -/
def equalEntries : List (HashKey × Value) → List (HashKey × Value) → Bool
  | [], [] => true
  | (k, a) :: as, (l, b) :: bs => k == l && a.equal b && equalEntries as bs
  | _, _ => false

end

theorem Value.identical_refl (v : Value) : v.identical v = true := by
  cases v <;> simp [Value.identical]

theorem Value.identical_symm (v w : Value) : v.identical w = w.identical v := by
  cases v <;> cases w <;> simp [Value.identical, Bool.beq_comm]

end Monkey
