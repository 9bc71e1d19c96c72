import Monkey.EvalError
import Monkey.Value.Equality

/-!
# Operators

What the operators make of their operands.  Integer arithmetic wraps around in sixty-four bits, and
division truncates.  Operands of different types never fit together; operands of one type that is
neither integer nor string can only be compared for being the same.

An operator makes at most one allocation, for which it is given a fresh address.

## Main definitions

* `PrefixOp.apply`, `InfixOp.apply` — the value of an operator on its operands.
* `Value.at` — the value at a position of an array or under a key of a hash.
-/

namespace Monkey

/-- The value of a prefix operator on its operand. -/
def PrefixOp.apply (op : PrefixOp) (right : Value) (fresh : Nat) : Value :=
  match op, right with
  | .not, right => .boolean !right.isTruthy
  | .neg, .integer n => .integer (-n)
  | .neg, right => (EvalError.unknownPrefixOperator .neg right.type).toValue fresh

namespace InfixOp

/-- The value of an infix operator on two integers. -/
def applyIntegers (op : InfixOp) (a b : Int64) (fresh : Nat) : Value :=
  match op with
  | .add => .integer (a + b)
  | .sub => .integer (a - b)
  | .mul => .integer (a * b)
  | .div => if b = 0 then EvalError.divisionByZero.toValue fresh else .integer (a / b)
  | .lt => .boolean (a < b)
  | .gt => .boolean (b < a)
  | .eq => .boolean (a == b)
  | .notEq => .boolean (a != b)

/-- The value of an infix operator on two strings. -/
def applyStrings (op : InfixOp) (a b : String) (fresh : Nat) : Value :=
  match op with
  | .add => .string fresh (a ++ b)
  | .eq => .boolean (a == b)
  | .notEq => .boolean (a != b)
  | op => (EvalError.unknownInfixOperator .string op .string).toValue fresh

/-- The value of an infix operator on two values that are neither both integers nor both
strings. -/
def applyOthers (op : InfixOp) (left right : Value) (fresh : Nat) : Value :=
  if left.type ≠ right.type then
    (EvalError.typeMismatch left.type op right.type).toValue fresh
  else
    match op with
    | .eq => .boolean (left.identical right)
    | .notEq => .boolean !left.identical right
    | op => (EvalError.unknownInfixOperator left.type op right.type).toValue fresh

/-- The value of an infix operator on its operands. -/
def apply (op : InfixOp) (left right : Value) (fresh : Nat) : Value :=
  match left, right with
  | .integer a, .integer b => op.applyIntegers a b fresh
  | .string _ a, .string _ b => op.applyStrings a b fresh
  | left, right => op.applyOthers left right fresh

end InfixOp

/-- The element at a position of an array; outside of the array it is `null`. -/
def elementAt (elements : List Value) (position : Int64) : Value :=
  if position < 0 then .null else elements[position.toInt.toNat]?.getD .null

/-- The value at a position of an array or under a key of a hash. -/
def Value.at (base position : Value) (fresh : Nat) : Value :=
  match base, position with
  | .array _ elements, .integer i => elementAt elements i
  | .hash _ entries, position =>
    match position.hashKey? with
    | some key => (Entries.find? key entries).getD .null
    | none => (EvalError.unusableAsHashKey position.type).toValue fresh
  | base, _ => (EvalError.indexNotSupported base.type).toValue fresh

end Monkey
