import Monkey.Expr
import Monkey.HashKey

/-!
# Values

What evaluation yields.  Integers, booleans, `null` and the native functions are plain values.  All
others are made by an allocation and carry its address, a number that tells two arrays with the
same elements apart.  Scopes and tasks are numbered as well.  An error is a value, and so is the
wrapper that a `return` statement makes; both end the evaluation of everything around them.

## Main definitions

* `Value` — the values.
* `Closure` — a function or macro literal with the scope that it was written in.
* `Builtin`, `Intrinsic` — the native functions, without and with access to the evaluator.
* `ValueType`, `Value.type` — the types that messages name.
-/

namespace Monkey

/-- A literal together with the scope that it was evaluated in. -/
structure Closure where
  params : List String
  body : Block
  /-- The number of the scope. -/
  scope : Nat
  deriving Inhabited

/-- The native functions that need their arguments only. -/
inductive Builtin
  | len
  | first
  | last
  | rest
  | push
  | puts
  deriving DecidableEq, Repr, Inhabited

namespace Builtin

/-- Every native function. -/
def all : List Builtin := [.len, .first, .last, .rest, .push, .puts]

/-- The name that a native function is called by. -/
def name : Builtin → String
  | .len => "len"
  | .first => "first"
  | .last => "last"
  | .rest => "rest"
  | .push => "push"
  | .puts => "puts"

/-- The native function of a given name. -/
def ofName? (name : String) : Option Builtin := all.find? fun b => b.name == name

theorem mem_all (b : Builtin) : b ∈ all := by cases b <;> simp [all]

@[simp] theorem ofName?_name (b : Builtin) : ofName? b.name = some b := by
  cases b <;> decide

end Builtin

/-- The native functions that need the evaluator: to run text, to start a task, to await one. -/
inductive Intrinsic
  | eval
  | launch
  | await
  deriving DecidableEq, Repr, Inhabited

namespace Intrinsic

/-- Every intrinsic. -/
def all : List Intrinsic := [.eval, .launch, .await]

/-- The name that is reserved for an intrinsic. -/
def name : Intrinsic → String
  | .eval => "eval"
  | .launch => "launch"
  | .await => "await"

/-- The intrinsic that a name is reserved for. -/
def ofName? (name : String) : Option Intrinsic := all.find? fun i => i.name == name

theorem mem_all (i : Intrinsic) : i ∈ all := by cases i <;> simp [all]

@[simp] theorem ofName?_name (i : Intrinsic) : ofName? i.name = some i := by
  cases i <;> decide

end Intrinsic

/-- A value. -/
inductive Value where
  | integer (value : Int64)
  | boolean (value : Bool)
  | null
  | string (addr : Nat) (text : String)
  | array (addr : Nat) (elements : List Value)
  /-- A hash; its entries are in the order of their keys. -/
  | hash (addr : Nat) (entries : List (HashKey × Value))
  | function (addr : Nat) (closure : Closure)
  /-- The value of a `return` statement on its way out. -/
  | returned (addr : Nat) (value : Value)
  | error (addr : Nat) (message : String)
  /-- Syntax as a value. -/
  | quote (addr : Nat) (syntaxTree : Expr)
  | macroFn (addr : Nat) (closure : Closure)
  | builtin (function : Builtin)
  | intrinsic (function : Intrinsic)
  /-- The handle of the task of a given number. -/
  | task (id : Nat)

instance : Inhabited Value := ⟨.null⟩

/-- The types that messages name. -/
inductive ValueType
  | integer
  | boolean
  | null
  | string
  | array
  | hash
  | function
  | returned
  | error
  | quote
  | macroFn
  | builtin
  | task
  deriving DecidableEq, Repr, Inhabited

/-- The name of a type. -/
def ValueType.name : ValueType → String
  | .integer => "INTEGER"
  | .boolean => "BOOLEAN"
  | .null => "NULL"
  | .string => "STRING"
  | .array => "ARRAY"
  | .hash => "HASH"
  | .function => "FUNCTION"
  | .returned => "RETURN_VALUE"
  | .error => "ERROR"
  | .quote => "QUOTE"
  | .macroFn => "MACRO"
  | .builtin => "BUILTIN"
  | .task => "THREAD_HANDLE"

theorem ValueType.name_injective {s t : ValueType} (h : s.name = t.name) : s = t := by
  revert h
  cases s <;> cases t <;> decide

namespace Value

/-- The type of a value; both sorts of native functions have the same. -/
def type : Value → ValueType
  | .integer _ => .integer
  | .boolean _ => .boolean
  | .null => .null
  | .string _ _ => .string
  | .array _ _ => .array
  | .hash _ _ => .hash
  | .function _ _ => .function
  | .returned _ _ => .returned
  | .error _ _ => .error
  | .quote _ _ => .quote
  | .macroFn _ _ => .macroFn
  | .builtin _ => .builtin
  | .intrinsic _ => .builtin
  | .task _ => .task

/-- The name of the type of a value. -/
def typeName (v : Value) : String := v.type.name

/-- Every value but `null` and `false` counts as true. -/
def isTruthy : Value → Bool
  | .null => false
  | .boolean false => false
  | _ => true

/-- Whether a value is `null`. -/
def isNull : Value → Bool
  | .null => true
  | _ => false

/-- Whether a value is an error. -/
def isError : Value → Bool
  | .error _ _ => true
  | _ => false

/-- Whether a value ends the evaluation of everything around it. -/
def isAbrupt : Value → Bool
  | .returned _ _ => true
  | .error _ _ => true
  | _ => false

/-- The text of a string. -/
def text? : Value → Option String
  | .string _ text => some text
  | _ => none

/-- The message of an error. -/
def message? : Value → Option String
  | .error _ message => some message
  | _ => none

/-- The value itself, or what a `return` statement wrapped. -/
def unwrapReturn : Value → Value
  | .returned _ value => value
  | value => value

/-- The key that a value serves as in a hash; only integers, booleans and strings do. -/
def hashKey? : Value → Option HashKey
  | .integer value => some (.int value)
  | .boolean value => some (.bool value)
  | .string _ text => some (.str text)
  | _ => none

/-- The literal that stands for a value, where there is one; quoted syntax stands for itself. -/
def toExpr? : Value → Option Expr
  | .integer value => some (.int value)
  | .boolean value => some (.bool value)
  | .string _ text => some (.str text)
  | .quote _ e => some e
  | _ => none

/-- What holds of `null` and of a value that may be missing holds with `null` in its place. -/
theorem getD_null_of {P : Value → Prop} {found : Option Value} (hnull : P .null)
    (h : ∀ v, found = some v → P v) : P (found.getD .null) := by
  cases found with
  | none => exact hnull
  | some v => exact h v rfl

end Value

/-- The value that a key stands for. -/
def HashKey.toValue (fresh : Nat) : HashKey → Value
  | .int value => .integer value
  | .bool value => .boolean value
  | .str text => .string fresh text

@[simp] theorem HashKey.hashKey?_toValue (fresh : Nat) (k : HashKey) :
    (k.toValue fresh).hashKey? = some k := by
  cases k <;> rfl

end Monkey
