import Monkey.Expr.Render
import Monkey.Text.Quoted
import Monkey.Value

/-!
# Values as text

There are two ways to write a value.  `inspect` is what programs print and what a session shows;
strings stand there without quotes.  `describe` names the sort of every part, and quotes strings.

## Main definitions

* `Value.inspect` — a value as programs see it.
* `Value.describe` — a value for those who look into the evaluator.
-/

namespace Monkey

/-- A closure after the word that says which sort it is. -/
def Closure.inspect (c : Closure) : String :=
  "(" ++ commaSeparated c.params ++ ") \x7b\n" ++ Block.render c.body ++ "\n\x7d"

mutual

/-- The text that programs print for a value. -/
def Value.inspect : Value → String
  | .integer value => toString value.toInt
  | .boolean true => "true"
  | .boolean false => "false"
  | .null => "null"
  | .string _ text => text
  | .array _ elements => "[" ++ commaSeparated (inspectAll elements) ++ "]"
  | .hash _ entries => "\x7b" ++ commaSeparated (inspectEntries entries) ++ "\x7d"
  | .function _ closure => "fn" ++ closure.inspect
  | .returned _ value => value.inspect
  | .error _ message => "ERROR: " ++ message
  | .quote _ e => "QUOTE(" ++ e.render ++ ")"
  | .macroFn _ closure => "macro" ++ closure.inspect
  | .builtin _ => "builtin function"
  | .intrinsic _ => "builtin function"
  | .task id => "thread#" ++ toString id

/-- The text of each value. -/
def inspectAll : List Value → List String
  | [] => []
  | v :: vs => v.inspect :: inspectAll vs

/-- The text of each entry of a hash. -/
def inspectEntries : List (HashKey × Value) → List String
  | [] => []
  | (key, v) :: rest => (key.inspect ++ ": " ++ v.inspect) :: inspectEntries rest

end

theorem inspectAll_eq_map (vs : List Value) : inspectAll vs = vs.map Value.inspect := by
  induction vs with
  | nil => rfl
  | cons v vs ih => simp [inspectAll, ih]

theorem inspectEntries_eq_map (es : List (HashKey × Value)) :
    inspectEntries es = es.map fun e => e.1.inspect ++ ": " ++ e.2.inspect := by
  induction es with
  | nil => rfl
  | cons e es ih => obtain ⟨k, v⟩ := e; simp [inspectEntries, ih]

/-- A key with its sort. -/
def HashKey.describe : HashKey → String
  | .int value => "Integer(" ++ toString value.toInt ++ ")"
  | .bool true => "Boolean(true)"
  | .bool false => "Boolean(false)"
  | .str text => "String(" ++ quoted text ++ ")"

/-- The parameters of a closure, its body and scope left out. -/
def Closure.describe (c : Closure) : String :=
  "FunctionValue \x7b parameters: " ++ quotedList c.params ++ ", .. \x7d"

mutual

/-- The text of a value with the sort of every part of it. -/
def Value.describe : Value → String
  | .integer value => "Integer(" ++ toString value.toInt ++ ")"
  | .boolean true => "Boolean(true)"
  | .boolean false => "Boolean(false)"
  | .null => "Null"
  | .string _ text => "String(" ++ quoted text ++ ")"
  | .array _ elements => "Array([" ++ commaSeparated (describeAll elements) ++ "])"
  | .hash _ entries => "Hash(\x7b" ++ commaSeparated (describeEntries entries) ++ "\x7d)"
  | .function _ closure => "Function(" ++ closure.describe ++ ")"
  | .returned _ value => "Return(" ++ value.describe ++ ")"
  | .error _ message => "Error(" ++ quoted message ++ ")"
  | .quote _ e => "Quote(" ++ e.render ++ ")"
  | .macroFn _ closure => "Macro(" ++ closure.describe ++ ")"
  | .builtin function => "Builtin(" ++ function.name ++ ")"
  | .intrinsic function => "Intrinsic(" ++ function.name ++ ")"
  | .task id => "ThreadHandle(" ++ toString id ++ ")"

/-- The described form of each value. -/
def describeAll : List Value → List String
  | [] => []
  | v :: vs => v.describe :: describeAll vs

/-- The described form of each entry of a hash. -/
def describeEntries : List (HashKey × Value) → List String
  | [] => []
  | (key, v) :: rest => (key.describe ++ ": " ++ v.describe) :: describeEntries rest

end

end Monkey
