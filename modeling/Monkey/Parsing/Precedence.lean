import Monkey.Expr
import Monkey.Token

/-!
# Binding strength

What can follow a finished operand, and how strongly each of these binds: comparisons for equality
least, then comparisons of size, sums, products, signs, calls, and indexing most.

## Main definitions

* `Precedence` — the levels of binding strength.
* `Suffix` — what can follow an operand.
* `Suffix.ofKind?`, `Suffix.precedence` — the suffix that a token starts, and its level.
-/

namespace Monkey

/-- The levels of binding strength, weakest first. -/
inductive Precedence
  | lowest
  | equality
  | comparison
  | sum
  | product
  | sign
  | call
  | index
  deriving DecidableEq, Repr, Inhabited

/-- The place of a level among the levels. -/
def Precedence.rank : Precedence → Nat
  | .lowest => 0
  | .equality => 1
  | .comparison => 2
  | .sum => 3
  | .product => 4
  | .sign => 5
  | .call => 6
  | .index => 7

instance : LT Precedence := ⟨fun p q => p.rank < q.rank⟩

instance (p q : Precedence) : Decidable (p < q) := inferInstanceAs (Decidable (p.rank < q.rank))

theorem Precedence.lt_iff {p q : Precedence} : p < q ↔ p.rank < q.rank := Iff.rfl

/-- The level of an infix operator. -/
def InfixOp.precedence : InfixOp → Precedence
  | .eq | .notEq => .equality
  | .lt | .gt => .comparison
  | .add | .sub => .sum
  | .mul | .div => .product

/-- The infix operator that a symbol stands for. -/
def InfixOp.ofSymbol? : Symbol → Option InfixOp
  | .plus => some .add
  | .minus => some .sub
  | .asterisk => some .mul
  | .slash => some .div
  | .lt => some .lt
  | .gt => some .gt
  | .eq => some .eq
  | .notEq => some .notEq
  | _ => none

/-- The symbol that an infix operator is written with. -/
def InfixOp.symbol : InfixOp → Symbol
  | .add => .plus
  | .sub => .minus
  | .mul => .asterisk
  | .div => .slash
  | .lt => .lt
  | .gt => .gt
  | .eq => .eq
  | .notEq => .notEq

@[simp] theorem InfixOp.ofSymbol?_symbol (op : InfixOp) : ofSymbol? op.symbol = some op := by
  cases op <;> rfl

@[simp] theorem InfixOp.text_symbol (op : InfixOp) : op.symbol.text = op.text := by
  cases op <;> rfl

/-- What can follow an operand. -/
inductive Suffix
  /-- An operator and its right operand. -/
  | operator (op : InfixOp)
  /-- Arguments between parentheses. -/
  | call
  /-- A position between brackets. -/
  | index
  deriving DecidableEq, Repr, Inhabited

namespace Suffix

/-- How strongly a suffix binds. -/
def precedence : Suffix → Precedence
  | .operator op => op.precedence
  | .call => .call
  | .index => .index

/-- The suffix that starts with a token of the given kind. -/
def ofKind? : TokenKind → Option Suffix
  | .symbol .lparen => some .call
  | .symbol .lbracket => some .index
  | .symbol sign => (InfixOp.ofSymbol? sign).map .operator
  | _ => none

end Suffix

end Monkey
