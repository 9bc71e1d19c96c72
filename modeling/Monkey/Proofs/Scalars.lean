import Monkey.Proofs.Budget

/-!
# Expressions over scalars

Integers, truth values and texts can be computed with in a part of the language that needs no names
and no statements but single expressions in the branches of conditionals.  That part has types.
What a well-typed expression means can be said without an evaluator: it is an integer of sixty-four
bits, a truth value or a text, unless a division by zero is come to.

## Main definitions

* `Scalar`, `ScalarType` — integers, truth values and texts, and their types.
* `Expr.HasType` — well-typed expressions.
* `Expr.meaning` — what a well-typed expression means.
* `Expr.ComesTo`, `Expr.DividesByZero` — what evaluation from left to right comes to.
* `Expr.YieldsMeaning` — evaluation within a budget yields what is meant.

## Main results

* `meaning_eq_none_iff` — a well-typed expression means nothing exactly if it divides by zero.
* `HasType.exists_yieldsMeaning` — evaluation yields the meaning.
* `well_typed_scalars_evaluate` — **well-typed expressions do not go wrong.**
-/

namespace Monkey

open Eval

/-! ### Types and meanings -/

/-- The types of scalars. -/
inductive ScalarType
  | integer
  | boolean
  | string
  deriving DecidableEq, Repr

/-- An integer, a truth value or a text. -/
inductive Scalar
  | int (n : Int)
  | bool (b : Bool)
  | str (text : String)
  deriving DecidableEq, Repr

namespace Scalar

/-- The type of a scalar. -/
def type : Scalar → ScalarType
  | .int _ => .integer
  | .bool _ => .boolean
  | .str _ => .string

/-- Every scalar but `false` counts as true. -/
def isTruthy : Scalar → Bool
  | .bool b => b
  | _ => true

end Scalar

/-- The integer of sixty-four bits, in two's complement, that differs from a given integer by a
multiple of `2 ^ 64`. -/
def wrap (n : Int) : Int := n.bmod (Nat.pow 2 64)

namespace PrefixOp

/-- The type of a prefix operator on an operand of a given type, if it takes that. -/
def resultType? : PrefixOp → ScalarType → Option ScalarType
  | .not, _ => some .boolean
  | .neg, .integer => some .integer
  | .neg, _ => none

/-- What a prefix operator makes of a scalar. -/
def meaning : PrefixOp → Scalar → Option Scalar
  | .not, x => some (.bool !x.isTruthy)
  | .neg, .int n => some (.int (wrap (-n)))
  | .neg, _ => none

end PrefixOp

namespace InfixOp

/-- The type of an infix operator on two operands of a given type, if it takes those. -/
def resultType? : InfixOp → ScalarType → Option ScalarType
  | op, .integer => some (if op.isComparison then .boolean else .integer)
  | .add, .string => some .string
  | .eq, .string | .notEq, .string | .eq, .boolean | .notEq, .boolean => some .boolean
  | _, _ => none

/-- What an infix operator makes of two scalars.  Division rounds towards zero; by zero there is
none. -/
def meaning : InfixOp → Scalar → Scalar → Option Scalar
  | .add, .int a, .int b => some (.int (wrap (a + b)))
  | .sub, .int a, .int b => some (.int (wrap (a - b)))
  | .mul, .int a, .int b => some (.int (wrap (a * b)))
  | .div, .int a, .int b => if b = 0 then none else some (.int (wrap (a.tdiv b)))
  | .lt, .int a, .int b => some (.bool (a < b))
  | .gt, .int a, .int b => some (.bool (a > b))
  | .add, .str a, .str b => some (.str (a ++ b))
  | .eq, x, y => some (.bool (x = y))
  | .notEq, x, y => some (.bool (x ≠ y))
  | _, _, _ => none

end InfixOp

namespace Expr

/-- The expressions over scalars, with their types. -/
inductive HasType : Expr → ScalarType → Prop
  | int {value : Int64} : HasType (.int value) .integer
  | bool {value : Bool} : HasType (.bool value) .boolean
  | str {text : String} : HasType (.str text) .string
  | unary {op : PrefixOp} {right : Expr} {σ τ : ScalarType} :
    HasType right σ → op.resultType? σ = some τ → HasType (.unary op right) τ
  | binary {op : InfixOp} {left right : Expr} {σ τ : ScalarType} :
    HasType left σ → HasType right σ → op.resultType? σ = some τ →
    HasType (.binary op left right) τ
  /-- The condition may be of any type; both branches are single expressions of one type. -/
  | cond {condition consequence alternative : Expr} {σ τ : ScalarType} :
    HasType condition σ → HasType consequence τ → HasType alternative τ →
    HasType (.cond condition [.expr consequence] (some [.expr alternative])) τ

/-- What an expression means.  Well-typed expressions mean a scalar, or nothing if a division by
zero is come to. -/
def meaning : Expr → Option Scalar
  | .int value => some (.int value.toInt)
  | .bool value => some (.bool value)
  | .str text => some (.str text)
  | .unary op right => right.meaning.bind op.meaning
  | .binary op left right =>
    left.meaning.bind fun x => right.meaning.bind fun y => op.meaning x y
  | .cond condition [.expr consequence] (some [.expr alternative]) =>
    condition.meaning.bind fun x =>
      if x.isTruthy then consequence.meaning else alternative.meaning
  | _ => none
termination_by e => sizeOf e

/-- Evaluating the first expression from left to right comes to the second one.  The right operand
is come to if the left one means something, and a branch if the condition chooses it. -/
inductive ComesTo : Expr → Expr → Prop
  | here {e : Expr} : ComesTo e e
  | operand {op : PrefixOp} {right d : Expr} : ComesTo right d → ComesTo (.unary op right) d
  | left {op : InfixOp} {left right d : Expr} : ComesTo left d → ComesTo (.binary op left right) d
  | right {op : InfixOp} {left right d : Expr} {x : Scalar} :
    left.meaning = some x → ComesTo right d → ComesTo (.binary op left right) d
  | condition {c d : Expr} {consequence : Block} {alternative : Option Block} :
    ComesTo c d → ComesTo (.cond c consequence alternative) d
  | consequence {c e d : Expr} {alternative : Option Block} {x : Scalar} :
    c.meaning = some x → x.isTruthy = true → ComesTo e d →
    ComesTo (.cond c [.expr e] alternative) d
  | alternative {c e d : Expr} {consequence : Block} {x : Scalar} :
    c.meaning = some x → x.isTruthy = false → ComesTo e d →
    ComesTo (.cond c consequence (some [.expr e])) d

/-- Evaluation comes to a division of something by zero. -/
def DividesByZero (e : Expr) : Prop :=
  ∃ left right x, e.ComesTo (.binary .div left right) ∧ left.meaning = some x ∧
    right.meaning = some (.int 0)

end Expr

/-! ### Operators on scalars -/

section

variable {x y : Scalar} {τ : ScalarType}

theorem PrefixOp.exists_meaning {op : PrefixOp} (hop : op.resultType? x.type = some τ) :
    ∃ z, op.meaning x = some z ∧ z.type = τ := by
  cases op with
  | not =>
    cases hop
    exact ⟨_, rfl, rfl⟩
  | neg =>
    cases x with
    | int n =>
      cases hop
      exact ⟨_, rfl, rfl⟩
    | _ => cases hop

/-- An operator makes a scalar of operands that it takes, unless it divides by zero. -/
theorem InfixOp.meaning_cases {op : InfixOp} (htype : y.type = x.type)
    (hop : op.resultType? x.type = some τ) :
    (∃ z, op.meaning x y = some z ∧ z.type = τ) ∨
      op.meaning x y = none ∧ op = .div ∧ y = .int 0 := by
  -- the operands are of one type, so that the other cases cannot be
  cases x with
  | int a =>
    cases y with
    | int b =>
      cases hop
      cases op with
      | div =>
        -- only division can fail
        by_cases hb : b = 0
        · exact Or.inr ⟨if_pos hb, rfl, congrArg Scalar.int hb⟩
        · exact Or.inl ⟨_, if_neg hb, rfl⟩
      | _ => exact Or.inl ⟨_, rfl, rfl⟩
    | _ => cases htype
  | bool a =>
    cases y with
    | bool b =>
      refine Or.inl ?_
      cases op with
      | eq | notEq =>
        cases hop
        exact ⟨_, rfl, rfl⟩
      | _ => cases hop
    | _ => cases htype
  | str a =>
    cases y with
    | str b =>
      refine Or.inl ?_
      cases op with
      | add | eq | notEq =>
        cases hop
        exact ⟨_, rfl, rfl⟩
      | _ => cases hop
    | _ => cases htype

/-- For operands that it takes an operator means nothing exactly if it divides by zero. -/
theorem InfixOp.meaning_eq_none_iff {op : InfixOp} (htype : y.type = x.type)
    (hop : op.resultType? x.type = some τ) :
    op.meaning x y = none ↔ op = .div ∧ y = .int 0 := by
  constructor
  · intro hnone
    rcases meaning_cases htype hop with ⟨z, hz, -⟩ | ⟨-, hdivides⟩
    · rw [hnone] at hz
      cases hz
    · exact hdivides
  · rintro ⟨rfl, rfl⟩
    cases x <;> rfl

end

/-- The scalar that a value is, if it is one. -/
def Value.scalar? : Value → Option Scalar
  | .integer value => some (.int value.toInt)
  | .boolean value => some (.bool value)
  | .string _ text => some (.str text)
  | _ => none

/-- The value is the scalar that is meant, or else the error that a division by zero yields. -/
def Value.StandsFor (v : Value) : Option Scalar → Prop
  | some x => v.scalar? = some x
  | none => ∃ addr, v = .error addr "division by zero"

section

variable {v w : Value} {x y : Scalar} {τ : ScalarType}

theorem isAbrupt_of_scalar? (h : v.scalar? = some x) : v.isAbrupt = false := by
  cases v <;> first | rfl | cases h

theorem isTruthy_of_scalar? (h : v.scalar? = some x) : v.isTruthy = x.isTruthy := by
  cases v with
  | integer | string => cases h; rfl
  | boolean b => cases h; cases b <;> rfl
  | _ => cases h

/-- A prefix operator yields what it makes of the scalar that its operand is. -/
theorem PrefixOp.apply_standsFor {op : PrefixOp} (hv : v.scalar? = some x)
    (hop : op.resultType? x.type = some τ) (fresh : Nat) :
    (op.apply v fresh).StandsFor (op.meaning x) := by
  cases op with
  | not => exact congrArg (fun b => some (Scalar.bool !b)) (isTruthy_of_scalar? hv)
  | neg =>
    cases v with
    | integer value =>
      cases hv
      exact congrArg (some ∘ Scalar.int) (Int64.toInt_neg value)
    | boolean | string => cases hv; cases hop
    | _ => cases hv

theorem applyIntegers_standsFor (op : InfixOp) (a b : Int64) (fresh : Nat) :
    (op.applyIntegers a b fresh).StandsFor (op.meaning (.int a.toInt) (.int b.toInt)) := by
  -- integers of 64 bits are equal exactly if they stand for one integer
  have heq : (a == b) = decide (Scalar.int a.toInt = .int b.toInt) := by
    rw [Bool.eq_iff_iff]
    simp [Int64.toInt_inj]
  cases op with
  | add => exact congrArg (some ∘ Scalar.int) (Int64.toInt_add a b)
  | sub => exact congrArg (some ∘ Scalar.int) (Int64.toInt_sub a b)
  | mul => exact congrArg (some ∘ Scalar.int) (Int64.toInt_mul a b)
  | div =>
    by_cases hb : b = 0
    · subst hb
      exact ⟨fresh, rfl⟩
    · have hne : b.toInt ≠ 0 := fun h => hb (Int64.toInt_inj.1 h)
      rw [InfixOp.applyIntegers, if_neg hb, InfixOp.meaning, if_neg hne]
      exact congrArg (some ∘ Scalar.int) (Int64.toInt_div a b)
  | lt => exact congrArg (some ∘ Scalar.bool) (decide_eq_decide.2 Int64.lt_iff_toInt_lt)
  | gt => exact congrArg (some ∘ Scalar.bool) (decide_eq_decide.2 Int64.lt_iff_toInt_lt)
  | eq => exact congrArg (some ∘ Scalar.bool) heq
  | notEq =>
    refine congrArg (some ∘ Scalar.bool) ?_
    rw [decide_not, ← heq]
    rfl

theorem applyStrings_standsFor {op : InfixOp} (a b : String)
    (hop : op.resultType? .string = some τ) (fresh : Nat) :
    (op.applyStrings a b fresh).StandsFor (op.meaning (.str a) (.str b)) := by
  have heq : (a == b) = decide (Scalar.str a = .str b) := by
    rw [Bool.eq_iff_iff]
    simp
  cases op with
  | add => rfl
  | eq => exact congrArg (some ∘ Scalar.bool) heq
  | notEq =>
    refine congrArg (some ∘ Scalar.bool) ?_
    rw [decide_not, ← heq]
    rfl
  | _ => cases hop

theorem apply_booleans_standsFor {op : InfixOp} (a b : Bool)
    (hop : op.resultType? .boolean = some τ) (fresh : Nat) :
    (op.apply (.boolean a) (.boolean b) fresh).StandsFor (op.meaning (.bool a) (.bool b)) := by
  cases op with
  | eq => cases a <;> cases b <;> rfl
  | notEq => cases a <;> cases b <;> rfl
  | _ => cases hop

/-- An infix operator yields what it makes of the scalars that its operands are. -/
theorem InfixOp.apply_standsFor {op : InfixOp} (hv : v.scalar? = some x) (hw : w.scalar? = some y)
    (htype : y.type = x.type) (hop : op.resultType? x.type = some τ) (fresh : Nat) :
    (op.apply v w fresh).StandsFor (op.meaning x y) := by
  cases v with
  | integer a =>
    cases hv
    cases w with
    | integer b =>
      cases hw
      exact applyIntegers_standsFor op a b fresh
    -- the operands are of one type
    | boolean | string => cases hw; cases htype
    | _ => cases hw
  | boolean a =>
    cases hv
    cases w with
    | boolean b =>
      cases hw
      exact apply_booleans_standsFor a b hop fresh
    | integer | string => cases hw; cases htype
    | _ => cases hw
  | string _ a =>
    cases hv
    cases w with
    | string _ b =>
      cases hw
      exact applyStrings_standsFor a b hop fresh
    | integer | boolean => cases hw; cases htype
    | _ => cases hw
  | _ => cases hv

end

/-! ### Divisions by zero -/

namespace Expr

variable {e : Expr} {τ : ScalarType}

/-- What a well-typed expression means has its type. -/
theorem HasType.type_eq (h : e.HasType τ) : ∀ x, e.meaning = some x → x.type = τ := by
  induction h with
  | int | bool | str =>
    intro x hx
    rw [meaning] at hx
    cases hx
    rfl
  | unary _ hop ih =>
    intro y hy
    rw [meaning] at hy
    obtain ⟨x, hx, hy⟩ := Option.bind_eq_some_iff.1 hy
    obtain rfl := ih x hx
    obtain ⟨z, hz, htype⟩ := PrefixOp.exists_meaning hop
    rw [hz] at hy
    cases hy
    exact htype
  | binary _ _ hop ihLeft ihRight =>
    intro z hz
    rw [meaning] at hz
    obtain ⟨x, hx, hz⟩ := Option.bind_eq_some_iff.1 hz
    obtain ⟨y, hy, hz⟩ := Option.bind_eq_some_iff.1 hz
    obtain rfl := ihLeft x hx
    -- the operator makes a scalar of its type, since there is a meaning
    rcases InfixOp.meaning_cases (ihRight y hy) hop with ⟨z', hz', htype⟩ | ⟨hnone, -⟩
    · rw [hz'] at hz
      cases hz
      exact htype
    · rw [hnone] at hz
      cases hz
  | cond _ _ _ _ ihConsequence ihAlternative =>
    intro y hy
    rw [meaning] at hy
    obtain ⟨x, -, hy⟩ := Option.bind_eq_some_iff.1 hy
    split at hy
    · exact ihConsequence y hy
    · exact ihAlternative y hy

theorem dividesByZero_unary_iff {op : PrefixOp} {right : Expr} :
    (Expr.unary op right).DividesByZero ↔ right.DividesByZero := by
  constructor
  · rintro ⟨l, r, x, hcomes, hdivision⟩
    cases hcomes with
    | operand hcomes => exact ⟨l, r, x, hcomes, hdivision⟩
  · rintro ⟨l, r, x, hcomes, hdivision⟩
    exact ⟨l, r, x, .operand hcomes, hdivision⟩

theorem dividesByZero_binary_iff {op : InfixOp} {left right : Expr} :
    (Expr.binary op left right).DividesByZero ↔ left.DividesByZero ∨
      ∃ x, left.meaning = some x ∧
        (right.DividesByZero ∨ op = .div ∧ right.meaning = some (.int 0)) := by
  constructor
  · rintro ⟨l, r, x, hcomes, hx, hzero⟩
    cases hcomes with
    | here => exact Or.inr ⟨x, hx, Or.inr ⟨rfl, hzero⟩⟩
    | left hcomes => exact Or.inl ⟨l, r, x, hcomes, hx, hzero⟩
    | right hleft hcomes => exact Or.inr ⟨_, hleft, Or.inl ⟨l, r, x, hcomes, hx, hzero⟩⟩
  · rintro (⟨l, r, x, hcomes, hdivision⟩ | ⟨x, hx, ⟨l, r, y, hcomes, hdivision⟩ | ⟨rfl, hzero⟩⟩)
    · exact ⟨l, r, x, .left hcomes, hdivision⟩
    · exact ⟨l, r, y, .right hx hcomes, hdivision⟩
    · exact ⟨left, right, x, .here, hx, hzero⟩

theorem dividesByZero_cond_iff {c t e : Expr} :
    (Expr.cond c [.expr t] (some [.expr e])).DividesByZero ↔ c.DividesByZero ∨
      ∃ x, c.meaning = some x ∧ if x.isTruthy then t.DividesByZero else e.DividesByZero := by
  constructor
  · rintro ⟨l, r, x, hcomes, hdivision⟩
    -- the division is in the condition, or in the branch that is taken
    cases hcomes with
    | condition hcomes => exact Or.inl ⟨l, r, x, hcomes, hdivision⟩
    | consequence hc htruthy hcomes =>
      exact Or.inr ⟨_, hc, by rw [if_pos htruthy]; exact ⟨l, r, x, hcomes, hdivision⟩⟩
    | alternative hc hfalse hcomes =>
      exact Or.inr ⟨_, hc, by rw [hfalse]; exact ⟨l, r, x, hcomes, hdivision⟩⟩
  · rintro (⟨l, r, x, hcomes, hdivision⟩ | ⟨x, hc, hbranch⟩)
    · exact ⟨l, r, x, .condition hcomes, hdivision⟩
    · split at hbranch
      · next htruthy =>
        obtain ⟨l, r, y, hcomes, hdivision⟩ := hbranch
        exact ⟨l, r, y, .consequence hc htruthy hcomes, hdivision⟩
      · next hfalse =>
        obtain ⟨l, r, y, hcomes, hdivision⟩ := hbranch
        exact ⟨l, r, y, .alternative hc (Bool.eq_false_iff.2 hfalse) hcomes, hdivision⟩

/-- A well-typed expression means nothing exactly if it divides by zero. -/
theorem HasType.meaning_eq_none_iff (h : e.HasType τ) : e.meaning = none ↔ e.DividesByZero := by
  induction h with
  | int | bool | str =>
    rw [meaning]
    -- a literal divides nothing
    refine iff_of_false nofun ?_
    rintro ⟨l, r, x, ⟨⟩, -⟩
  | @unary op right _ _ hright hop ih =>
    rw [dividesByZero_unary_iff, ← ih, meaning]
    cases hx : right.meaning with
    | none => exact iff_of_true rfl rfl
    | some x =>
      obtain rfl := hright.type_eq x hx
      obtain ⟨z, hz, -⟩ := PrefixOp.exists_meaning hop
      rw [Option.bind_some, hz]
      exact iff_of_false nofun nofun
  | @binary op left right _ _ hleft hright hop ihLeft ihRight =>
    rw [dividesByZero_binary_iff, ← ihLeft, ← ihRight, meaning]
    cases hx : left.meaning with
    | none => exact iff_of_true rfl (Or.inl rfl)
    | some x =>
      cases hy : right.meaning with
      | none => exact iff_of_true rfl (Or.inr ⟨x, rfl, Or.inl rfl⟩)
      | some y =>
        obtain rfl := hleft.type_eq x hx
        -- both operands mean something, and what is left is this very division
        have hnone := InfixOp.meaning_eq_none_iff (hright.type_eq y hy) hop
        rw [Option.bind_some, Option.bind_some, hnone]
        simp
  | @cond c t e _ _ _ _ _ ihCondition ihConsequence ihAlternative =>
    rw [dividesByZero_cond_iff, ← ihCondition, ← ihConsequence, ← ihAlternative, meaning]
    cases c.meaning with
    | none => exact iff_of_true rfl (Or.inl rfl)
    | some x =>
      rw [Option.bind_some]
      -- only the branch that is chosen counts
      cases htruthy : x.isTruthy with
      | true => simp [htruthy]
      | false => simp [htruthy]

end Expr

/-! ### Evaluation -/

namespace Expr

/-- Evaluation within a budget yields what the expression means, in every scope and every state,
and makes no more than allocations. -/
def YieldsMeaning (e : Expr) (budget : Nat) : Prop :=
  ∀ scope s, ∃ v addr, v.StandsFor e.meaning ∧
    evaluate budget e scope s = some (v, { s with nextAddress := addr })

namespace YieldsMeaning

variable {e right left c t f : Expr} {m n : Nat}

theorem mono (h : e.YieldsMeaning m) (hmn : m ≤ n) : e.YieldsMeaning n := by
  intro scope s
  obtain ⟨v, addr, hv, hrun⟩ := h scope s
  exact ⟨v, addr, hv, evaluate_mono hmn hrun⟩

/-- What goes on with the value of an expression does so with a scalar, or else not at all. -/
theorem andThen (h : e.YieldsMeaning n) (k : Value → Eval Value) (scope : Nat) (s : State) :
    (e.meaning = none ∧ ∃ v addr, v.StandsFor none ∧
      Machine.andThen (evaluate n e scope) k s = some (v, { s with nextAddress := addr })) ∨
    ∃ x v addr, e.meaning = some x ∧ v.scalar? = some x ∧
      Machine.andThen (evaluate n e scope) k s = k v { s with nextAddress := addr } := by
  obtain ⟨v, addr, hv, hrun⟩ := h scope s
  cases hx : e.meaning with
  | none =>
    rw [hx] at hv
    obtain ⟨errorAddr, rfl⟩ := hv
    exact Or.inl ⟨rfl, _, addr, ⟨errorAddr, rfl⟩, andThen_of_abrupt hrun rfl k⟩
  | some x =>
    rw [hx] at hv
    exact Or.inr ⟨x, v, addr, rfl, hv, andThen_of_normal hrun (isAbrupt_of_scalar? hv) k⟩

theorem unary {op : PrefixOp} {σ τ : ScalarType} (hright : right.HasType σ)
    (hop : op.resultType? σ = some τ) (h : right.YieldsMeaning n) :
    (Expr.unary op right).YieldsMeaning (n + 1) := by
  intro scope s
  rw [evaluate_succ, evalStep, meaning]
  rcases h.andThen _ scope s with ⟨hnone, hresult⟩ | ⟨x, v, addr, hx, hv, hrun⟩
  · rw [hnone]
    exact hresult
  · obtain rfl := hright.type_eq x hx
    rw [hrun, hx]
    exact ⟨_, _, PrefixOp.apply_standsFor hv hop addr, rfl⟩

theorem binary {op : InfixOp} {σ τ : ScalarType} (hleft : left.HasType σ) (hright : right.HasType σ)
    (hop : op.resultType? σ = some τ) (ihLeft : left.YieldsMeaning n)
    (ihRight : right.YieldsMeaning n) : (Expr.binary op left right).YieldsMeaning (n + 1) := by
  intro scope s
  rw [evaluate_succ, evalStep, meaning]
  rcases ihLeft.andThen _ scope s with ⟨hnone, hresult⟩ | ⟨x, v, addr, hx, hv, hrun⟩
  · rw [hnone]
    exact hresult
  · rw [hrun, hx]
    rcases ihRight.andThen _ scope { s with nextAddress := addr }
      with ⟨hnone, hresult⟩ | ⟨y, w, addr', hy, hw, hrun'⟩
    · rw [hnone]
      exact hresult
    · obtain rfl := hleft.type_eq x hx
      rw [hrun', hy]
      exact ⟨_, _, InfixOp.apply_standsFor hv hw (hright.type_eq y hy) hop addr', rfl⟩

theorem cond (ihCondition : c.YieldsMeaning n) (ihConsequence : t.YieldsMeaning n)
    (ihAlternative : f.YieldsMeaning n) :
    (Expr.cond c [.expr t] (some [.expr f])).YieldsMeaning (n + 1) := by
  intro scope s
  rw [evaluate_succ, evalStep, meaning]
  rcases ihCondition.andThen _ scope s with ⟨hnone, hresult⟩ | ⟨x, v, addr, hx, hv, hrun⟩
  · rw [hnone]
    exact hresult
  · rw [hrun, hx, isTruthy_of_scalar? hv, Option.bind_some]
    cases x.isTruthy with
    | true =>
      rw [if_pos rfl, if_pos rfl, evalBranch, evalBody_singleton]
      exact ihConsequence scope _
    | false =>
      rw [if_neg Bool.false_ne_true, if_neg Bool.false_ne_true, evalBranch, evalBody_singleton]
      exact ihAlternative scope _

end YieldsMeaning

/-- Evaluation yields the meaning of a well-typed expression, within a great enough budget. -/
theorem HasType.exists_yieldsMeaning {e : Expr} {τ : ScalarType} (h : e.HasType τ) :
    ∃ n, e.YieldsMeaning n := by
  induction h with
  | @int value =>
    refine ⟨1, fun scope s => ⟨.integer value, s.nextAddress, ?_, rfl⟩⟩
    rw [meaning]
    rfl
  | @bool value =>
    refine ⟨1, fun scope s => ⟨.boolean value, s.nextAddress, ?_, rfl⟩⟩
    rw [meaning]
    rfl
  | @str text =>
    refine ⟨1, fun scope s => ⟨.string s.nextAddress text, _, ?_, rfl⟩⟩
    rw [meaning]
    rfl
  -- what suffices for the parts, and one level more
  | unary hright hop ih =>
    obtain ⟨n, hn⟩ := ih
    exact ⟨n + 1, hn.unary hright hop⟩
  | binary hleft hright hop ihLeft ihRight =>
    obtain ⟨m, hm⟩ := ihLeft
    obtain ⟨n, hn⟩ := ihRight
    exact ⟨max m n + 1, .binary hleft hright hop (hm.mono (by omega)) (hn.mono (by omega))⟩
  | cond _ _ _ ihCondition ihConsequence ihAlternative =>
    obtain ⟨l, hl⟩ := ihCondition
    obtain ⟨m, hm⟩ := ihConsequence
    obtain ⟨n, hn⟩ := ihAlternative
    exact ⟨max l (max m n) + 1,
      .cond (hl.mono (by omega)) (hm.mono (by omega)) (hn.mono (by omega))⟩

end Expr

/-- **Well-typed expressions do not go wrong.**  Within a great enough budget evaluation ends, in
every scope and every state, and changes nothing but the address of the next allocation.  It yields
the error of a division by zero exactly if it comes to one, going from left to right and into the
branches that are taken only.  Otherwise the expression means a scalar of its type, in wrapping
arithmetic of sixty-four bits with division rounding towards zero, and evaluation yields that. -/
theorem well_typed_scalars_evaluate {e : Expr} {τ : ScalarType} (h : e.HasType τ) :
    ∃ n, ∀ scope s, ∃ v addr,
      (∀ budget ≥ n, evaluate budget e scope s = some (v, { s with nextAddress := addr })) ∧
      ((∃ errorAddr, v = .error errorAddr "division by zero") ↔ e.DividesByZero) ∧
      (¬e.DividesByZero → ∃ x, e.meaning = some x ∧ x.type = τ ∧ v.scalar? = some x) := by
  obtain ⟨n, hn⟩ := h.exists_yieldsMeaning
  refine ⟨n, fun scope s => ?_⟩
  obtain ⟨v, addr, hv, hrun⟩ := hn scope s
  refine ⟨v, addr, fun budget hle => evaluate_mono hle hrun, ?_⟩
  -- there is no meaning where zero divides, and only there
  rw [← h.meaning_eq_none_iff]
  cases hx : e.meaning with
  | none =>
    rw [hx] at hv
    exact ⟨iff_of_true hv rfl, fun hne => (hne rfl).elim⟩
  | some x =>
    rw [hx] at hv
    refine ⟨iff_of_false ?_ nofun, fun _ => ⟨x, rfl, h.type_eq x hx, hv⟩⟩
    rintro ⟨errorAddr, rfl⟩
    cases hv

/-- The least integer divided by minus one, where the branch that divides by zero is not taken, and
an operand that divides by zero. -/
theorem well_typed_scalars_evaluate_wrapping :
    let least : Expr := .binary .sub (.unary .neg (.int 9223372036854775807)) (.int 1)
    let quotient : Expr := .cond (.str "") [.expr (.binary .div least (.unary .neg (.int 1)))]
      (some [.expr (.binary .div (.int 1) (.int 0))])
    let failing : Expr := .binary .eq (.bool true)
      (.unary .not (.binary .div least (.binary .sub (.int 2) (.int 2))))
    quotient.HasType .integer ∧ failing.HasType .boolean ∧
      (∃ n, ∀ scope s, ∃ v addr,
        evaluate n quotient scope s = some (v, { s with nextAddress := addr }) ∧
        v.scalar? = some (.int (-9223372036854775808))) ∧
      ∃ n, ∀ scope s, ∃ v addr,
        evaluate n failing scope s = some (v, { s with nextAddress := addr }) ∧
        ∃ errorAddr, v = .error errorAddr "division by zero" := by
  intro least quotient failing
  have hleast : least.HasType .integer := .binary (.unary .int rfl) .int rfl
  have hquotient : quotient.HasType .integer :=
    .cond .str (.binary hleast (.unary .int rfl) rfl) (.binary .int .int rfl)
  have hfailing : failing.HasType .boolean :=
    .binary .bool (.unary (.binary hleast (.binary .int .int rfl) rfl) rfl) rfl
  -- the least integer is its own negative, so that dividing it by minus one gives it back
  have hleastMeaning : least.meaning = some (.int (-9223372036854775808)) := by
    simp only [least, Expr.meaning]
    decide +kernel
  have hquotientMeaning : quotient.meaning = some (.int (-9223372036854775808)) := by
    simp only [quotient, Expr.meaning, hleastMeaning]
    decide +kernel
  have hzero : (Expr.binary .sub (.int 2) (.int 2)).meaning = some (.int 0) := by
    simp only [Expr.meaning]
    decide +kernel
  refine ⟨hquotient, hfailing, ?_, ?_⟩
  · obtain ⟨n, hn⟩ := well_typed_scalars_evaluate hquotient
    refine ⟨n, fun scope s => ?_⟩
    obtain ⟨v, addr, hrun, -, hvalue⟩ := hn scope s
    have hdivides : ¬quotient.DividesByZero := by
      rw [← hquotient.meaning_eq_none_iff, hquotientMeaning]
      exact nofun
    obtain ⟨x, hx, -, hv⟩ := hvalue hdivides
    rw [hquotientMeaning] at hx
    cases hx
    exact ⟨v, addr, hrun n (Nat.le_refl n), hv⟩
  · obtain ⟨n, hn⟩ := well_typed_scalars_evaluate hfailing
    refine ⟨n, fun scope s => ?_⟩
    obtain ⟨v, addr, hrun, herror, -⟩ := hn scope s
    have hdivides : failing.DividesByZero :=
      ⟨_, _, _, .right (by rw [Expr.meaning]) (.operand .here), hleastMeaning, hzero⟩
    exact ⟨v, addr, hrun n (Nat.le_refl n), herror.2 hdivides⟩

end Monkey
