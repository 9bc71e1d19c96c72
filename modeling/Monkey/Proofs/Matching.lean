import Mathlib.Data.List.Forall2
import Mathlib.Order.Defs.PartialOrder
import Monkey.Builtins
import Monkey.Operators

/-!
# Matching values

Two runs need not give out the same numbers.  A matching says which scopes, which addresses and
which tasks of one run stand for which of another one; of what only one of them can reach it says
nothing.  Values match if they are built alike and every number in the one stands for the number in
its place in the other.  Operations on matching values give matching values.

## Main definitions

* `Pairing`, `Matching` — numbers that stand for one another, and those of scopes, of addresses and
  of tasks.
* `Value.Matches` — values that are built alike out of matching numbers.

## Main results

* `Value.Matches.identical_eq` — **matching values are compared alike.**
* `PrefixOp.apply_matches`, `InfixOp.apply_matches`, `Value.at_matches`, `Builtin.apply_matches` —
  **operations on matching values give matching values.**
* `Value.Matches.refl`, `Value.Matches.eq` — under the identity equal values match, and no others.
-/

namespace Monkey

/-! ### Numbers that stand for one another -/

/-- Numbers of one run that stand for numbers of another one, none for two. -/
structure Pairing where
  Pairs : Nat → Nat → Prop
  eq_iff_eq : ∀ {a b c d : Nat}, Pairs a c → Pairs b d → (a = b ↔ c = d)

namespace Pairing

instance : CoeFun Pairing fun _ => Nat → Nat → Prop := ⟨Pairs⟩

/-- Every pair of the one is a pair of the other. -/
instance : LE Pairing where
  le p q := ∀ {a b : Nat}, p a b → q a b

/-- Every number stands for itself. -/
def identity : Pairing where
  Pairs := Eq
  eq_iff_eq := by
    rintro a b _ _ rfl rfl
    exact Iff.rfl

/-- The numbers that have a property stand for themselves. -/
def among (P : Nat → Prop) : Pairing where
  Pairs a b := a = b ∧ P a
  eq_iff_eq := by
    rintro a b _ _ ⟨rfl, -⟩ ⟨rfl, -⟩
    exact Iff.rfl

/-- No number stands for another one. -/
def empty : Pairing := ⟨fun _ _ => False, False.elim⟩

/-- One pair more, of two numbers that stood for nothing. -/
def extend (p : Pairing) (a b : Nat) (hleft : ∀ c, ¬p a c) (hright : ∀ c, ¬p c b) : Pairing where
  Pairs c d := p c d ∨ c = a ∧ d = b
  eq_iff_eq := by
    rintro c d c' d' (hc | ⟨rfl, rfl⟩) (hd | ⟨rfl, rfl⟩)
    · exact p.eq_iff_eq hc hd
    · refine iff_of_false ?_ ?_ <;> rintro rfl
      · exact hleft _ hc
      · exact hright _ hc
    · refine iff_of_false ?_ ?_ <;> rintro rfl
      · exact hleft _ hd
      · exact hright _ hd
    · exact iff_of_true rfl rfl

/-- Numbers that stand for one another are compared alike. -/
theorem beq_eq {p : Pairing} {a b c d : Nat} (hac : p a c) (hbd : p b d) :
    (a == b) = (c == d) := by
  rw [Bool.eq_iff_iff, beq_iff_eq, beq_iff_eq]
  exact p.eq_iff_eq hac hbd

end Pairing

/-- The scopes, the addresses and the tasks of two runs that stand for one another. -/
structure Matching where
  scopes : Pairing
  addresses : Pairing
  tasks : Pairing

namespace Matching

/-- Whatever stands for one another still does. -/
instance : LE Matching where
  le μ ν := μ.scopes ≤ ν.scopes ∧ μ.addresses ≤ ν.addresses ∧ μ.tasks ≤ ν.tasks

/-- Everything stands for itself. -/
def identity : Matching := ⟨.identity, .identity, .identity⟩

/-- Only one scope stands for another one. -/
def ofScopes (a b : Nat) : Matching :=
  ⟨Pairing.empty.extend a b (fun _ => id) fun _ => id, .empty, .empty⟩

instance : Preorder Matching where
  le_refl _ := ⟨id, id, id⟩
  le_trans _ _ _ hμν hνκ :=
    ⟨fun h => hνκ.1 (hμν.1 h), fun h => hνκ.2.1 (hμν.2.1 h), fun h => hνκ.2.2 (hμν.2.2 h)⟩

end Matching

/-! ### Values -/

/-- What is related by a relation, if it is there, is related by every weaker one. -/
theorem optionRel_imp {α β : Type} {R S : α → β → Prop} (himp : ∀ a b, R a b → S a b)
    {found : Option α} {found' : Option β} (h : Option.Rel R found found') :
    Option.Rel S found found' := by
  cases h with
  | none => exact .none
  | some hab => exact .some (himp _ _ hab)

/-- Lists with the same keys in the same order and related values. -/
inductive Keywise {κ α β : Type} (R : α → β → Prop) : List (κ × α) → List (κ × β) → Prop
  | nil : Keywise R [] []
  | cons (key : κ) {a : α} {b : β} {as : List (κ × α)} {bs : List (κ × β)} :
    R a b → Keywise R as bs → Keywise R ((key, a) :: as) ((key, b) :: bs)

namespace Keywise

variable {κ α β : Type} {R : α → β → Prop} {es : List (κ × α)} {fs : List (κ × β)}

theorem imp {S : α → β → Prop} (himp : ∀ a b, R a b → S a b) (h : Keywise R es fs) :
    Keywise S es fs := by
  induction h with
  | nil => exact .nil
  | cons key hab _ ih => exact .cons key (himp _ _ hab) ih

/-- Looking a key up in entries. -/
theorem find? {es : Entries α} {fs : Entries β} (h : Keywise R es fs) (key : HashKey) :
    Option.Rel R (Entries.find? key es) (Entries.find? key fs) := by
  induction h with
  | nil => exact .none
  | cons other hab _ ih =>
    unfold Entries.find?
    split
    · exact .some hab
    · exact ih

/-- Storing under a key. -/
theorem insert {es : Entries α} {fs : Entries β} (h : Keywise R es fs) (key : HashKey) {a : α}
    {b : β} (hab : R a b) : Keywise R (Entries.insert key a es) (Entries.insert key b fs) := by
  induction h with
  | nil => exact .cons key hab .nil
  | cons other hstored hrest ih =>
    unfold Entries.insert
    split
    · exact .cons key hab hrest
    · split
      · exact .cons key hab (.cons other hstored hrest)
      · exact .cons other hstored ih

/-- Keys with the values in their places. -/
theorem zip {as : List α} {bs : List β} (keys : List κ) (h : List.Forall₂ R as bs) :
    Keywise R (keys.zip as) (keys.zip bs) := by
  induction h generalizing keys with
  | nil =>
    simp only [List.zip_nil_right]
    exact .nil
  | cons hab _ ih =>
    cases keys with
    | nil => exact .nil
    | cons key keys => exact .cons key hab (ih keys)

end Keywise

/-- Literals with the same syntax, written in scopes that stand for one another. -/
structure Closure.Matches (μ : Matching) (c d : Closure) : Prop where
  params_eq : c.params = d.params
  body_eq : c.body = d.body
  scope : μ.scopes c.scope d.scope

/-- Values that are built alike, every number in the one standing for the number in its place in
the other. -/
inductive Value.Matches (μ : Matching) : Value → Value → Prop
  | integer (value : Int64) : Matches μ (.integer value) (.integer value)
  | boolean (value : Bool) : Matches μ (.boolean value) (.boolean value)
  | null : Matches μ .null .null
  | string {a b : Nat} (text : String) :
    μ.addresses a b → Matches μ (.string a text) (.string b text)
  | array {a b : Nat} {vs ws : List Value} :
    μ.addresses a b → List.Forall₂ (Matches μ) vs ws → Matches μ (.array a vs) (.array b ws)
  | hash {a b : Nat} {es fs : List (HashKey × Value)} :
    μ.addresses a b → Keywise (Matches μ) es fs → Matches μ (.hash a es) (.hash b fs)
  | function {a b : Nat} {c d : Closure} :
    μ.addresses a b → c.Matches μ d → Matches μ (.function a c) (.function b d)
  | returned {a b : Nat} {v w : Value} :
    μ.addresses a b → Matches μ v w → Matches μ (.returned a v) (.returned b w)
  | error {a b : Nat} (message : String) :
    μ.addresses a b → Matches μ (.error a message) (.error b message)
  | quote {a b : Nat} (e : Expr) : μ.addresses a b → Matches μ (.quote a e) (.quote b e)
  | macroFn {a b : Nat} {c d : Closure} :
    μ.addresses a b → c.Matches μ d → Matches μ (.macroFn a c) (.macroFn b d)
  | builtin (function : Builtin) : Matches μ (.builtin function) (.builtin function)
  | intrinsic (function : Intrinsic) : Matches μ (.intrinsic function) (.intrinsic function)
  | task {a b : Nat} : μ.tasks a b → Matches μ (.task a) (.task b)

section

variable {μ ν : Matching}

theorem Closure.Matches.mono (hμν : μ ≤ ν) {c d : Closure} (h : c.Matches μ d) : c.Matches ν d :=
  { h with scope := hμν.1 h.scope }

mutual

/-- What matches goes on matching. -/
theorem Value.Matches.mono (hμν : μ ≤ ν) :
    {v w : Value} → Value.Matches μ v w → Value.Matches ν v w
  | .integer _, _, .integer n => .integer n
  | .boolean _, _, .boolean b => .boolean b
  | .null, _, .null => .null
  | .string _ _, _, .string text h => .string text (hμν.2.1 h)
  | .array _ _, _, .array h hs => .array (hμν.2.1 h) (allMatch_mono hμν hs)
  | .hash _ _, _, .hash h hs => .hash (hμν.2.1 h) (entriesMatch_mono hμν hs)
  | .function _ _, _, .function h hc => .function (hμν.2.1 h) (hc.mono hμν)
  | .returned _ _, _, .returned h hv => .returned (hμν.2.1 h) (Value.Matches.mono hμν hv)
  | .error _ _, _, .error message h => .error message (hμν.2.1 h)
  | .quote _ _, _, .quote e h => .quote e (hμν.2.1 h)
  | .macroFn _ _, _, .macroFn h hc => .macroFn (hμν.2.1 h) (hc.mono hμν)
  | .builtin _, _, .builtin b => .builtin b
  | .intrinsic _, _, .intrinsic i => .intrinsic i
  | .task _, _, .task h => .task (hμν.2.2 h)

theorem allMatch_mono (hμν : μ ≤ ν) : {vs ws : List Value} →
    List.Forall₂ (Value.Matches μ) vs ws → List.Forall₂ (Value.Matches ν) vs ws
  | [], _, .nil => .nil
  | _ :: _, _, .cons h hs => .cons (Value.Matches.mono hμν h) (allMatch_mono hμν hs)

theorem entriesMatch_mono (hμν : μ ≤ ν) : {es fs : List (HashKey × Value)} →
    Keywise (Value.Matches μ) es fs → Keywise (Value.Matches ν) es fs
  | [], _, .nil => .nil
  | _ :: _, _, .cons key h hs => .cons key (Value.Matches.mono hμν h) (entriesMatch_mono hμν hs)

end

mutual

/-- Every value matches itself under the identity. -/
theorem Value.Matches.refl : (v : Value) → Value.Matches .identity v v
  | .integer n => .integer n
  | .boolean b => .boolean b
  | .null => .null
  | .string _ text => .string text rfl
  | .array _ vs => .array rfl (allMatch_refl vs)
  | .hash _ es => .hash rfl (entriesMatch_refl es)
  | .function _ _ => .function rfl ⟨rfl, rfl, rfl⟩
  | .returned _ v => .returned rfl (Value.Matches.refl v)
  | .error _ message => .error message rfl
  | .quote _ e => .quote e rfl
  | .macroFn _ _ => .macroFn rfl ⟨rfl, rfl, rfl⟩
  | .builtin b => .builtin b
  | .intrinsic i => .intrinsic i
  | .task _ => .task rfl

theorem allMatch_refl : (vs : List Value) → List.Forall₂ (Value.Matches .identity) vs vs
  | [] => .nil
  | v :: vs => .cons (Value.Matches.refl v) (allMatch_refl vs)

theorem entriesMatch_refl :
    (es : List (HashKey × Value)) → Keywise (Value.Matches .identity) es es
  | [] => .nil
  | (key, v) :: es => .cons key (Value.Matches.refl v) (entriesMatch_refl es)

end

theorem Closure.Matches.eq {c d : Closure} (h : c.Matches .identity d) : c = d := by
  obtain ⟨params, body, scope⟩ := c
  obtain ⟨hparams, hbody, hscope⟩ := h
  cases hparams
  cases hbody
  cases hscope
  rfl

mutual

/-- Values that match under the identity are equal. -/
theorem Value.Matches.eq : {v w : Value} → Value.Matches .identity v w → v = w
  | .integer _, _, .integer _ | .boolean _, _, .boolean _ | .null, _, .null
  | .builtin _, _, .builtin _ | .intrinsic _, _, .intrinsic _ => rfl
  | .string _ _, _, .string _ rfl | .error _ _, _, .error _ rfl | .quote _ _, _, .quote _ rfl
  | .task _, _, .task rfl => rfl
  | .array _ _, _, .array rfl hs => by rw [allMatch_eq hs]
  | .hash _ _, _, .hash rfl hs => by rw [entriesMatch_eq hs]
  | .function _ _, _, .function rfl hc | .macroFn _ _, _, .macroFn rfl hc => by rw [hc.eq]
  | .returned _ _, _, .returned rfl hv => by rw [Value.Matches.eq hv]

theorem allMatch_eq : {vs ws : List Value} →
    List.Forall₂ (Value.Matches .identity) vs ws → vs = ws
  | [], _, .nil => rfl
  | _ :: _, _, .cons h hs => by rw [Value.Matches.eq h, allMatch_eq hs]

theorem entriesMatch_eq : {es fs : List (HashKey × Value)} →
    Keywise (Value.Matches .identity) es fs → es = fs
  | [], _, .nil => rfl
  | _ :: _, _, .cons _ h hs => by rw [Value.Matches.eq h, entriesMatch_eq hs]

end

theorem foundMatch_refl (found : Option Value) :
    Option.Rel (Value.Matches .identity) found found := by
  cases found with
  | none => exact .none
  | some v => exact .some (Value.Matches.refl v)

/-! ### What can be seen of a value -/

namespace Value.Matches

variable {v w : Value}

theorem type_eq (h : Value.Matches μ v w) : v.type = w.type := by
  cases h <;> rfl

theorem isTruthy_eq (h : Value.Matches μ v w) : v.isTruthy = w.isTruthy := by
  cases h <;> rfl

theorem isError_eq (h : Value.Matches μ v w) : v.isError = w.isError := by
  cases h <;> rfl

theorem isAbrupt_eq (h : Value.Matches μ v w) : v.isAbrupt = w.isAbrupt := by
  cases h <;> rfl

theorem hashKey?_eq (h : Value.Matches μ v w) : v.hashKey? = w.hashKey? := by
  cases h <;> rfl

theorem toExpr?_eq (h : Value.Matches μ v w) : v.toExpr? = w.toExpr? := by
  cases h <;> rfl

theorem unwrapReturn (h : Value.Matches μ v w) :
    Value.Matches μ v.unwrapReturn w.unwrapReturn := by
  have hsame := h
  cases h with
  | returned _ hv => exact hv
  | _ => exact hsame

/-- **Matching values are compared alike.** -/
theorem identical_eq {v' w' : Value} (h : Value.Matches μ v w) (h' : Value.Matches μ v' w') :
    v.identical v' = w.identical w' := by
  -- two values of one sort are told apart by their numbers, and two sorts by themselves
  cases h <;> cases h' <;> first | rfl | exact Pairing.beq_eq ‹_› ‹_›

end Value.Matches

/-! ### Operations -/

variable {v w v' w' : Value} {a b : Nat}

theorem EvalError.toValue_matches (e : EvalError) (hab : μ.addresses a b) :
    Value.Matches μ (e.toValue a) (e.toValue b) :=
  .error _ hab

/-- What lists of matching values hold at a position. -/
theorem getElem?_matches {vs ws : List Value} (h : List.Forall₂ (Value.Matches μ) vs ws)
    (i : Nat) : Option.Rel (Value.Matches μ) vs[i]? ws[i]? := by
  induction h generalizing i with
  | nil => exact .none
  | cons hv _ ih =>
    cases i with
    | zero => exact .some hv
    | succ i => exact ih i

/-- `null` stands for a value that is missing. -/
theorem getD_null_matches {found found' : Option Value}
    (h : Option.Rel (Value.Matches μ) found found') :
    Value.Matches μ (found.getD .null) (found'.getD .null) := by
  cases h with
  | none => exact .null
  | some h => exact h

/-- **A prefix operator gives matching values on matching operands.** -/
theorem PrefixOp.apply_matches (op : PrefixOp) (h : Value.Matches μ v w)
    (hab : μ.addresses a b) : Value.Matches μ (op.apply v a) (op.apply w b) := by
  cases op with
  | not =>
    simp only [PrefixOp.apply, h.isTruthy_eq]
    exact .boolean _
  | neg =>
    cases h with
    | integer n => exact .integer _
    | _ => exact EvalError.toValue_matches _ hab

theorem InfixOp.applyIntegers_matches (op : InfixOp) (m n : Int64) (hab : μ.addresses a b) :
    Value.Matches μ (op.applyIntegers m n a) (op.applyIntegers m n b) := by
  cases op with
  | div =>
    simp only [InfixOp.applyIntegers]
    split
    · exact EvalError.toValue_matches _ hab
    · exact .integer _
  | add | sub | mul => exact .integer _
  | lt | gt | eq | notEq => exact .boolean _

theorem InfixOp.applyStrings_matches (op : InfixOp) (text text' : String)
    (hab : μ.addresses a b) :
    Value.Matches μ (op.applyStrings text text' a) (op.applyStrings text text' b) := by
  cases op with
  | add => exact .string _ hab
  | eq | notEq => exact .boolean _
  | _ => exact EvalError.toValue_matches _ hab

theorem InfixOp.applyOthers_matches (op : InfixOp) (h : Value.Matches μ v w)
    (h' : Value.Matches μ v' w') (hab : μ.addresses a b) :
    Value.Matches μ (op.applyOthers v v' a) (op.applyOthers w w' b) := by
  simp only [InfixOp.applyOthers, h.type_eq, h'.type_eq, h.identical_eq h']
  split
  · exact EvalError.toValue_matches _ hab
  · cases op with
    | eq | notEq => exact .boolean _
    | _ => exact EvalError.toValue_matches _ hab

/-- **An infix operator gives matching values on matching operands.** -/
theorem InfixOp.apply_matches (op : InfixOp) (h : Value.Matches μ v w)
    (h' : Value.Matches μ v' w') (hab : μ.addresses a b) :
    Value.Matches μ (op.apply v v' a) (op.apply w w' b) := by
  have hothers := op.applyOthers_matches h h' hab
  -- only two integers and two strings are not left to `applyOthers`
  cases h with
  | integer m =>
    cases h' with
    | integer n => exact op.applyIntegers_matches m n hab
    | _ => exact hothers
  | string text =>
    cases h' with
    | string text' => exact op.applyStrings_matches text text' hab
    | _ => exact hothers
  | _ => exact hothers

theorem elementAt_matches {vs ws : List Value} (h : List.Forall₂ (Value.Matches μ) vs ws)
    (position : Int64) : Value.Matches μ (elementAt vs position) (elementAt ws position) := by
  unfold elementAt
  split
  · exact .null
  · exact getD_null_matches (getElem?_matches h _)

/-- **Indexing gives matching values in matching arrays and hashes.** -/
theorem Value.at_matches (h : Value.Matches μ v w) (h' : Value.Matches μ v' w')
    (hab : μ.addresses a b) : Value.Matches μ (v.at v' a) (w.at w' b) := by
  have hunusable := EvalError.toValue_matches (.unusableAsHashKey v'.type) hab
  have hunsupported := EvalError.toValue_matches (.indexNotSupported v.type) hab
  cases h with
  | array _ hs =>
    cases h' with
    | integer position => exact elementAt_matches hs position
    | _ => exact hunsupported
  | hash _ hs =>
    simp only [Value.at, ← h'.hashKey?_eq]
    cases v'.hashKey? with
    | none => exact h'.type_eq ▸ hunusable
    | some key => exact getD_null_matches (hs.find? key)
  | _ => exact hunsupported

theorem Builtin.applyLen_matches (h : Value.Matches μ v w) (hab : μ.addresses a b) :
    Value.Matches μ (applyLen v a) (applyLen w b) := by
  cases h with
  | string text => exact .integer _
  | array _ hs =>
    simp only [applyLen, hs.length_eq]
    exact .integer _
  | _ => exact EvalError.toValue_matches _ hab

theorem Builtin.applyArray_matches (f : Builtin) {vs ws more more' : List Value}
    (h : List.Forall₂ (Value.Matches μ) vs ws)
    (hmore : List.Forall₂ (Value.Matches μ) more more') (hab : μ.addresses a b) :
    Value.Matches μ (f.applyArray vs more a) (f.applyArray ws more' b) := by
  cases f with
  | first =>
    simp only [applyArray, List.head?_eq_getElem?]
    exact getD_null_matches (getElem?_matches h 0)
  | last =>
    simp only [applyArray, List.getLast?_eq_getElem?, h.length_eq]
    exact getD_null_matches (getElem?_matches h _)
  | rest =>
    cases h with
    | nil => exact .null
    | cons _ hs => exact .array hab hs
  | push => exact .array hab (List.rel_append h hmore)
  | len | puts => exact .null

/-- **A native function gives matching values on matching arguments.** -/
theorem Builtin.apply_matches (f : Builtin) {vs ws : List Value}
    (h : List.Forall₂ (Value.Matches μ) vs ws) (hab : μ.addresses a b) :
    Value.Matches μ (f.apply vs a) (f.apply ws b) := by
  unfold apply
  cases f.arity? with
  | none => exact .null
  | some want =>
    simp only [h.length_eq]
    split
    · exact EvalError.toValue_matches _ hab
    · cases h with
      | nil => cases f <;> exact .null
      | cons hv hs =>
        have hlen := applyLen_matches hv hab
        -- but for `len`, the first argument has to be an array
        cases hv with
        | array _ helements =>
          have harray := applyArray_matches f helements hs hab
          cases f with
          | len => exact hlen
          | _ => exact harray
        | _ =>
          cases f with
          | len => exact hlen
          | _ => exact EvalError.toValue_matches _ hab

end

end Monkey
