import Monkey.Proofs.Memory

/-!
# Equality is an equivalence

Two values are compared in three ways.  The operators `==` and `!=` compare values of one type:
strings by their texts, and all others for being identical.  Being identical is to be the same
scalar, or to have the same address.  And contents are compared through arrays, hashes and the
wrappers of `return`, down to what has none.

Each way looks at a part of the values, and holds exactly if that part is the same in both.  So each
is an equivalence; and since one value is made at each address, the first way is finer than the
third, with the operators in between.

## Main definitions

* `Value.identity`, `Value.compared`, `Value.contents` — what identity, the operators and the
  comparison of contents look at.
* `Value.same` — what `==` says of values of one type.

## Main results

* `Value.identical_iff`, `Value.same_iff`, `Value.equal_iff` — **each comparison says whether what
  it looks at is the same.**
* `InfixOp.apply_of_type_eq`, `InfixOp.apply_of_type_ne` — **values are comparable exactly if
  they have the same type.**
* `Value.LivesIn.same_of_identical`, `Value.LivesIn.equal_of_same` — **identical values are the same
  to the operators, and those have equal contents.**
* `equality_is_equivalence` — **equality is a sound equivalence.**
-/

namespace Monkey

/-! ### What is looked at -/

namespace Value

/-- What identity looks at: scalars, native functions and handles as they are, and the address of
everything else. -/
def identity : Value → Value
  | .string addr _ => .string addr ""
  | .array addr _ => .array addr []
  | .hash addr _ => .hash addr []
  | .function addr _ => .function addr default
  | .returned addr _ => .returned addr .null
  | .error addr _ => .error addr ""
  | .quote addr _ => .quote addr default
  | .macroFn addr _ => .macroFn addr default
  | v => v

/-- What `==` looks at: the texts of strings, and the identity of everything else. -/
def compared : Value → Value
  | .string _ text => .string 0 text
  | v => v.identity

/-- What `==` says of values of one type. -/
def same : Value → Value → Bool
  | .string _ a, .string _ b => a == b
  | a, b => a.identical b

end Value

mutual

/-- What the comparison of contents looks at. -/
def Value.contents : Value → Value
  | .string _ text => .string 0 text
  | .error _ message => .error 0 message
  | .array _ elements => .array 0 (contentsAll elements)
  | .hash _ entries => .hash 0 (contentsEntries entries)
  | .returned _ value => .returned 0 value.contents
  | v => v.identity

/-- The contents of each value. -/
def contentsAll : List Value → List Value
  | [] => []
  | v :: vs => v.contents :: contentsAll vs

/-- The keys, and the contents of each value. -/
def contentsEntries : List (HashKey × Value) → List (HashKey × Value)
  | [] => []
  | (key, v) :: es => (key, v.contents) :: contentsEntries es

end

namespace Value

/-- **Identity says whether what it looks at is the same.** -/
theorem identical_iff {v w : Value} : v.identical w = true ↔ v.identity = w.identity := by
  cases v <;> cases w <;> simp [identical, identity]

/-- **So does `==`.** -/
theorem same_iff {v w : Value} : v.same w = true ↔ v.compared = w.compared := by
  cases v <;> cases w <;> simp [same, compared, identical, identity]

end Value

mutual

/-- **So does the comparison of contents.** -/
theorem Value.equal_iff : (v w : Value) → (v.equal w = true ↔ v.contents = w.contents)
  | .array _ vs, w => by
    cases w with
    | array _ ws => simp [Value.equal, Value.contents, equalAll_iff vs ws]
    | _ => simp [Value.equal, Value.contents, Value.identical, Value.identity]
  | .hash _ es, w => by
    cases w with
    | hash _ fs => simp [Value.equal, Value.contents, equalEntries_iff es fs]
    | _ => simp [Value.equal, Value.contents, Value.identical, Value.identity]
  | .returned _ v, w => by
    cases w with
    | returned _ w => simp [Value.equal, Value.contents, Value.equal_iff v w]
    | _ => simp [Value.equal, Value.contents, Value.identical, Value.identity]
  | .integer _, w | .boolean _, w | .null, w | .string _ _, w | .function _ _, w | .error _ _, w
  | .quote _ _, w | .macroFn _ _, w | .builtin _, w | .intrinsic _, w | .task _, w => by
    cases w <;> simp [Value.equal, Value.contents, Value.identical, Value.identity]

theorem equalAll_iff : (vs ws : List Value) → (equalAll vs ws = true ↔
    contentsAll vs = contentsAll ws)
  | [], [] => by simp [equalAll, contentsAll]
  | [], _ :: _ | _ :: _, [] => by simp [equalAll, contentsAll]
  | v :: vs, w :: ws => by
    simp [equalAll, contentsAll, Value.equal_iff v w, equalAll_iff vs ws]

theorem equalEntries_iff : (es fs : List (HashKey × Value)) → (equalEntries es fs = true ↔
    contentsEntries es = contentsEntries fs)
  | [], [] => by simp [equalEntries, contentsEntries]
  | [], (_, _) :: _ | (_, _) :: _, [] => by simp [equalEntries, contentsEntries]
  | (k, v) :: es, (l, w) :: fs => by
    simp [equalEntries, contentsEntries, Value.equal_iff v w, equalEntries_iff es fs]

end

/-! ### Equivalences -/

namespace Value

variable {m : Memory} {a b c v w : Value}

theorem same_refl (v : Value) : v.same v = true := same_iff.2 rfl

theorem same_symm (h : v.same w = true) : w.same v = true := same_iff.2 (same_iff.1 h).symm

theorem same_trans (hab : a.same b = true) (hbc : b.same c = true) : a.same c = true :=
  same_iff.2 ((same_iff.1 hab).trans (same_iff.1 hbc))

theorem equal_refl (v : Value) : v.equal v = true := (equal_iff v v).2 rfl

theorem equal_symm (h : v.equal w = true) : w.equal v = true :=
  (equal_iff w v).2 ((equal_iff v w).1 h).symm

theorem equal_trans (hab : a.equal b = true) (hbc : b.equal c = true) : a.equal c = true :=
  (equal_iff a c).2 (((equal_iff a b).1 hab).trans ((equal_iff b c).1 hbc))

/-- What is the same to the operators is a string of the same text, or identical. -/
theorem same_cases (h : v.same w = true) : v.identical w = true ∨
    ∃ addr addr' text, v = .string addr text ∧ w = .string addr' text := by
  unfold same at h
  split at h
  · exact .inr ⟨_, _, _, rfl, by rw [beq_iff_eq.1 h]⟩
  · exact .inl h

/-- **Identical values are the same to the operators.** -/
theorem LivesIn.same_of_identical (hv : v.LivesIn m) (hw : w.LivesIn m)
    (h : v.identical w = true) : v.same w = true := by
  rw [hv.eq_of_identical hw h]
  exact same_refl w

/-- **What is the same to the operators has equal contents.** -/
theorem LivesIn.equal_of_same (hv : v.LivesIn m) (hw : w.LivesIn m) (h : v.same w = true) :
    v.equal w = true := by
  rcases same_cases h with hidentical | ⟨addr, addr', text, rfl, rfl⟩
  · rw [hv.eq_of_identical hw hidentical]
    exact equal_refl w
  · simp [equal]

/-- **Where values have keys, the operators compare the keys.** -/
theorem same_iff_of_hashKey? {k l : HashKey} (hv : v.hashKey? = some k)
    (hw : w.hashKey? = some l) : v.same w = true ↔ k = l := by
  cases v <;> cases hv <;> cases w <;> cases hw <;> simp [same, identical]

end Value

/-! ### The operators -/

namespace InfixOp

variable {a b : Value}

/-- **Values of one type are comparable.** -/
theorem apply_of_type_eq (h : a.type = b.type) (fresh : Nat) :
    InfixOp.eq.apply a b fresh = .boolean (a.same b) ∧
      InfixOp.notEq.apply a b fresh = .boolean !a.same b := by
  unfold InfixOp.apply
  split
  · exact ⟨rfl, rfl⟩
  · exact ⟨rfl, rfl⟩
  · next hstrings =>
    -- values that are neither numbers nor texts are compared by identity
    have hsame : a.same b = a.identical b := by
      unfold Value.same
      split
      · exact absurd rfl (hstrings _ _ _ _ rfl)
      · rfl
    simp [applyOthers, h, hsame]

/-- **Values of different types are not.** -/
theorem apply_of_type_ne (h : a.type ≠ b.type) (op : InfixOp) (fresh : Nat) :
    op.apply a b fresh = (EvalError.typeMismatch a.type op b.type).toValue fresh := by
  unfold InfixOp.apply
  split
  · exact absurd rfl h
  · exact absurd rfl h
  · exact if_pos h

end InfixOp

theorem Value.typeName_eq_iff {a b : Value} : a.typeName = b.typeName ↔ a.type = b.type :=
  ⟨ValueType.name_injective, congrArg ValueType.name⟩

namespace InfixOp

variable {a b : Value} {fresh : Nat}

/-- What `==` says is a boolean exactly for values of one type, and then says whether they are the
same. -/
theorem apply_eq_boolean_iff {same : Bool} :
    InfixOp.eq.apply a b fresh = .boolean same ↔ a.type = b.type ∧ a.same b = same := by
  by_cases h : a.type = b.type
  · simp [(apply_of_type_eq h fresh).1, h]
  · simp [apply_of_type_ne h, h, EvalError.toValue]

/-- Values that are the same to the operators are of one type. -/
theorem apply_eq_true_iff : InfixOp.eq.apply a b fresh = .boolean true ↔ a.same b = true := by
  rw [apply_eq_boolean_iff, and_iff_right_iff_imp]
  intro h
  cases a <;> cases b <;> simp_all [Value.same, Value.identical, Value.type]

end InfixOp

/-- **Equality is a sound equivalence.**  Two values can be compared exactly if their types have the
same name, and otherwise that is an error; `!=` is the negation of `==`.  Any value equals itself,
and so its copies, and `==` is symmetric and transitive.  Values with keys are equal exactly if
their keys are.  In a memory, identical values are equal, and equal values have equal contents;
equality of contents is an equivalence, too.

A new session lives in a memory, and still does after it has read a source.  If a state does so, the
operands of a comparison that is evaluated in it live in one memory, too. -/
theorem equality_is_equivalence (a b c : Value) (fresh : Nat) :
    ((∃ same, InfixOp.eq.apply a b fresh = .boolean same) ↔ a.typeName = b.typeName) ∧
      (a.typeName ≠ b.typeName → InfixOp.eq.apply a b fresh =
        (EvalError.typeMismatch a.type .eq b.type).toValue fresh) ∧
      (∀ same, InfixOp.eq.apply a b fresh = .boolean same →
        InfixOp.notEq.apply a b fresh = .boolean !same) ∧
      InfixOp.eq.apply a a fresh = .boolean true ∧
      (a.typeName = b.typeName →
        InfixOp.eq.apply b a fresh = InfixOp.eq.apply a b fresh) ∧
      (InfixOp.eq.apply a b fresh = .boolean true → InfixOp.eq.apply b c fresh = .boolean true →
        InfixOp.eq.apply a c fresh = .boolean true) ∧
      (∀ k l, a.hashKey? = some k → b.hashKey? = some l →
        (InfixOp.eq.apply a b fresh = .boolean true ↔ k = l)) ∧
      (∀ m : Memory, a.LivesIn m → b.LivesIn m →
        (a.identical b = true →
          InfixOp.eq.apply a b fresh = .boolean true ∧ a.equal b = true) ∧
        (InfixOp.eq.apply a b fresh = .boolean true → a.equal b = true)) ∧
      (a.equal a = true ∧ (a.equal b = true → b.equal a = true) ∧
        (a.equal b = true → b.equal c = true → a.equal c = true)) ∧
      (∀ limit output, (Session.start limit output).state.LivesIn .empty) ∧
      (∀ {m : Memory} {σ τ : Session} {budget : Nat} {source : String}
        {reply : Except SessionError (Option Value)}, σ.state.LivesIn m →
        σ.run budget source = some (reply, τ) → ∃ m', m ≤ m' ∧ τ.state.LivesIn m') ∧
      ∀ {m : Memory} {s t u : State} {budget scope : Nat} {left right : Expr}, s.LivesIn m →
        evaluate budget left scope s = some (a, t) → a.isAbrupt = false →
        evaluate budget right scope t = some (b, u) → b.isAbrupt = false →
        (∀ op : InfixOp, evaluate (budget + 1) (.binary op left right) scope s =
          some (op.apply a b u.nextAddress, { u with nextAddress := u.nextAddress + 1 })) ∧
        ∃ m', m ≤ m' ∧ u.LivesIn m' ∧ a.LivesIn m' ∧ b.LivesIn m' := by
  simp only [InfixOp.apply_eq_true_iff]
  refine ⟨?_, fun h => ?_, fun same h => ?_, a.same_refl, fun h => ?_, Value.same_trans,
    fun k l => Value.same_iff_of_hashKey?, fun m ha hb => ⟨fun h => ?_, ha.equal_of_same hb⟩,
    ⟨a.equal_refl, Value.equal_symm, Value.equal_trans⟩, Session.livesIn_start,
    fun hσ hrun => ?_, ?_⟩
  -- types have the same name only if they are the same
  · rw [Value.typeName_eq_iff]
    simp [InfixOp.apply_eq_boolean_iff]
  · exact InfixOp.apply_of_type_ne (mt Value.typeName_eq_iff.2 h) .eq fresh
  · obtain ⟨htype, rfl⟩ := InfixOp.apply_eq_boolean_iff.1 h
    exact (InfixOp.apply_of_type_eq htype fresh).2
  -- for operands of one type `==` is the comparison `same`, which is symmetric
  · have htype := Value.typeName_eq_iff.1 h
    rw [(InfixOp.apply_of_type_eq htype fresh).1, (InfixOp.apply_of_type_eq htype.symm fresh).1]
    exact congrArg Value.boolean (Bool.eq_iff_iff.2 ⟨Value.same_symm, Value.same_symm⟩)
  · have hsame := ha.same_of_identical hb h
    exact ⟨hsame, ha.equal_of_same hb hsame⟩
  · obtain ⟨m', hle, hτ, -⟩ := Session.livesIn_run hσ hrun
    exact ⟨m', hle, hτ⟩
  · intro m s t u budget scope left right hs hleft ha hright hb
    -- the left operand lives on while the right one is evaluated
    obtain ⟨m₁, hm₁, ht, hat⟩ := hs.evaluate hleft
    obtain ⟨m₂, hm₂, hu, hbu⟩ := ht.evaluate hright
    exact ⟨fun op => evaluate_binary op hleft ha hright hb, m₂, le_trans hm₁ hm₂, hu, hat.mono hm₂,
      hbu⟩

/-- Arrays that were made one after another are not equal, but their contents are. -/
theorem equality_is_equivalence_arrays :
    let made : Expr := .array [.str "x"]
    let first : Value := .array 1 [.string 0 "x"]
    let second : Value := .array 3 [.string 2 "x"]
    (∃ t, evaluate 3 (.binary .eq made made) 0 (Session.start 10 .empty).state =
        some (.boolean false, t)) ∧
      first.equal second = true ∧ second.equal first = true ∧
      ∃ m, first.LivesIn m ∧ second.LivesIn m := by
  intro made first second
  obtain ⟨-, -, -, -, -, -, -, -, ⟨-, hsymm, -⟩, hstart, -, hoperands⟩ :=
    equality_is_equivalence first second .null 4
  have hmade : ∀ s, evaluate 2 made 0 s = some (.array (s.nextAddress + 1)
      [.string s.nextAddress "x"], { s with nextAddress := s.nextAddress + 2 }) := fun _ => rfl
  obtain ⟨hcompare, m, -, -, hfirst, hsecond⟩ :=
    hoperands (hstart 10 .empty) (hmade _) rfl (hmade _) rfl
  exact ⟨⟨_, hcompare .eq⟩, by decide, hsymm (by decide), m, hfirst, hsecond⟩

end Monkey
