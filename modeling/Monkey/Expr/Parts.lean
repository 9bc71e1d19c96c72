import Monkey.Expr

/-!
# The parts of a tree

The expressions that lie directly inside an expression are its parts.  In an expression with
statements they are those of the statements, in order.  An expression can be put together again with
other parts in the places of its own.

## Main definitions

* `Expr.parts`, `Expr.withParts` — the parts of an expression, and the expression with other parts.
* `Expr.Path`, `Expr.Holds`, `Expr.All` — expressions inside one another, at any depth.

## Main results

* `Expr.withParts_parts`, `Expr.parts_withParts` — an expression is made of its parts, and with
  other parts it has those.
* `Expr.all_iff` — what is so of everything in an expression is so of it and in its parts.
-/

namespace Monkey

/-- The expression in a statement. -/
def Stmt.value : Stmt → Expr
  | .letBe _ value => value
  | .ret value => value
  | .expr value => value

/-- The statement with another expression in it. -/
def Stmt.withValue : Stmt → Expr → Stmt
  | .letBe name _, value => .letBe name value
  | .ret _, value => .ret value
  | .expr _, value => .expr value

/-- The statements with other expressions in them, in order. -/
def Block.withValues (body : Block) (values : List Expr) : Block :=
  List.zipWith Stmt.withValue body values

/-- Each expression with the one after it, as a key with its value. -/
def pairUp : List Expr → List (Expr × Expr)
  | key :: value :: rest => (key, value) :: pairUp rest
  | _ => []

namespace Expr

/-- The expressions that lie directly inside an expression. -/
def parts : Expr → List Expr
  | .ident _ | .int _ | .bool _ | .str _ => []
  | .unary _ right => [right]
  | .binary _ left right => [left, right]
  | .cond condition consequence alternative =>
    condition :: (consequence ++ alternative.getD []).map Stmt.value
  | .fn _ body | .macroFn _ body => body.map Stmt.value
  | .call callee args => callee :: args
  | .array elements => elements
  | .index base position => [base, position]
  | .hash pairs => pairs.flatMap fun pair => [pair.1, pair.2]

/-- The expression with other parts, in the order of its own ones. -/
def withParts : Expr → List Expr → Expr
  | .unary op _, [right] => .unary op right
  | .binary op _ _, [left, right] => .binary op left right
  | .cond _ consequence alternative, condition :: values =>
    .cond condition (Block.withValues consequence values)
      (alternative.map fun body => Block.withValues body (values.drop consequence.length))
  | .fn params body, values => .fn params (Block.withValues body values)
  | .macroFn params body, values => .macroFn params (Block.withValues body values)
  | .call _ _, callee :: args => .call callee args
  | .array _, elements => .array elements
  | .index _ _, [base, position] => .index base position
  | .hash _, values => .hash (pairUp values)
  | e, _ => e

/-- The path from the first expression down to the second one consists of `n` expressions, each
directly inside the one before it. -/
inductive Path : (n : Nat) → Expr → Expr → Prop
  | here {e : Expr} : Path 1 e e
  | part {n : Nat} {e p q : Expr} : p ∈ e.parts → Path n p q → Path (n + 1) e q

/-- The second expression is the first one, or lies in it at some depth. -/
def Holds (e p : Expr) : Prop := ∃ n, Path n e p

/-- Everything in the expression, the expression included, is as `P` says. -/
def All (P : Expr → Prop) (e : Expr) : Prop := ∀ p, e.Holds p → P p

end Expr

/-! ### Statements with other expressions -/

@[simp] theorem Stmt.value_withValue (s : Stmt) (e : Expr) : (s.withValue e).value = e := by
  cases s <;> rfl

@[simp] theorem Stmt.withValue_value (s : Stmt) : s.withValue s.value = s := by cases s <;> rfl

theorem Stmt.sizeOf_value_lt (s : Stmt) : sizeOf s.value < sizeOf s := by
  cases s <;> simp only [Stmt.value, letBe.sizeOf_spec, ret.sizeOf_spec, expr.sizeOf_spec] <;> omega

namespace Block

@[simp] theorem withValues_values (body : Block) :
    Block.withValues body (body.map Stmt.value) = body := by
  induction body with
  | nil => rfl
  | cons s rest ih =>
    rw [List.map_cons, withValues, List.zipWith_cons_cons, s.withValue_value]
    exact congrArg _ ih

theorem values_withValues {body : Block} {values : List Expr}
    (h : values.length = body.length) : (Block.withValues body values).map Stmt.value = values := by
  induction body generalizing values with
  | nil => rw [List.eq_nil_of_length_eq_zero h]; rfl
  | cons s rest ih =>
    cases values with
    | nil => cases h
    | cons e values =>
      rw [withValues, List.zipWith_cons_cons, List.map_cons, s.value_withValue]
      exact congrArg _ (ih (Nat.succ.inj h))

/-- Only as many expressions count as there are statements. -/
theorem withValues_append {body : Block} {values : List Expr} (h : values.length = body.length)
    (more : List Expr) : Block.withValues body (values ++ more) = Block.withValues body values := by
  induction body generalizing values with
  | nil => rfl
  | cons s rest ih =>
    cases values with
    | nil => cases h
    | cons e values =>
      simp only [withValues, List.cons_append, List.zipWith_cons_cons]
      exact congrArg _ (ih (Nat.succ.inj h))

end Block

/-! ### Putting trees together -/

theorem pairUp_flatMap (pairs : List (Expr × Expr)) :
    pairUp (pairs.flatMap fun pair => [pair.1, pair.2]) = pairs := by
  induction pairs with
  | nil => rfl
  | cons pair rest ih => exact congrArg _ ih

theorem length_keysAndValues (pairs : List (Expr × Expr)) :
    (pairs.flatMap fun pair => [pair.1, pair.2]).length = 2 * pairs.length := by
  induction pairs with
  | nil => rfl
  | cons pair rest ih =>
    rw [List.flatMap_cons, List.length_append, ih, List.length_cons, List.length_cons]
    simp only [List.length_cons, List.length_nil]
    omega

theorem flatMap_pairUp {n : Nat} {es : List Expr} (h : es.length = 2 * n) :
    ((pairUp es).flatMap fun pair => [pair.1, pair.2]) = es := by
  induction n generalizing es with
  | zero => rw [List.eq_nil_of_length_eq_zero h]; rfl
  | succ n ih =>
    match es with
    | key :: value :: rest =>
      have hrest : rest.length = 2 * n := by
        simp only [List.length_cons] at h
        omega
      rw [pairUp, List.flatMap_cons, ih hrest]
      rfl

namespace Expr

variable {e p : Expr}

@[simp] theorem withParts_parts (e : Expr) : e.withParts e.parts = e := by
  cases e with
  | cond condition consequence alternative =>
    have hlength : (consequence.map Stmt.value).length = consequence.length := List.length_map _
    have hdrop : List.drop consequence.length (consequence.map Stmt.value ++
        (alternative.getD []).map Stmt.value) = (alternative.getD []).map Stmt.value :=
      List.drop_left' hlength
    rw [parts, withParts, List.map_append, Block.withValues_append hlength, hdrop,
      Block.withValues_values]
    cases alternative <;> simp
  | fn params body => rw [parts, withParts, Block.withValues_values]
  | macroFn params body => rw [parts, withParts, Block.withValues_values]
  | hash pairs => rw [parts, withParts, pairUp_flatMap]
  | _ => rfl

/-- With other parts, as many as before, an expression has those. -/
theorem parts_withParts {es : List Expr} (h : es.length = e.parts.length) :
    (e.withParts es).parts = es := by
  cases e with
  | ident | int | bool | str => exact (List.eq_nil_of_length_eq_zero h).symm
  | unary op right =>
    obtain ⟨_, rfl⟩ := List.length_eq_one_iff.1 h
    rfl
  | binary op left right =>
    match es, h with
    | [_, _], _ => rfl
  | cond condition consequence alternative =>
    cases es with
    | nil => cases h
    | cons c values =>
      have hvalues : values.length = consequence.length + (alternative.getD []).length := by
        simpa [parts] using h
      -- the first ones go to the consequence and the others to the alternative
      obtain ⟨first, second, rfl, hfirst⟩ :
          ∃ first second, values = first ++ second ∧ first.length = consequence.length :=
        ⟨_, _, (List.take_append_drop consequence.length values).symm,
          List.length_take_of_le (by omega)⟩
      have hsecond : second.length = (alternative.getD []).length := by
        rw [List.length_append] at hvalues
        omega
      rw [withParts, parts, Block.withValues_append hfirst, List.drop_left' hfirst, List.map_append,
        Block.values_withValues hfirst]
      refine congrArg (fun rest => c :: (first ++ rest)) ?_
      cases alternative with
      | none => exact (List.eq_nil_of_length_eq_zero hsecond).symm
      | some body => exact Block.values_withValues hsecond
  | fn params body => exact Block.values_withValues (h.trans (List.length_map _))
  | macroFn params body => exact Block.values_withValues (h.trans (List.length_map _))
  | call callee args =>
    cases es with
    | nil => cases h
    | cons f as => rfl
  | array elements => rfl
  | index base position =>
    match es, h with
    | [_, _], _ => rfl
  | hash pairs => exact flatMap_pairUp (h.trans (length_keysAndValues pairs))

/-- Only calls are calls with other parts. -/
theorem eq_call_of_withParts {es args : List Expr} {callee : Expr} (h : es.length = e.parts.length)
    (hcall : e.withParts es = .call callee args) :
    ∃ f as, e = .call f as ∧ es = callee :: args := by
  cases e with
  | call f as =>
    cases es with
    | nil => cases h
    | cons g bs =>
      cases hcall
      exact ⟨f, as, rfl, rfl⟩
  | _ =>
    unfold withParts at hcall
    split at hcall <;> contradiction

/-- What lies directly inside an expression is smaller. -/
theorem sizeOf_lt_of_mem_parts (h : p ∈ e.parts) : sizeOf p < sizeOf e := by
  -- what lies in a statement of a body is smaller than the statement, and that than the body
  have hbody : ∀ {body : List Stmt}, p ∈ body.map Stmt.value → sizeOf p < sizeOf body := by
    intro body hp
    obtain ⟨s, hs, rfl⟩ := List.mem_map.1 hp
    exact Nat.lt_trans s.sizeOf_value_lt (List.sizeOf_lt_of_mem hs)
  cases e with
  | ident | int | bool | str => cases h
  | unary op right =>
    cases List.mem_singleton.1 h
    simp only [unary.sizeOf_spec]
    omega
  | binary op left right =>
    simp only [parts, List.mem_cons, List.not_mem_nil, or_false] at h
    simp only [binary.sizeOf_spec]
    rcases h with rfl | rfl <;> omega
  | cond condition consequence alternative =>
    simp only [parts, List.mem_cons, List.map_append, List.mem_append] at h
    simp only [cond.sizeOf_spec]
    rcases h with rfl | h | h
    · omega
    · have := hbody h
      omega
    · cases alternative with
      | none => cases h
      | some body =>
        have hlt : sizeOf p < sizeOf body := hbody h
        simp only [Option.some.sizeOf_spec]
        omega
  | fn params body =>
    have := hbody h
    simp only [fn.sizeOf_spec]
    omega
  | macroFn params body =>
    have := hbody h
    simp only [macroFn.sizeOf_spec]
    omega
  | call callee args =>
    simp only [call.sizeOf_spec]
    rcases List.mem_cons.1 h with rfl | h
    · omega
    · have := List.sizeOf_lt_of_mem h
      omega
  | array elements =>
    have hlt : sizeOf p < sizeOf elements := List.sizeOf_lt_of_mem h
    simp only [array.sizeOf_spec]
    omega
  | index base position =>
    simp only [parts, List.mem_cons, List.not_mem_nil, or_false] at h
    simp only [index.sizeOf_spec]
    rcases h with rfl | rfl <;> omega
  | hash pairs =>
    -- a part of a hash literal is the key or the value of some pair
    obtain ⟨⟨key, value⟩, hpair, hp⟩ := List.mem_flatMap.1 h
    have hlt := List.sizeOf_lt_of_mem hpair
    simp only [Prod.mk.sizeOf_spec] at hlt
    simp only [hash.sizeOf_spec]
    simp only [List.mem_cons, List.not_mem_nil, or_false] at hp
    rcases hp with rfl | rfl <;> omega

/-- What is so of everything in an expression is so of it and of everything in its parts. -/
theorem all_iff {P : Expr → Prop} : e.All P ↔ P e ∧ ∀ p ∈ e.parts, p.All P := by
  constructor
  · intro h
    exact ⟨h e ⟨1, .here⟩, fun p hp q ⟨n, hpath⟩ => h q ⟨n + 1, .part hp hpath⟩⟩
  · rintro ⟨he, hparts⟩ q ⟨n, hpath⟩
    cases hpath with
    | here => exact he
    | part hp hpath => exact hparts _ hp q ⟨_, hpath⟩

/-- Only names are names with other parts. -/
theorem eq_ident_of_withParts {es : List Expr} {name : String} (h : e.withParts es = .ident name) :
    e = .ident name := by
  unfold withParts at h
  split at h <;> first | exact h | cases h

/-- Whether everything in an expression is as `P` says. -/
def all (P : Expr → Bool) (e : Expr) : Bool := P e && e.parts.attach.all fun p => p.1.all P
termination_by sizeOf e
decreasing_by exact sizeOf_lt_of_mem_parts p.2

theorem all_eq_true_iff {P : Expr → Bool} (e : Expr) : e.all P = true ↔ e.All (P · = true) := by
  rw [all, Bool.and_eq_true, all_iff, List.all_eq_true]
  refine and_congr_right fun _ => ⟨fun h p hp => ?_, fun h p _ => ?_⟩
  · exact (all_eq_true_iff p).1 (h ⟨p, hp⟩ (List.mem_attach _ _))
  · exact (all_eq_true_iff p.1).2 (h p.1 p.2)
termination_by sizeOf e
decreasing_by
  · exact sizeOf_lt_of_mem_parts hp
  · exact sizeOf_lt_of_mem_parts p.2

instance (P : Expr → Prop) [DecidablePred P] : DecidablePred (All P) := fun e =>
  decidable_of_iff (e.all fun p => decide (P p)) (by simp only [all_eq_true_iff, decide_eq_true_eq])

end Expr

end Monkey
