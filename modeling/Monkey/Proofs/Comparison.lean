import Mathlib.Order.Basic
import Monkey.Proofs.Matching
import Monkey.Proofs.Rewriting
import Monkey.Proofs.Runs

/-!
# Comparing two runs

Two evaluations of one program, on two machines or in different circumstances, go through the same
steps.  What they have in common is told by a comparison: a relation between evaluations that holds
of every elementary step on matching arguments and that is passed on by doing one thing after
another.  A comparison holds then of the two evaluations of every expression and every program.

What is known in the course of a run grows.  It says which numbers of the one run stand for which
numbers of the other one, and in which of the scopes names may be bound.  In what else the two runs
may differ is up to each comparison.

Calls and tasks are steps of their own, with a body that compares, since what holds of them need not
hold half-way through.  Where it does, a comparison is put together from that of smaller steps.

## Main definitions

* `Knowledge` — which numbers stand for one another, and where names may be bound.
* `Correspondence` — relations between evaluations that single steps respect.
* `Comparison` — relations that calls and tasks respect, too.
* `Correspondence.Evaluators` — evaluators of expressions that a relation relates.

## Main results

* `Correspondence.call_of_steps`, `Correspondence.start_of_steps` — calls and tasks step by step.
* `Comparison.applyValue` — **calls of matching values with matching arguments compare.**
* `Comparison.evaluateOn`, `Comparison.runProgramOn` — **evaluations of one expression and of one
  program compare.**
-/

namespace Monkey

universe u v

open Machine (act)

/-- A shortcut to the order of what is known where nothing has to be known. -/
instance (priority := high) unitPreorder : Preorder Unit := PUnit.instLinearOrder.toPreorder

/-- Any two results. -/
def anyResults {W α β : Type} (_ : W) (_ : α) (_ : β) : Prop := True

/-- The same result. -/
def sameResult {W α : Type} (_ : W) (a b : α) : Prop := a = b

/-- Lists of values that match one by one. -/
def AllMatch (μ : Matching) : List Value → List Value → Prop :=
  List.Forall₂ (Value.Matches μ)

/-- Notes of the same sort about matching values. -/
inductive Note.Matches (μ : Matching) : Note → Note → Prop
  | gave {v w : Value} : Value.Matches μ v w → Matches μ (.gave v) (.gave w)
  | operands {vs ws : List Value} : AllMatch μ vs ws → Matches μ (.operands vs) (.operands ws)
  | applied {f g : Value} {vs ws : List Value} : Value.Matches μ f g → AllMatch μ vs ws →
    Matches μ (.applied f vs) (.applied g ws)
  | resulted {v w : Value} : Value.Matches μ v w → Matches μ (.resulted v) (.resulted w)
  | raised (e : EvalError) : Matches μ (.raised e) (.raised e)

/-- What lists of expressions give: parts that `Q` relates, or abrupt values that match. -/
inductive PartsMatch {α : Type} (Q : Matching → α → α → Prop) (μ : Matching) :
    Except Value α → Except Value α → Prop
  | ok {as bs : α} : Q μ as bs → PartsMatch Q μ (.ok as) (.ok bs)
  | error {v w : Value} : Value.Matches μ v w → PartsMatch Q μ (.error v) (.error w)

/-- Only equal parts match, if that holds of what `Q` relates. -/
theorem PartsMatch.eq {α : Type} {Q : Matching → α → α → Prop} {parts parts' : Except Value α}
    (h : PartsMatch Q .identity parts parts') (hQ : ∀ a b, Q .identity a b → a = b) :
    parts = parts' := by
  cases h with
  | ok hab => rw [hQ _ _ hab]
  | error hv => rw [hv.eq]

section

/-- What is known of two runs.  None of it is ever lost. -/
structure Knowledge (W : Type) [Preorder W] where
  /-- The numbers that are known to stand for one another. -/
  matching : W → Matching
  /-- The scopes in which names may be bound. -/
  Owns : W → Nat → Nat → Prop
  matching_mono : ∀ {w w' : W}, w ≤ w' → matching w ≤ matching w'
  owns_mono : ∀ {w w' : W} {a b : Nat}, w ≤ w' → Owns w a b → Owns w' a b
  scopes_of_owns : ∀ {w : W} {a b : Nat}, Owns w a b → (matching w).scopes a b

/-- All numbers stand for themselves, and names may be bound in all scopes. -/
def Knowledge.identity : Knowledge Unit where
  matching _ := .identity
  Owns _ := Eq
  matching_mono _ := le_refl _
  owns_mono _ := id
  scopes_of_owns := id

variable (W : Type) [Preorder W] (m : Type → Type u) (n : Type → Type v) [Monad m] [Machine m]
  [Monad n] [Machine n]

/-- Relations between evaluations, of what they do and of what they give, that doing one thing after
another and every single step respect. -/
structure Correspondence extends Knowledge W where
  /-- The two evaluations are related where so much is known, and what they give is, where they
  end. -/
  Runs : {α β : Type} → W → (W → α → β → Prop) → m α → n β → Prop
  pure : ∀ {α β : Type} {w : W} {Q : W → α → β → Prop} {a : α} {b : β},
    Q w a b → Runs w Q (pure a) (pure b)
  bind : ∀ {α β γ δ : Type} {w : W} {P : W → α → β → Prop} {Q : W → γ → δ → Prop} {x : m α}
    {y : n β} {k : α → m γ} {l : β → n δ},
    Runs w P x y → (∀ w' a b, w ≤ w' → P w' a b → Runs w' Q (k a) (l b)) →
    Runs w Q (x >>= k) (y >>= l)
  noted : ∀ {α β : Type} {w : W} {Q : W → α → β → Prop} {x : m α} {y : n β} {e f : Note},
    e.Matches (matching w) f → Runs w Q x y → Runs w Q (Machine.noted e x) (Machine.noted f y)
  giving : ∀ {w : W} {x : m Value} {y : n Value},
    Runs w (fun w => Value.Matches (matching w)) x y →
    Runs w (fun w => Value.Matches (matching w)) (Machine.giving x) (Machine.giving y)
  stuck : ∀ {w : W} {Q : W → Value → Value → Prop}, Runs w Q (act .stuck) (act .stuck)
  fresh : ∀ {w : W}, Runs w (fun w => (matching w).addresses) (act .fresh) (act .fresh)
  newScope : ∀ {w : W} {a b : Nat}, (matching w).scopes a b →
    Runs w Owns (act (.newScope (some a))) (act (.newScope (some b)))
  setName : ∀ {w : W} {a b : Nat} {v v' : Value} (name : String), Owns w a b →
    Value.Matches (matching w) v v' →
    Runs w anyResults (act (.setName a name v)) (act (.setName b name v'))
  /-- No name that is reserved is ever looked up. -/
  find : ∀ {w : W} {a b : Nat} {name : String}, Intrinsic.ofName? name = none →
    (matching w).scopes a b →
    Runs w (fun w => Option.Rel (Value.Matches (matching w))) (Machine.find a name)
      (Machine.find b name)
  printed : ∀ {w : W} {vs ws : List Value} (f : Builtin), AllMatch (matching w) vs ws →
    Runs w anyResults (Machine.print (f.printed vs)) (Machine.print (f.printed ws))
  await : ∀ {w : W} {a b : Nat}, (matching w).tasks a b →
    Runs w (fun w => Value.Matches (matching w)) (awaitTask (.task a)) (awaitTask (.task b))

/-- Relations that calls and tasks respect, too. -/
structure Comparison extends Correspondence W m n where
  call : ∀ {w : W} {c d : Closure} {vs ws : List Value} {x : m Nat} {y : n Nat}
    {k : Nat → m Value} {l : Nat → n Value},
    c.Matches (matching w) d → AllMatch (matching w) vs ws → Runs w Owns x y →
    (∀ w' a b, w ≤ w' → Owns w' a b →
      Runs w' (fun w => Value.Matches (matching w)) (k a) (l b)) →
    Runs w (fun w => Value.Matches (matching w)) (Machine.call c vs x k) (Machine.call d ws y l)
  start : ∀ {w : W} {x : m Value} {y : n Value},
    (∀ w', w ≤ w' → Runs w' (fun w => Value.Matches (matching w)) x y) →
    Runs w (fun w => Value.Matches (matching w)) (Machine.start x) (Machine.start y)

end

variable {W : Type} [Preorder W] {m : Type → Type u} {n : Type → Type v} [Monad m] [Machine m]
  [Monad n] [Machine n]

namespace Correspondence

variable (C : Correspondence W m n)

/-- The two evaluations compare, and so do the values that they give. -/
abbrev Yields (w : W) (x : m Value) (y : n Value) : Prop :=
  C.Runs w (fun w => Value.Matches (C.matching w)) x y

/-- Evaluators of expressions that compare in scopes in which names may be bound. -/
def Evaluators (eval : Expr → Nat → m Value) (plain : Expr → Nat → n Value) : Prop :=
  ∀ {w : W} {a b : Nat} (e : Expr), C.Owns w a b → C.Yields w (eval e a) (plain e b)

section

variable {C : Correspondence W m n} {w : W}

/-! ### Single steps -/

/-- A value that is made at a new address. -/
theorem allocate {f g : Nat → Value}
    (h : ∀ {w' a b}, w ≤ w' → (C.matching w').addresses a b →
      Value.Matches (C.matching w') (f a) (g b)) :
    C.Yields w (Machine.allocate f) (Machine.allocate g) :=
  C.bind C.fresh fun _ _ _ hle hab => C.pure (h hle hab)

theorem raise (e : EvalError) : C.Yields w (Machine.raise e) (Machine.raise e) :=
  C.noted (.raised e) (allocate fun _ hab => e.toValue_matches hab)

theorem operate {vs ws : List Value} {f g : Nat → Value} (hvs : AllMatch (C.matching w) vs ws)
    (h : ∀ {w' a b}, w ≤ w' → (C.matching w').addresses a b →
      Value.Matches (C.matching w') (f a) (g b)) :
    C.Yields w (Machine.operate vs f) (Machine.operate ws g) :=
  C.noted (.operands hvs) (allocate h)

theorem andThen {x : m Value} {y : n Value} {k : Value → m Value} {l : Value → n Value}
    (hxy : C.Yields w x y)
    (hkl : ∀ {w' v v'}, w ≤ w' → Value.Matches (C.matching w') v v' → C.Yields w' (k v) (l v')) :
    C.Yields w (Machine.andThen x k) (Machine.andThen y l) := by
  refine C.bind hxy fun w' v v' hle hv => ?_
  rw [hv.isAbrupt_eq]
  split
  · exact C.pure hv
  · exact hkl hle hv

theorem returning {v v' : Value} (h : Value.Matches (C.matching w) v v') :
    C.Yields w (Machine.returning v) (Machine.returning v') :=
  C.giving (allocate fun hle hab => .returned hab (h.mono (C.matching_mono hle)))

theorem leave {v v' : Value} (h : Value.Matches (C.matching w) v v') :
    C.Yields w (Machine.leave v) (Machine.leave v') :=
  C.noted (.resulted h.unwrapReturn) (C.pure h.unwrapReturn)

theorem setNames {a b : Nat} (es : List (String × Value)) :
    ∀ {w : W} {fs : List (String × Value)}, C.Owns w a b →
      Keywise (Value.Matches (C.matching w)) es fs →
      C.Runs w anyResults (Machine.setNames a es) (Machine.setNames b fs) := by
  induction es with
  | nil =>
    intro w fs _ h
    cases h
    exact C.pure trivial
  | cons entry rest ih =>
    intro w fs hab h
    cases h with
    | cons name hv hrest =>
      refine C.bind (C.setName name hab hv) fun w' _ _ hle _ => ?_
      exact ih (C.owns_mono hle hab) (hrest.imp fun _ _ => Value.Matches.mono (C.matching_mono hle))

/-! ### Calls and tasks step by step -/

/-- A call compares if asking for it gives the same answer to both and entering and leaving it keeps
what is related. -/
theorem call_of_steps
    (hpermit : ∀ {w : W} {c d : Closure} {vs ws : List Value}, c.Matches (C.matching w) d →
      AllMatch (C.matching w) vs ws →
      C.Runs w sameResult (act (.permit c vs)) (act (.permit d ws)))
    (hinCall : ∀ {w : W} {c d : Closure} {x : m Value} {y : n Value}, c.Matches (C.matching w) d →
      C.Yields w x y → C.Yields w (Machine.inCall c x) (Machine.inCall d y))
    {c d : Closure} {vs ws : List Value} {x : m Nat} {y : n Nat} {k : Nat → m Value}
    {l : Nat → n Value} (hcd : c.Matches (C.matching w) d) (hvs : AllMatch (C.matching w) vs ws)
    (hxy : ∀ w', w ≤ w' → C.Runs w' C.Owns x y)
    (hkl : ∀ w' a b, w ≤ w' → C.Owns w' a b → C.Yields w' (k a) (l b)) :
    C.Yields w (Machine.call c vs x k) (Machine.call d ws y l) := by
  refine C.bind (hpermit hcd hvs) fun w₁ refusal _ hle₁ hsame => ?_
  -- both calls are refused for the same reason, or neither is
  cases hsame
  cases refusal with
  | some e => exact raise e
  | none =>
    refine C.bind (hxy w₁ hle₁) fun w₂ a b hle₂ hab => ?_
    have hle := le_trans hle₁ hle₂
    have hbody := hkl w₂ a b hle hab
    exact C.bind (hinCall (hcd.mono (C.matching_mono hle)) hbody) fun _ _ _ _ hv => leave hv

/-- The start of a task compares if registering it does and if the host treats both alike. -/
theorem start_of_steps
    (hregister : ∀ {w : W}, C.Runs w (fun w => (C.matching w).tasks) (act .register)
      (act .register))
    (hspawn : ∀ {w : W} {i j : Nat} {x : m Value} {y : n Value}, (C.matching w).tasks i j →
      C.Yields w x y → C.Runs w sameResult (Machine.spawn i x) (Machine.spawn j y))
    {x : m Value} {y : n Value} (hxy : ∀ w', w ≤ w' → C.Yields w' x y) :
    C.Yields w (Machine.start x) (Machine.start y) := by
  refine C.bind hregister fun w₁ i j hle hij => ?_
  have hbody := C.bind (hxy w₁ hle) fun _ _ _ _ hv => leave hv
  refine C.bind (hspawn hij hbody) fun w₂ refusal _ hle₂ hsame => ?_
  cases hsame
  cases refusal with
  | some reason => exact raise _
  | none => exact C.pure (.task ((C.matching_mono hle₂).2.2 hij))

end

end Correspondence

namespace Comparison

open Correspondence

variable {C : Comparison W m n} {w : W} {eval : Expr → Nat → m Value} {plain : Expr → Nat → n Value}
  {a b : Nat}

/-! ### Statements and lists of expressions -/

theorem evalStmt (h : C.Evaluators eval plain) (st : Stmt) (hab : C.Owns w a b) :
    C.Yields w (Monkey.evalStmt eval st a) (Monkey.evalStmt plain st b) := by
  cases st with
  | letBe name value =>
    refine andThen (h value hab) fun hle hv => ?_
    refine C.bind (C.setName name (C.owns_mono hle hab) hv) fun _ _ _ hle' _ => ?_
    exact C.pure (hv.mono (C.matching_mono hle'))
  | ret value => exact andThen (h value hab) fun _ hv => returning hv
  | expr value => exact h value hab

theorem evalBodyFrom (h : C.Evaluators eval plain) (body : List Stmt) :
    ∀ {w : W} {v v' : Value}, C.Owns w a b → Value.Matches (C.matching w) v v' →
      C.Yields w (Monkey.evalBodyFrom eval a v body) (Monkey.evalBodyFrom plain b v' body) := by
  induction body with
  | nil => exact fun _ hv => C.pure hv
  | cons st rest ih =>
    intro w v v' hab _
    exact andThen (evalStmt h st hab) fun hle hv => ih (C.owns_mono hle hab) hv

theorem evalBody (h : C.Evaluators eval plain) (body : Block) (hab : C.Owns w a b) :
    C.Yields w (Monkey.evalBody eval body a) (Monkey.evalBody plain body b) :=
  evalBodyFrom h body hab .null

theorem evalProgram (h : C.Evaluators eval plain) (program : Program) (hab : C.Owns w a b) :
    C.Yields w (Monkey.evalProgram eval program a) (Monkey.evalProgram plain program b) :=
  C.bind (evalBody h program hab) fun _ _ _ _ hv => leave hv

theorem evalArgs (h : C.Evaluators eval plain) (args : List Expr) :
    ∀ {w : W}, C.Owns w a b →
      C.Runs w (fun w => PartsMatch AllMatch (C.matching w)) (Monkey.evalArgs eval a args)
        (Monkey.evalArgs plain b args) := by
  induction args with
  | nil => exact fun _ => C.pure (.ok .nil)
  | cons e rest ih =>
    intro w hab
    refine C.bind (h e hab) fun w₁ v v' hle hv => ?_
    rw [hv.isAbrupt_eq]
    split
    · exact C.pure (.error hv)
    · refine C.bind (ih (C.owns_mono hle hab)) fun w₂ parts parts' hle' hparts => ?_
      cases hparts with
      | ok hvs => exact C.pure (.ok (.cons (hv.mono (C.matching_mono hle')) hvs))
      | error herr => exact C.pure (.error herr)

theorem evalPairs (h : C.Evaluators eval plain) (pairs : List (Expr × Expr)) :
    ∀ {w : W} {es fs : Entries Value}, C.Owns w a b →
      Keywise (Value.Matches (C.matching w)) es fs →
      C.Runs w (fun w => PartsMatch (fun ν => Keywise (Value.Matches ν)) (C.matching w))
        (Monkey.evalPairs eval a es pairs) (Monkey.evalPairs plain b fs pairs) := by
  induction pairs with
  | nil => exact fun _ hes => C.pure (.ok hes)
  | cons pair rest ih =>
    obtain ⟨key, value⟩ := pair
    intro w es fs hab hes
    refine C.bind (h key hab) fun w₁ k k' hle hk => ?_
    rw [hk.isAbrupt_eq]
    split
    · exact C.pure (.error hk)
    · rw [hk.hashKey?_eq, hk.type_eq]
      cases k'.hashKey? with
      | none => exact C.bind (raise _) fun _ _ _ _ herr => C.pure (.error herr)
      -- the entries so far were made in an earlier world
      | some hashKey =>
        refine C.bind (h value (C.owns_mono hle hab)) fun w₂ v v' hle₂ hv => ?_
        rw [hv.isAbrupt_eq]
        split
        · exact C.pure (.error hv)
        · have hle' := le_trans hle hle₂
          have hstored := hes.imp fun _ _ => Value.Matches.mono (C.matching_mono hle')
          exact ih (C.owns_mono hle' hab) (hstored.insert hashKey hv)

/-! ### Calls and tasks -/

/-- The scope of a call, in which the arguments are bound. -/
theorem callScope {c d : Closure} (hcd : c.Matches (C.matching w) d) {vs ws : List Value}
    (hvs : AllMatch (C.matching w) vs ws) :
    C.Runs w C.Owns
      (do
        let inner ← act (.newScope (some c.scope))
        Machine.setNames inner (c.params.zip vs)
        return inner : m Nat)
      (do
        let inner ← act (.newScope (some d.scope))
        Machine.setNames inner (d.params.zip ws)
        return inner : n Nat) := by
  rw [hcd.params_eq]
  refine C.bind (C.newScope hcd.scope) fun w₁ i j hle hij => ?_
  have hargs := (Keywise.zip d.params hvs).imp fun _ _ =>
    Value.Matches.mono (C.matching_mono hle)
  exact C.bind (setNames _ hij hargs) fun _ _ _ hle' _ => C.pure (C.owns_mono hle' hij)

theorem callClosure (h : C.Evaluators eval plain) {c d : Closure}
    (hcd : c.Matches (C.matching w) d) {vs ws : List Value} (hvs : AllMatch (C.matching w) vs ws) :
    C.Yields w (Monkey.callClosure eval c vs) (Monkey.callClosure plain d ws) := by
  refine C.call hcd hvs (callScope hcd hvs) fun w' i j _ hij => ?_
  rw [hcd.body_eq]
  exact evalBody h d.body hij

theorem evalText (h : C.Evaluators eval plain) {v v' : Value}
    (hv : Value.Matches (C.matching w) v v') (hab : C.Owns w a b) :
    C.Yields w (Monkey.evalText eval v a) (Monkey.evalText plain v' b) := by
  cases hv with
  | string source =>
    simp only [Monkey.evalText]
    cases (parse source).toExcept with
    | ok program =>
      exact C.bind (C.newScope (C.scopes_of_owns hab)) fun _ _ _ _ hij => evalProgram h program hij
    | error errors => exact raise _
  | _ => exact raise _

theorem launch (h : C.Evaluators eval plain) {v v' : Value}
    (hv : Value.Matches (C.matching w) v v') (hab : C.Owns w a b) :
    C.Yields w (Monkey.launch eval v a) (Monkey.launch plain v' b) := by
  cases hv with
  | function _ hcd =>
    simp only [Monkey.launch, hcd.body_eq]
    refine C.bind (C.newScope (C.scopes_of_owns hab)) fun w₁ i j _ hij => ?_
    exact C.start fun w₂ hle => evalBody h _ (C.owns_mono hle hij)
  | _ => exact raise _

theorem awaitTask {v v' : Value} (hv : Value.Matches (C.matching w) v v') :
    C.Yields w (Monkey.awaitTask v) (Monkey.awaitTask v') := by
  cases hv with
  | task hid => exact C.await hid
  | _ => exact raise _

theorem callIntrinsic (h : C.Evaluators eval plain) (i : Intrinsic) {vs ws : List Value}
    (hvs : AllMatch (C.matching w) vs ws) (hab : C.Owns w a b) :
    C.Yields w (Monkey.callIntrinsic eval i vs a) (Monkey.callIntrinsic plain i ws b) := by
  -- an intrinsic takes one argument
  rcases hvs with _ | ⟨hv, _ | ⟨_, hrest⟩⟩
  · exact raise _
  · cases i with
    | eval => exact evalText h hv hab
    | launch => exact launch h hv hab
    | await => exact awaitTask hv
  · simp only [Monkey.callIntrinsic, List.length_cons, hrest.length_eq]
    exact raise _

theorem callBuiltin (f : Builtin) {vs ws : List Value} (hvs : AllMatch (C.matching w) vs ws) :
    C.Yields w (Monkey.callBuiltin f vs) (Monkey.callBuiltin f ws) := by
  refine C.bind (C.printed f hvs) fun w₁ _ _ hle _ => ?_
  exact allocate fun hle' haddr =>
    f.apply_matches (allMatch_mono (C.matching_mono (le_trans hle hle')) hvs) haddr

/-- **Calls of matching values with matching arguments compare.** -/
theorem applyValue (h : C.Evaluators eval plain) {v v' : Value}
    (hv : Value.Matches (C.matching w) v v') {vs ws : List Value}
    (hvs : AllMatch (C.matching w) vs ws) (hab : C.Owns w a b) :
    C.Yields w (Monkey.applyValue eval v vs a) (Monkey.applyValue plain v' ws b) := by
  refine C.noted (.applied hv hvs) ?_
  cases hv with
  | function _ hcd => exact callClosure h hcd hvs
  | builtin f => exact callBuiltin f hvs
  | intrinsic i => exact callIntrinsic h i hvs hab
  | _ => exact raise _

/-! ### Expressions and programs -/

theorem evalName (name : String) (hab : C.Owns w a b) :
    C.Yields w (Monkey.evalName name a) (Monkey.evalName name b) := by
  unfold Monkey.evalName
  cases hname : Intrinsic.ofName? name with
  | some i => exact C.pure (.intrinsic i)
  | none =>
    refine C.bind (C.find hname (C.scopes_of_owns hab)) fun w₁ found found' _ hfound => ?_
    cases hfound with
    | some hv => exact C.pure hv
    | none =>
      cases Builtin.ofName? name with
      | some f => exact C.pure (.builtin f)
      | none => exact raise _

theorem evalBranch (h : C.Evaluators eval plain) (branch : Option Block) (hab : C.Owns w a b) :
    C.Yields w (Monkey.evalBranch eval branch a) (Monkey.evalBranch plain branch b) := by
  cases branch with
  | none => exact C.pure .null
  | some body => exact evalBody h body hab

/-! ### Quoting -/

variable [LawfulMonad m] [LawfulMonad n]

/-- Effects of rewriting that compare, from where `w` is known on. -/
def rewriting (C : Comparison W m n) (w : W) :
    EffectRelation (StateT (Option Value) m) (StateT (Option Value) n) where
  Related x y := ∀ w' failure failure', w ≤ w' →
    Option.Rel (Value.Matches (C.matching w')) failure failure' →
    C.Runs w' (fun κ p q => p.1 = q.1 ∧ Option.Rel (Value.Matches (C.matching κ)) p.2 q.2)
      (x.run failure) (y.run failure')
  pure _ _ _ _ _ hfailure := by
    rw [StateT.run_pure, StateT.run_pure]
    exact C.pure ⟨rfl, hfailure⟩
  bind hx hk w' failure failure' hle hfailure := by
    rw [StateT.run_bind, StateT.run_bind]
    refine C.bind (hx w' failure failure' hle hfailure) fun κ p q hle' hpq => ?_
    rw [hpq.1]
    exact hk q.1 κ p.2 q.2 (le_trans hle hle') hpq.2

theorem unquoteVisit (h : C.Evaluators eval plain) (hab : C.Owns w a b) (e : Expr) :
    (rewriting C w).Related (Monkey.unquoteVisit eval a e) (Monkey.unquoteVisit plain b e) := by
  intro w' failure failure' hle hfailure
  cases hfailure with
  | some herr =>
    rw [run_unquoteVisit_some, run_unquoteVisit_some]
    exact C.pure ⟨rfl, .some herr⟩
  | none =>
    rw [run_unquoteVisit_none, run_unquoteVisit_none]
    cases e.unquoted? with
    | none => exact C.pure ⟨rfl, .none⟩
    | some argument =>
      refine C.bind (h argument (C.owns_mono hle hab)) fun κ v v' _ hv => ?_
      -- matching values become the same expression, or none
      rw [hv.unwrapReturn.isError_eq, hv.unwrapReturn.toExpr?_eq]
      split
      · exact C.pure ⟨rfl, .some hv.unwrapReturn⟩
      · exact C.pure ⟨rfl, .none⟩

theorem quoteArgs (h : C.Evaluators eval plain) (args : List Expr) (hab : C.Owns w a b) :
    C.Yields w (Monkey.quoteArgs eval args a) (Monkey.quoteArgs plain args b) := by
  cases args with
  | nil => exact raise _
  | cons e rest =>
    have hvisit := Expr.rewriteM_related (rewriting C w) (unquoteVisit h hab) e
    refine C.bind (hvisit w none none (le_refl w) .none) fun ν p q _ hpq => ?_
    obtain ⟨node, failure⟩ := p
    obtain ⟨node', failure'⟩ := q
    obtain ⟨rfl, hfailure⟩ := hpq
    cases hfailure with
    | some herr => exact C.pure herr
    | none => exact allocate fun _ haddr => .quote node haddr

/-- One level of evaluation compares, if the evaluations of the parts do. -/
theorem evalStep (h : C.Evaluators eval plain) :
    C.Evaluators (Monkey.evalStep eval) (Monkey.evalStep plain) := by
  intro w a b e hab
  cases e with
  -- values that are made here match by the rule for their kind; what was there before matches
  -- still, since matchings only grow
  | ident name => exact evalName name hab
  | int value => exact C.pure (.integer value)
  | bool value => exact C.pure (.boolean value)
  | str text => exact allocate fun _ haddr => .string text haddr
  | unary op right =>
    refine andThen (h right hab) fun _ hv => ?_
    exact operate (.cons hv .nil) fun hle haddr =>
      op.apply_matches (hv.mono (C.matching_mono hle)) haddr
  | binary op left right =>
    refine andThen (h left hab) fun hle hv => ?_
    -- the right operand is evaluated in a later world than the left one
    refine andThen (h right (C.owns_mono hle hab)) fun hle' hv' => ?_
    have hvs := hv.mono (C.matching_mono hle')
    exact operate (.cons hvs (.cons hv' .nil)) fun hlast haddr =>
      op.apply_matches (hvs.mono (C.matching_mono hlast)) (hv'.mono (C.matching_mono hlast)) haddr
  | cond condition consequence alternative =>
    refine andThen (h condition hab) fun hle hv => ?_
    -- matching conditions choose the same branch
    rw [hv.isTruthy_eq]
    exact evalBranch h _ (C.owns_mono hle hab)
  | fn params body =>
    exact allocate fun hle haddr =>
      .function haddr ⟨rfl, rfl, C.scopes_of_owns (C.owns_mono hle hab)⟩
  | macroFn params body =>
    exact allocate fun hle haddr =>
      .macroFn haddr ⟨rfl, rfl, C.scopes_of_owns (C.owns_mono hle hab)⟩
  | call callee args =>
    simp only [Monkey.evalStep]
    split
    · exact quoteArgs h args hab
    · refine andThen (h callee hab) fun hle hf => ?_
      refine C.bind (evalArgs h args (C.owns_mono hle hab)) fun κ parts parts' hle' hparts => ?_
      cases hparts with
      | ok hvs =>
        exact applyValue h (hf.mono (C.matching_mono hle')) hvs
          (C.owns_mono (le_trans hle hle') hab)
      | error herr => exact C.pure herr
  | array elements =>
    refine C.bind (evalArgs h elements hab) fun w₁ parts parts' _ hparts => ?_
    cases hparts with
    | ok hvs =>
      exact allocate fun hle haddr => .array haddr (allMatch_mono (C.matching_mono hle) hvs)
    | error herr => exact C.pure herr
  | index base position =>
    refine andThen (h base hab) fun hle hv => ?_
    refine andThen (h position (C.owns_mono hle hab)) fun hle' hv' => ?_
    have hvs := hv.mono (C.matching_mono hle')
    exact operate (.cons hvs (.cons hv' .nil)) fun hlast haddr =>
      Value.at_matches (hvs.mono (C.matching_mono hlast)) (hv'.mono (C.matching_mono hlast)) haddr
  | hash pairs =>
    refine C.bind (evalPairs h pairs hab .nil) fun w₁ parts parts' _ hparts => ?_
    cases hparts with
    | ok hes =>
      exact allocate fun hle haddr => .hash haddr (entriesMatch_mono (C.matching_mono hle) hes)
    | error herr => exact C.pure herr

/-- **The evaluations of one expression compare.** -/
theorem evaluateOn (C : Comparison W m n) (budget : Nat) :
    C.Evaluators (evaluateOn m budget) (evaluateOn n budget) := by
  induction budget with
  | zero => exact fun _ _ => C.stuck
  | succ budget ih => exact fun e hab => C.giving (evalStep ih e hab)

/-- **The evaluations of one program compare.** -/
theorem runProgramOn (C : Comparison W m n) (budget : Nat) (program : Program)
    (hab : C.Owns w a b) :
    C.Yields w (runProgramOn m budget program a) (runProgramOn n budget program b) :=
  evalProgram (C.evaluateOn budget) program hab

end Comparison

end Monkey
