import Monkey.Proofs.Exceptions
import Monkey.Proofs.Stored

/-!
# Abrupt values are exceptions

Evaluation hands errors and `return` wrappers on as values, and looks at each value it gets before
it goes on.  In a clean state this is evaluation with exceptions: no look is missing, and none of
them is made in a wrong place.  Both come to the same values, errors and `return`s, and to the same
states.

## Main definitions

* `Agrees` — evaluations that come to the same as evaluations with exceptions do.
* `EndsAs` — what this says of a value, of an error and of a `return`.

## Main results

* `evaluate_agrees` — agreement of the evaluation of expressions, by induction on the budget.
* `evaluation_endsAs_exceptions` — **expressions, lists of statements and programs end as they do
  with exceptions.**
-/

namespace Monkey

open Raising (outcome)

/-- A look at what an evaluation with exceptions comes to, in a state. -/
theorem map_run_eq {α β : Type} (f : Except Raised α → β) (y : Raising α) (s : State) :
    (f <$> y.run) s = (y.run s).map fun p => (f p.1, p.2) := by
  change (StateT.map f y.run) s = _
  simp only [StateT.map, Option.bind_eq_bind, Option.map_eq_bind]
  rfl

/-- From every clean state, the evaluation `x` comes to what `f` makes of that which the evaluation
`y` with exceptions comes to, and to the same state. -/
def Agrees {α β : Type} (r : Region) (f : Except Raised α → β) (x : Eval β) (y : Raising α) :
    Prop :=
  ∀ s, s.CleanIn r → x s = (f <$> y.run) s

namespace Agrees

variable {α β γ δ : Type} {r : Region} {f : Except Raised α → β} {g : Except Raised γ → δ}

theorem pure (f : Except Raised α → β) (a : α) : Agrees r f (pure (f (.ok a))) (pure a) :=
  fun _ _ => rfl

theorem throw (f : Except Raised α → β) (e : Raised) :
    Agrees r f (Pure.pure (f (.error e))) (throw e) :=
  fun _ _ => rfl

/-- Going on after a part.  What the part raises is looked at by the one and raised further by the
other. -/
theorem bind {Q : δ → Prop} {x : Eval δ} {y : Raising γ} {k : δ → Eval β} {l : γ → Raising α}
    (hkeeps : Eval.Keeps r Q x) (hx : Agrees r g x y)
    (hok : ∀ c, Q (g (.ok c)) → Agrees r f (k (g (.ok c))) (l c))
    (herror : ∀ e, Q (g (.error e)) → k (g (.error e)) = Pure.pure (f (.error e))) :
    Agrees r f (x >>= k) (y >>= l) := by
  intro s hs
  have hend := hkeeps s
  change (x s).bind (fun p => k p.1 p.2) = _
  rw [hx s hs, map_run_eq] at hend ⊢
  rw [ExceptT.run_bind, map_bind]
  change _ = (y.run s).bind fun p => _
  rcases hy : y.run s with _ | ⟨e | c, t⟩
  · rfl
  · -- what is raised is given at once, as the value that stands for it
    rw [hy] at hend
    obtain ⟨_, he⟩ := hend (g (.error e)) t hs rfl
    simp only [Option.map_some, Option.bind_some, herror e he, map_pure]
  · rw [hy] at hend
    obtain ⟨ht, hc⟩ := hend (g (.ok c)) t hs rfl
    exact hok c hc t ht

/-- Going on after a step that raises nothing. -/
theorem step {Q : γ → Prop} {x : Eval γ} {k : γ → Eval β} {l : γ → Raising α}
    (hkeeps : Eval.Keeps r Q x) (hk : ∀ c, Q c → Agrees r f (k c) (l c)) :
    Agrees r f (x >>= k) (liftM x >>= l) := by
  intro s hs
  have hend := hkeeps s
  change (x s).bind (fun p => k p.1 p.2) = _
  rw [ExceptT.run_bind, map_bind]
  change _ = ((Except.ok <$> x) s).bind fun p => _
  change _ = (StateT.map Except.ok x s).bind fun p => _
  simp only [StateT.map]
  cases hx : x s with
  | none => rfl
  | some p =>
    obtain ⟨c, t⟩ := p
    obtain ⟨ht, hc⟩ := hend c t hs hx
    exact hk c hc t ht

theorem stuck : Agrees r f Eval.stuck (liftM (Eval.stuck : Eval α)) := fun _ _ => rfl

/-- Raising an error, and giving the value that stands for it. -/
theorem raise (e : EvalError) {k : Value → Eval β}
    (h : ∀ addr, k (e.toValue addr) = Pure.pure (f (.error (.error addr e.message)))) :
    Agrees r f (Machine.raise e >>= k) (Raising.raise e) := by
  intro s _
  change k (e.toValue s.nextAddress) _ = _
  rw [h]
  rfl

/-- An error is raised where a call, an operation or a name gives it. -/
theorem raised (e : EvalError) : Agrees r outcome (Machine.raise e) (Raising.raise e) :=
  raise (k := Pure.pure) e fun _ => rfl

theorem settle {v : Value} (h : v.ResultIn r) :
    Agrees r outcome (Pure.pure v) (Raising.settle v) := by
  intro s _
  cases v with
  | returned => exact h.elim
  | _ => rfl

theorem operate {operation : Nat → Value} (h : ∀ addr, (operation addr).ResultIn r) :
    Agrees r outcome (Eval.fresh >>= fun addr => Pure.pure (operation addr))
      (Raising.operate operation) :=
  .step .fresh fun addr _ => .settle (h addr)

/-- Looking at a value before going on is raising it. -/
theorem look {x : Eval Value} {y : Raising Proper} {fail : Value → β} {k : Value → Eval β}
    {l : Proper → Raising α} (hkeeps : Eval.Keeps r (Value.OutcomeIn r) x)
    (hx : Agrees r outcome x y)
    (hok : ∀ v : Proper, v.value.CleanIn r → Agrees r f (k v.value) (l v))
    (herror : ∀ e : Raised, fail e.toValue = f (.error e)) :
    Agrees r f (x >>= fun v => if v.isAbrupt then Pure.pure (fail v) else k v) (y >>= l) := by
  refine bind hkeeps hx (fun v hv => ?_) fun e _ => ?_
  · have hproper : (outcome (.ok v)).isAbrupt = false := v.proper
    rw [hproper, if_neg Bool.false_ne_true]
    exact hok v (hv.cleanIn hproper)
  · -- what is raised is an abrupt value for the other evaluation, which looks for one
    have habrupt : (outcome (.error e : Except Raised Proper)).isAbrupt = true := by
      cases e <;> rfl
    rw [habrupt, if_pos rfl]
    exact congrArg Pure.pure (herror e)

theorem andThen {x : Eval Value} {y : Raising Proper} {k : Value → Eval Value}
    {l : Proper → Raising Proper} (hkeeps : Eval.Keeps r (Value.OutcomeIn r) x)
    (hx : Agrees r outcome x y)
    (hk : ∀ v : Proper, v.value.CleanIn r → Agrees r outcome (k v.value) (l v)) :
    Agrees r outcome (Machine.andThen x k) (y >>= l) :=
  look hkeeps hx hk fun _ => rfl

/-- Unwrapping what a body gives is catching a `return`. -/
theorem catchReturn {x : Eval Value} {y : Raising Proper} (hx : Agrees r outcome x y) :
    Agrees r outcome (x >>= fun v => Pure.pure v.unwrapReturn) (Raising.catchReturn y) := by
  intro s hs
  change (x s).bind (fun p => _) = _
  rw [hx s hs, map_run_eq, map_run_eq, Raising.catchReturn, ExceptT.run_tryCatch]
  change _ = ((y.run s).bind fun p => _).map _
  rcases y.run s with _ | ⟨(⟨addr, message⟩ | ⟨addr, v⟩) | v, t⟩
  · rfl
  · rfl
  · rfl
  · obtain ⟨v, hv⟩ := v
    cases v with
    | returned => cases hv
    | _ => rfl

/-- The body of a function leaves the count of active calls as it was, whatever it comes to. -/
theorem inCall {x : Eval Value} {y : Raising Proper} (hx : Agrees r outcome x y) :
    Agrees r outcome
      (Eval.enterCall >>= fun _ => x >>= fun v => Eval.leaveCall >>= fun _ =>
        Pure.pure v.unwrapReturn)
      (Raising.inCall (Raising.catchReturn y)) := by
  intro s hs
  have hcaught := catchReturn hx { s with callDepth := s.callDepth + 1 } (hs.congr rfl rfl)
  change (x { s with callDepth := s.callDepth + 1 }).bind (fun p => _) = _ at hcaught
  rw [map_run_eq] at hcaught ⊢
  change (x { s with callDepth := s.callDepth + 1 }).bind (fun p => _) =
    (((Raising.catchReturn y).run { s with callDepth := s.callDepth + 1 }).bind fun p => _).map _
  -- both sides change the state in the same way after what has been compared so far
  rcases hxs : x { s with callDepth := s.callDepth + 1 } with _ | ⟨v, t⟩ <;>
    rcases hys : (Raising.catchReturn y).run { s with callDepth := s.callDepth + 1 } with
      _ | ⟨o, u⟩ <;>
    rw [hxs, hys] at hcaught
  · rfl
  · cases hcaught
  · cases hcaught
  · obtain ⟨hv, ht⟩ := Prod.mk.inj (Option.some.inj hcaught)
    change some (v.unwrapReturn, { t with callDepth := t.callDepth - 1 }) =
      some (outcome o, { u with callDepth := u.callDepth - 1 })
    rw [hv, ht]

/-- A task that counts its own calls. -/
theorem onOwnCount {x : Eval Value} {y : Raising Proper} (hx : Agrees r outcome x y) :
    Agrees r outcome (Eval.onOwnCount x) (ExceptT.mk (Eval.onOwnCount y.run)) := by
  intro s hs
  have hbody := hx { s with callDepth := 0 } (hs.congr rfl rfl)
  rw [map_run_eq] at hbody ⊢
  change Eval.onOwnCount x s = (Eval.onOwnCount y.run s).map _
  unfold Eval.onOwnCount
  rw [hbody]
  cases y.run { s with callDepth := 0 } <;> rfl

/-- A result that is kept and not raised. -/
theorem attempt {Q : Value → Prop} {x : Eval Value} {y : Raising Proper} {k : Value → Eval β}
    {l : Except Raised Proper → Raising α} (hkeeps : Eval.Keeps r Q x)
    (hx : Agrees r outcome x y) (hk : ∀ o, Q (outcome o) → Agrees r f (k (outcome o)) (l o)) :
    Agrees r f (x >>= k) (Raising.attempt y >>= l) := by
  intro s hs
  have hend := hkeeps s
  change (x s).bind (fun p => k p.1 p.2) = _
  rw [hx s hs, map_run_eq] at hend ⊢
  rw [Raising.attempt, ExceptT.run_bind, map_bind, ExceptT.run_lift]
  change _ = (StateT.map Except.ok y.run s).bind fun p => _
  simp only [StateT.map]
  rcases hy : y.run s with _ | ⟨o, t⟩
  · rfl
  · rw [hy] at hend
    obtain ⟨ht, ho⟩ := hend (outcome o) t hs rfl
    exact hk o ho t ht

end Agrees

/-! ### Statements and lists -/

section

variable {r : Region} {n scope : Nat}

/-- Agreement of the evaluation of expressions in every scope of a region. -/
def AgreesOn (r : Region) (n : Nat) : Prop :=
  ∀ e {scope}, r.scopes scope →
    Agrees r outcome (evaluate n e scope) (Raising.evaluate n e scope)

/-- What a list of expressions has come to, as the one evaluation gives it. -/
def gathered {α β : Type} (f : α → β) : Except Raised α → Except Value β
  | .ok a => .ok (f a)
  | .error e => .error e.toValue

theorem evalStmt_agrees (h : AgreesOn r n) (hscope : r.scopes scope) (st : Stmt) :
    Agrees r outcome (evalStmt (evaluate n) st scope)
      (Raising.evalStmt (Raising.evaluate n) scope st) := by
  cases st with
  | letBe name value =>
    refine .andThen (.evaluate hscope n value) (h value hscope) fun v hv => ?_
    exact .step (.setName hv scope name) fun _ _ => .pure outcome v
  | ret value =>
    refine .andThen (.evaluate hscope n value) (h value hscope) fun v _ => ?_
    exact .step .fresh fun addr _ => .throw outcome (.ret addr v)
  | expr value => exact h value hscope

theorem evalBodyFrom_agrees (h : AgreesOn r n) (hscope : r.scopes scope) (body : List Stmt) :
    ∀ last : Proper, Agrees r outcome (evalBodyFrom (evaluate n) scope last.value body)
      (body.foldlM (fun _ st => Raising.evalStmt (Raising.evaluate n) scope st) last) := by
  induction body with
  | nil => exact fun last => .pure outcome last
  | cons st rest ih =>
    intro last
    rw [List.foldlM_cons]
    exact .andThen (.evalStmt hscope n st) (evalStmt_agrees h hscope st) fun v _ => ih v

theorem evalBody_agrees (h : AgreesOn r n) (hscope : r.scopes scope) (body : Block) :
    Agrees r outcome (evalBody (evaluate n) body scope)
      (Raising.evalBody (Raising.evaluate n) body scope) :=
  evalBodyFrom_agrees h hscope body ⟨.null, rfl⟩

theorem evalProgram_agrees (h : AgreesOn r n) (hscope : r.scopes scope) (program : Program) :
    Agrees r outcome (evalProgram (evaluate n) program scope)
      (Raising.evalProgram (Raising.evaluate n) program scope) :=
  .catchReturn (evalBody_agrees h hscope program)

theorem evalArgs_agrees (h : AgreesOn r n) (hscope : r.scopes scope) (args : List Expr) :
    Agrees r (gathered (List.map Proper.value)) (evalArgs (evaluate n) scope args)
      (Raising.evalArgs (Raising.evaluate n) scope args) := by
  induction args with
  | nil => exact .pure _ []
  | cons e rest ih =>
    unfold Raising.evalArgs at ih ⊢
    rw [List.mapM_cons]
    refine .look (.evaluate hscope n e) (h e hscope) (fun v _ => ?_) fun _ => rfl
    refine .bind (.evalArgs hscope n rest) ih (fun vs _ => ?_) fun _ _ => rfl
    exact .pure _ (v :: vs)

/-- The entries of a hash as values. -/
def entryValues (entries : Entries Proper) : Entries Value :=
  entries.map fun entry => (entry.1, entry.2.value)

theorem entryValues_insert (key : HashKey) (v : Proper) (entries : Entries Proper) :
    entryValues (Entries.insert key v entries) =
      Entries.insert key v.value (entryValues entries) := by
  induction entries with
  | nil => rfl
  | cons entry rest ih =>
    obtain ⟨other, w⟩ := entry
    unfold entryValues at ih ⊢
    simp only [List.map_cons, Entries.insert]
    split
    · rfl
    · split
      · rfl
      · rw [List.map_cons, ih]

theorem foldPairs_agrees (h : AgreesOn r n) (hscope : r.scopes scope)
    (pairs : List (Expr × Expr)) : ∀ entries : Entries Proper,
    Agrees r (gathered entryValues) (evalPairs (evaluate n) scope (entryValues entries) pairs)
      (pairs.foldlM (Raising.addPair (Raising.evaluate n) scope) entries) := by
  induction pairs with
  | nil => exact fun entries => .pure _ entries
  | cons pair rest ih =>
    obtain ⟨key, value⟩ := pair
    intro entries
    rw [List.foldlM_cons, Raising.addPair, bind_assoc]
    refine .look (.evaluate hscope n key) (h key hscope) (fun k _ => ?_) fun _ => rfl
    cases k.value.hashKey? with
    | none => exact .raise _ fun _ => rfl
    | some hashKey =>
      simp only [bind_assoc, pure_bind]
      refine .look (.evaluate hscope n value) (h value hscope) (fun v _ => ?_) fun _ => rfl
      -- the entries have the same order, whatever their values are
      rw [← entryValues_insert]
      exact ih _

/-! ### Calls and tasks -/

theorem setNames_agrees {α β : Type} {f : Except Raised α → β} {k : Unit → Eval β}
    {l : PUnit → Raising α} (scope : Nat) (hk : Agrees r f (k ()) (l ())) :
    ∀ bindings : List (String × Proper), (∀ b ∈ bindings, b.2.value.CleanIn r) →
    Agrees r f (Machine.setNames scope (bindings.map (Prod.map id Proper.value)) >>= k)
      (Raising.bindNames scope bindings >>= l)
  | [], _ => by
    simp only [Raising.bindNames, List.forM_nil, pure_bind]
    exact hk
  | (name, v) :: rest, h => by
    rw [List.forall_mem_cons] at h
    simp only [Raising.bindNames, List.forM_cons, bind_assoc, List.map_cons, Prod.map,
      Machine.setNames]
    exact .step (.setName h.1 scope name) fun _ _ => setNames_agrees scope hk rest h.2

/-- A new scope inside a scope of the region. -/
theorem newScope_agrees {α β : Type} {f : Except Raised α → β} {k : Nat → Eval β}
    {l : Nat → Raising α} (hscope : r.scopes scope)
    (hk : ∀ inner, r.scopes inner → Agrees r f (k inner) (l inner)) :
    Agrees r f (Eval.newScope (some scope) >>= k) (liftM (Eval.newScope (some scope)) >>= l) := by
  refine .step (.newScope ?_) hk
  rintro _ ⟨⟩
  exact hscope

theorem callClosure_agrees (h : AgreesOn r n) {c : Closure} (hc : r.scopes c.scope)
    {args : List Proper} (hargs : ∀ v ∈ args, v.value.CleanIn r) :
    Agrees r outcome (callClosure (evaluate n) c (args.map Proper.value))
      (Raising.callClosure (Raising.evaluate n) c args) := by
  rw [callClosure_eq, Raising.callClosure]
  refine .step (.permit c _) fun refusal _ => ?_
  cases refusal with
  | some e => exact .raised e
  | none =>
    refine newScope_agrees hc fun inner hinner => ?_
    have hbindings : ∀ b ∈ c.params.zip args, b.2.value.CleanIn r :=
      fun b hb => hargs b.2 (List.of_mem_zip hb).2
    rw [List.zip_map_right]
    refine setNames_agrees inner ?_ _ hbindings
    exact .inCall (evalBody_agrees h hinner c.body)

theorem evalText_agrees (h : AgreesOn r n) (hscope : r.scopes scope) (argument : Proper) :
    Agrees r outcome (evalText (evaluate n) argument.value scope)
      (Raising.evalText (Raising.evaluate n) argument scope) := by
  simp only [evalText, Raising.evalText]
  cases argument.value with
  | string addr source =>
    simp only
    cases (parse source).toExcept with
    | ok program =>
      exact newScope_agrees hscope fun inner hinner => evalProgram_agrees h hinner program
    | error errors => exact .raised _
  | _ => exact .raised _

theorem runTask_agrees (h : AgreesOn r n) (hscope : r.scopes scope) (body : Block) :
    Agrees r outcome
      (Eval.onOwnCount (evalBody (evaluate n) body scope >>= fun v => pure v.unwrapReturn))
      (Raising.runTask (Raising.evaluate n) body scope) :=
  .onOwnCount (.catchReturn (evalBody_agrees h hscope body))

theorem launch_agrees (h : AgreesOn r n) (hscope : r.scopes scope) (argument : Proper) :
    Agrees r outcome (launch (evaluate n) argument.value scope)
      (Raising.launch (Raising.evaluate n) argument scope) := by
  simp only [launch, Raising.launch]
  cases argument.value with
  | function addr c =>
    refine newScope_agrees hscope fun inner hinner => ?_
    rw [start_eq]
    refine .step .registerTask fun id hid => .step (.askHost id) fun refusal _ => ?_
    cases refusal with
    | some reason => exact .step (.closeTask hid) fun _ _ => .raised _
    | none =>
      -- what the body raises is the result of the task and goes no further
      have hbody := runTask_agrees h hinner c.body
      have hkeeps : Eval.Keeps r (Value.ResultIn r)
          (Eval.onOwnCount (evalBody (evaluate n) c.body inner >>= fun v =>
            pure v.unwrapReturn)) :=
        .onOwnCount (.bind (.evalBody hinner n c.body) fun _ hv => .pure hv.unwrapReturn)
      have hlaunched := Agrees.attempt (f := outcome)
        (k := fun w => Eval.finishTask id w >>= fun _ => pure (.task id))
        (l := fun o => liftM (Eval.finishTask id (outcome o)) >>= fun _ => pure ⟨.task id, rfl⟩)
        hkeeps hbody fun o ho => .step (.finishTask hid ho) fun _ _ => .pure outcome ⟨.task id, rfl⟩
      rwa [Eval.onOwnCount_map, bind_assoc] at hlaunched
  | _ => exact .raised _

theorem awaitTask_agrees {argument : Proper} (hargument : argument.value.CleanIn r) :
    Agrees r outcome (awaitTask argument.value) (Raising.awaitTask argument) := by
  simp only [awaitTask, Raising.awaitTask]
  cases hvalue : argument.value with
  | task id =>
    rw [hvalue] at hargument
    refine .step (.joinTask hargument) fun found hfound => ?_
    cases found with
    | some value => exact .settle (hfound value rfl)
    | none => exact .raised _
  | _ => exact .raised _

theorem callIntrinsic_agrees (h : AgreesOn r n) (hscope : r.scopes scope) (i : Intrinsic)
    {args : List Proper} (hargs : ∀ v ∈ args, v.value.CleanIn r) :
    Agrees r outcome (callIntrinsic (evaluate n) i (args.map Proper.value) scope)
      (Raising.callIntrinsic (Raising.evaluate n) i args scope) := by
  match args with
  | [] => exact .raised _
  | [argument] =>
    cases i with
    | eval => exact evalText_agrees h hscope argument
    | launch => exact launch_agrees h hscope argument
    | await => exact awaitTask_agrees (hargs argument List.mem_cons_self)
  | first :: second :: rest =>
    simp only [callIntrinsic, Raising.callIntrinsic, List.map_cons, List.length_cons,
      List.length_map]
    exact .raised _

/-- **A call agrees**, if what is called and what it is called with is clean. -/
theorem applyValue_agrees (h : AgreesOn r n) (hscope : r.scopes scope) {callee : Proper}
    (hcallee : callee.value.CleanIn r) {args : List Proper}
    (hargs : ∀ v ∈ args, v.value.CleanIn r) :
    Agrees r outcome (applyValue (evaluate n) callee.value (args.map Proper.value) scope)
      (Raising.applyValue (Raising.evaluate n) callee args scope) := by
  rw [applyValue_eq, Raising.applyValue]
  cases hvalue : callee.value with
  | function addr c =>
    rw [hvalue] at hcallee
    exact callClosure_agrees h hcallee hargs
  | builtin b =>
    have hvalues : ∀ v ∈ args.map Proper.value, v.CleanIn r := List.forall_mem_map.2 hargs
    refine .step (.printLines _) fun _ _ => ?_
    exact .operate fun addr => b.apply_resultIn hvalues addr
  | intrinsic i => exact callIntrinsic_agrees h hscope i hargs
  | _ => exact .raised _

/-! ### Quoting -/

/-- What rewriting has come to: its result, or the error that it carries along. -/
def rewritten {α : Type} : α × Option Value → Except Value α
  | (a, none) => .ok a
  | (_, some err) => .error err

/-- Rewriting that carries the first error along, and rewriting that raises it. -/
def carrying (r : Region) : EffectRelation (StateT (Option Value) Eval) Raising where
  Related {α} x y :=
    (∀ err, ∃ a : α, x.run (some err) = pure (a, some err)) ∧
    Eval.Keeps r (fun _ => True) (x.run none) ∧
    Agrees r (gathered id) (rewritten <$> x.run none) y
  pure a := ⟨fun _ => ⟨a, rfl⟩, .pure trivial, .pure (gathered id) a⟩
  bind {α β x y k l} hx hk := by
    obtain ⟨hcarries, hkeeps, hagrees⟩ := hx
    -- after the first error the rest is visited for nothing; without one, both go on
    refine ⟨?_, ?_, ?_⟩
    · intro err
      obtain ⟨a, ha⟩ := hcarries err
      obtain ⟨b, hb⟩ := (hk a).1 err
      refine ⟨b, ?_⟩
      rw [StateT.run_bind, ha, pure_bind, hb]
    · rw [StateT.run_bind]
      refine .bind hkeeps fun p _ => ?_
      obtain ⟨a, _ | err⟩ := p
      · exact (hk a).2.1
      · obtain ⟨b, hb⟩ := (hk a).1 err
        rw [hb]
        exact .pure trivial
    · have hresult : rewritten <$> (x >>= k).run none =
          (rewritten <$> x.run none) >>= fun
            | .ok a => rewritten <$> (k a).run none
            | .error err => pure (.error err) := by
        rw [StateT.run_bind, map_bind, bind_map_left]
        refine bind_congr fun p => ?_
        obtain ⟨a, _ | err⟩ := p
        · rfl
        · obtain ⟨b, hb⟩ := (hk a).1 err
          rw [hb]
          rfl
      rw [hresult]
      exact .bind (hkeeps.map rewritten) hagrees (fun a _ => (hk a).2.2) fun _ _ => rfl

theorem unquoteVisit_agrees (h : AgreesOn r n) (hscope : r.scopes scope) (e : Expr) :
    (carrying r).Related (unquoteVisit (evaluate n) scope e)
      (Raising.unquoteVisit (Raising.evaluate n) scope e) := by
  refine ⟨fun err => ⟨e, rfl⟩, ?_, ?_⟩
  · rw [run_unquoteVisit_none]
    cases e.unquoted? with
    | none => exact .pure trivial
    | some argument =>
      refine .bind (.evaluate hscope n argument) fun v _ => ?_
      split
      · exact .pure trivial
      · exact .pure trivial
  · rw [run_unquoteVisit_none, Raising.unquoteVisit]
    cases e.unquoted? with
    | none => exact .pure (gathered id) e
    | some argument =>
      have hcaught := Agrees.catchReturn (h argument hscope)
      have hkeeps : Eval.Keeps r (Value.ResultIn r)
          (evaluate n argument scope >>= fun v => pure v.unwrapReturn) :=
        .bind (.evaluate hscope n argument) fun v hv => .pure hv.unwrapReturn
      -- the wrapper of a `return` is taken off before anything is asked about the value
      have hanswer : (rewritten <$> do
            let v ← evaluate n argument scope
            if v.unwrapReturn.isError then return (e, some v.unwrapReturn)
            else return (v.unwrapReturn.toExpr?.getD e, none) : Eval (Except Value Expr)) =
          (evaluate n argument scope >>= fun v => pure v.unwrapReturn) >>= fun w =>
            if w.isError then pure (.error w) else pure (.ok (w.toExpr?.getD e)) := by
        rw [map_bind, bind_assoc]
        refine bind_congr fun v => ?_
        rw [pure_bind]
        split
        · rfl
        · rfl
      simp only
      rw [hanswer]
      refine .bind hkeeps hcaught (fun v _ => ?_) fun raised hraised => ?_
      · obtain ⟨v, hv⟩ := v
        cases v with
        | error => cases hv
        | _ => exact .pure (gathered id) _
      · cases raised with
        | error addr message => rfl
        | ret addr v => exact hraised.elim

theorem quoteArgs_agrees (h : AgreesOn r n) (hscope : r.scopes scope) (args : List Expr) :
    Agrees r outcome (quoteArgs (evaluate n) args scope)
      (Raising.quoteArgs (Raising.evaluate n) args scope) := by
  cases args with
  | nil => exact .raised _
  | cons e rest =>
    obtain ⟨-, hkeeps, hagrees⟩ :=
      Expr.rewriteM_related (carrying r) (unquoteVisit_agrees h hscope) e
    have hresult : quoteArgs (evaluate n) (e :: rest) scope =
        (rewritten <$> (e.rewriteM (unquoteVisit (evaluate n) scope)).run none) >>= fun
          | .ok node => Eval.fresh >>= fun addr => pure (.quote addr node)
          | .error err => pure err := by
      rw [quoteArgs, bind_map_left]
      refine bind_congr fun p => ?_
      obtain ⟨node, _ | err⟩ := p
      · rfl
      · rfl
    rw [hresult]
    refine .bind (hkeeps.map rewritten) hagrees (fun node _ => ?_) fun _ _ => rfl
    exact .step .fresh fun addr _ => .pure outcome ⟨.quote addr node, rfl⟩

/-! ### Expressions and programs -/

theorem evalName_agrees (hscope : r.scopes scope) (name : String) :
    Agrees r outcome (evalName name scope) (Raising.evalName name scope) := by
  unfold evalName Raising.evalName
  cases Intrinsic.ofName? name with
  | some i => exact .pure outcome ⟨.intrinsic i, rfl⟩
  -- what a scope binds is clean, as the state is
  | none =>
    refine .step (.findName hscope name) fun found hfound => ?_
    cases found with
    | some value => exact .settle (hfound value rfl).resultIn
    | none =>
      simp only
      cases Builtin.ofName? name with
      | some b => exact .pure outcome ⟨.builtin b, rfl⟩
      | none => exact .raised _

theorem evalBranch_agrees (h : AgreesOn r n) (hscope : r.scopes scope) (branch : Option Block) :
    Agrees r outcome (evalBranch (evaluate n) branch scope)
      (Raising.evalBranch (Raising.evaluate n) branch scope) := by
  cases branch with
  | none => exact .pure outcome ⟨.null, rfl⟩
  | some body => exact evalBody_agrees h hscope body

/-- An allocation that is turned into a proper value. -/
theorem fresh_agrees (made : Nat → Proper) :
    Agrees r outcome (Eval.fresh >>= fun addr => pure (made addr).value)
      (liftM Eval.fresh >>= fun addr => pure (made addr)) :=
  .step .fresh fun addr _ => .pure outcome (made addr)

/-- **One level of evaluation agrees**, if the evaluation of the parts does. -/
theorem evalStep_agrees (h : AgreesOn r n) (e : Expr) (hscope : r.scopes scope) :
    Agrees r outcome (evalStep (evaluate n) e scope)
      (Raising.evalStep (Raising.evaluate n) e scope) := by
  cases e with
  -- whatever has no parts gives its value on both sides
  | ident name => exact evalName_agrees hscope name
  | int value => exact .pure outcome ⟨.integer value, rfl⟩
  | bool value => exact .pure outcome ⟨.boolean value, rfl⟩
  | str text => exact fresh_agrees fun addr => ⟨.string addr text, rfl⟩
  -- a part that is abrupt ends both sides; else the operation is done on what the parts gave
  | unary op right =>
    refine .andThen (.evaluate hscope n right) (h right hscope) fun v _ => ?_
    exact .operate (op.apply_resultIn v.value)
  | binary op left right =>
    refine .andThen (.evaluate hscope n left) (h left hscope) fun v _ => ?_
    refine .andThen (.evaluate hscope n right) (h right hscope) fun w _ => ?_
    exact .operate (op.apply_resultIn v.value w.value)
  | cond condition consequence alternative =>
    refine .andThen (.evaluate hscope n condition) (h condition hscope) fun c _ => ?_
    exact evalBranch_agrees h hscope _
  | fn params body => exact fresh_agrees fun addr => ⟨.function addr ⟨params, body, scope⟩, rfl⟩
  | macroFn params body =>
    exact fresh_agrees fun addr => ⟨.macroFn addr ⟨params, body, scope⟩, rfl⟩
  | call callee args =>
    simp only [evalStep, Raising.evalStep]
    split
    -- a quote leaves its argument as syntax
    · exact quoteArgs_agrees h hscope args
    · refine .andThen (.evaluate hscope n callee) (h callee hscope) fun f hf => ?_
      refine .bind (.evalArgs hscope n args) (evalArgs_agrees h hscope args) (fun vs hvs => ?_)
        fun _ _ => rfl
      exact applyValue_agrees h hscope hf (List.forall_mem_map.1 hvs)
  | array elements =>
    refine .bind (.evalArgs hscope n elements) (evalArgs_agrees h hscope elements)
      (fun vs _ => ?_) fun _ _ => rfl
    exact fresh_agrees fun addr => ⟨.array addr (vs.map Proper.value), rfl⟩
  | index base position =>
    refine .andThen (.evaluate hscope n base) (h base hscope) fun v hv => ?_
    refine .andThen (.evaluate hscope n position) (h position hscope) fun w _ => ?_
    exact .operate (Value.at_resultIn hv w.value)
  | hash pairs =>
    refine .bind (.evalPairs hscope n pairs) (foldPairs_agrees h hscope pairs [])
      (fun entries _ => ?_) fun _ _ => rfl
    exact fresh_agrees fun addr => ⟨.hash addr (entryValues entries), rfl⟩

end

/-- **Evaluation agrees with evaluation with exceptions** in every scope of a region. -/
theorem evaluate_agrees (r : Region) (budget : Nat) : AgreesOn r budget := by
  induction budget with
  | zero => exact fun _ _ _ => .stuck
  | succ n ih => exact fun e _ hscope => evalStep_agrees ih e hscope

/-! ### How evaluations end -/

/-- From a state, the evaluation `x` gives a proper value exactly if `y` does, an error exactly if
`y` raises it, and the wrapper of a `return` exactly if `y` raises that `return`; and both stop in
the same state then. -/
structure EndsAs (x : Eval Value) (y : Raising Proper) (s : State) : Prop where
  value : ∀ (v : Proper) t, x s = some (v.value, t) ↔ y.run s = some (.ok v, t)
  error : ∀ addr message t, x s = some (.error addr message, t) ↔
    y.run s = some (.error (.error addr message), t)
  ret : ∀ addr w t, x s = some (.returned addr w, t) ↔
    ∃ v : Proper, v.value = w ∧ y.run s = some (.error (.ret addr v), t)

theorem outcome_eq_value_iff {o : Except Raised Proper} {v : Proper} :
    outcome o = v.value ↔ o = .ok v := by
  obtain ⟨v, hv⟩ := v
  constructor
  · intro h
    -- what is raised is abrupt, and a proper value is not
    rcases o with (⟨addr, message⟩ | ⟨addr, w⟩) | ⟨w, hw⟩
    · subst h
      cases hv
    · subst h
      cases hv
    · cases h
      rfl
  · rintro rfl
    rfl

theorem outcome_eq_error_iff {o : Except Raised Proper} {addr : Nat} {message : String} :
    outcome o = .error addr message ↔ o = .error (.error addr message) := by
  constructor
  · intro h
    rcases o with (⟨addr', message'⟩ | ⟨addr', w⟩) | ⟨w, hw⟩
    · cases h
      rfl
    · cases h
    · rw [show w = .error addr message from h] at hw
      cases hw
  · rintro rfl
    rfl

theorem outcome_eq_returned_iff {o : Except Raised Proper} {addr : Nat} {w : Value} :
    outcome o = .returned addr w ↔ ∃ v : Proper, v.value = w ∧ o = .error (.ret addr v) := by
  constructor
  · intro h
    rcases o with (⟨addr', message'⟩ | ⟨addr', v⟩) | ⟨v, hv⟩
    · cases h
    · cases h
      exact ⟨v, rfl, rfl⟩
    · rw [show v = .returned addr w from h] at hv
      cases hv
  · rintro ⟨v, rfl, rfl⟩
    rfl

theorem Agrees.endsAs {r : Region} {x : Eval Value} {y : Raising Proper} {s : State}
    (h : Agrees r outcome x y) (hs : s.CleanIn r) : EndsAs x y s := by
  -- a result is the value that stands for what the other evaluation comes to
  have hends : ∀ w t, x s = some (w, t) ↔ ∃ o, y.run s = some (o, t) ∧ outcome o = w := by
    intro w t
    rw [h s hs, map_run_eq, Option.map_eq_some_iff]
    constructor
    · rintro ⟨⟨o, u⟩, hy, heq⟩
      cases heq
      exact ⟨o, hy, rfl⟩
    · rintro ⟨o, hy, rfl⟩
      exact ⟨(o, t), hy, rfl⟩
  refine ⟨?_, ?_, ?_⟩
  · intro v t
    rw [hends]
    simp only [outcome_eq_value_iff, exists_eq_right]
  · intro addr message t
    rw [hends]
    simp only [outcome_eq_error_iff, exists_eq_right]
  · intro addr w t
    rw [hends]
    simp only [outcome_eq_returned_iff]
    constructor
    · rintro ⟨o, hy, v, hv, rfl⟩
      exact ⟨v, hv, hy⟩
    · rintro ⟨v, hv, hy⟩
      exact ⟨_, hy, v, hv, rfl⟩

/-- **Abrupt values are exceptions.**  In a scope that leads to clean values only, an expression, a
list of statements and a program end as they do with exceptions: with the same value, or with the
error or the `return` that is raised, and with the same scopes, tasks and printed text.  They do so
within the same budget, so that none ends where the other does not. -/
theorem evaluation_endsAs_exceptions {s : State} {roots : Nat → Prop} (h : s.CleanFrom roots)
    {scope : Nat} (hscope : roots scope) (budget : Nat) :
    (∀ e, EndsAs (evaluate budget e scope) (Raising.evaluate budget e scope) s) ∧
    (∀ body, EndsAs (evalBody (evaluate budget) body scope)
      (Raising.evalBody (Raising.evaluate budget) body scope) s) ∧
    ∀ program, EndsAs (runProgram budget program scope)
      (Raising.runProgram budget program scope) s := by
  -- the scope lies in the region that the roots lead to
  have hregion : (s.reach roots).scopes scope := Or.inl (.root hscope)
  have hagrees := evaluate_agrees (s.reach roots) budget
  refine ⟨?_, ?_, ?_⟩
  · intro e
    exact (hagrees e hregion).endsAs h.cleanIn
  · intro body
    exact (evalBody_agrees hagrees hregion body).endsAs h.cleanIn
  · intro program
    exact (evalProgram_agrees hagrees hregion program).endsAs h.cleanIn

/-- The body `let m = await(failed); return m;`. -/
def awaitingBody : Block :=
  [.letBe "m" (.call (.ident "await") [.ident "failed"]), .ret (.ident "m")]

/-- The error of a task that is awaited inside a call inside an array is raised all the way out. -/
theorem evaluation_endsAs_exceptions_awaiting :
    ∃ addr message t, (Raising.evaluate 5 (.array [.call (.fn [] awaitingBody) []]) 0).run
      failedTaskState = some (.error (.error addr message), t) := by
  have hzero : (0 : Nat) = 0 := rfl
  have hends := (evaluation_endsAs_exceptions failedTaskState_cleanFrom hzero 5).1
    (.array [.call (.fn [] awaitingBody) []])
  have hrun : (evaluate 5 (.array [.call (.fn [] awaitingBody) []]) 0 failedTaskState).any
      (fun p => p.1.isError) = true := by decide +kernel
  obtain ⟨⟨v, t⟩, hrun, herror⟩ := (Option.any_eq_true _ _).1 hrun
  cases v with
  | error addr message => exact ⟨addr, message, t, (hends.error addr message t).1 hrun⟩
  | _ => cases herror

end Monkey
