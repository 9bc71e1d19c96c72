import Monkey.Proofs.ActiveCalls
import Monkey.Proofs.Actions
import Monkey.Proofs.Footing

/-!
# Actions in lockstep

Let a matching say which scopes, addresses and tasks of one state stand for which of another one,
and let what it speaks of be alike in both.  An action that mentions only such things can then be
done in the one state if its like can be done in the other, and afterwards the states match again.
The numbers that both give out stand for one another from then on; of all other numbers the matching
says what it said before.  What it does not speak of may differ as it likes, the printed output
among it, and may change at any time.

## Main definitions

* `State.Matches` — states that are alike in what a matching speaks of.
* `matched` — the footing on which a matching itself says what stands for what.
* `Matching.NewIn` — matchings that speak of new numbers besides.

## Main results

* `State.Matches.act` — **actions that are alike are done in lockstep.**
* `State.Matches.congr` — who changes nothing that a matching speaks of leaves the states matching.
-/

namespace Monkey

/-! ### Matching states -/

/-- Scopes that bind the same names to matching values, inside scopes that stand for one another. -/
structure Scope.Matches (μ : Matching) (x y : Scope) : Prop where
  bindings : Keywise (Value.Matches μ) x.bindings y.bindings
  outer : Option.Rel μ.scopes x.outer y.outer

/-- Tasks in the same condition whose results match. -/
inductive TaskState.Matches (μ : Matching) : TaskState → TaskState → Prop
  | running {a b : Option Value} :
    Option.Rel (Value.Matches μ) a b → Matches μ (.running a) (.running b)
  | ended {a b : Option Value} :
    Option.Rel (Value.Matches μ) a b → Matches μ (.ended a) (.ended b)
  | joined {v w : Value} : Value.Matches μ v w → Matches μ (.joined v) (.joined w)

/-- States that are alike in what a matching speaks of, with as many active calls allowed. -/
structure State.Matches (μ : Matching) (s t : State) : Prop where
  scopes : ∀ {a b : Nat}, μ.scopes a b →
    ∃ x y, s.scopes.get? a = some x ∧ t.scopes.get? b = some y ∧ Scope.Matches μ x y
  addresses : ∀ {a b : Nat}, μ.addresses a b → a < s.nextAddress ∧ b < t.nextAddress
  tasks : ∀ {a b : Nat}, μ.tasks a b →
    ∃ x y, s.tasks.get? a = some x ∧ t.tasks.get? b = some y ∧ TaskState.Matches μ x y
  maxCallDepth_eq : s.maxCallDepth = t.maxCallDepth

section

variable {μ ν : Matching}

theorem Scope.Matches.mono (hμν : μ ≤ ν) {x y : Scope} (h : Scope.Matches μ x y) :
    Scope.Matches ν x y where
  bindings := h.bindings.imp fun _ _ => Value.Matches.mono hμν
  outer := optionRel_imp (fun _ _ => hμν.1) h.outer

theorem TaskState.Matches.mono (hμν : μ ≤ ν) {x y : TaskState} (h : TaskState.Matches μ x y) :
    TaskState.Matches ν x y := by
  have hfound := fun v w => Value.Matches.mono (v := v) (w := w) hμν
  cases h with
  | running h => exact .running (optionRel_imp hfound h)
  | ended h => exact .ended (optionRel_imp hfound h)
  | joined h => exact .joined (h.mono hμν)

/-- Binding a name in bindings. -/
theorem Keywise.setBinding {R : Value → Value → Prop} {bs cs : Bindings} (h : Keywise R bs cs)
    (name : String) {v w : Value} (hvw : R v w) : Keywise R (bs.set name v) (cs.set name w) := by
  induction h with
  | nil => exact .cons name hvw .nil
  | cons other hstored hrest ih =>
    unfold Bindings.set
    split
    · exact .cons name hvw hrest
    · exact .cons other hstored ih

end

/-- The new matching says what the old one said, and besides that only that the numbers that are
next in the two states stand for one another. -/
structure Matching.NewIn (μ ν : Matching) (s t : State) : Prop where
  le : μ ≤ ν
  scopes : ∀ {a b : Nat}, ν.scopes a b → μ.scopes a b ∨ a = s.scopes.size ∧ b = t.scopes.size
  addresses : ∀ {a b : Nat}, ν.addresses a b →
    μ.addresses a b ∨ a = s.nextAddress ∧ b = t.nextAddress
  tasks : ∀ {i j : Nat}, ν.tasks i j → μ.tasks i j ∨ i = s.tasks.nextId ∧ j = t.tasks.nextId

theorem Matching.NewIn.refl (μ : Matching) (s t : State) : μ.NewIn μ s t :=
  ⟨le_refl μ, .inl, .inl, .inl⟩

namespace State.Matches

variable {μ : Matching} {s t s' t' : State}

/-- **Who changes nothing that a matching speaks of leaves the states matching.** -/
theorem congr (h : s.Matches μ t)
    (hscopes : ∀ {a b : Nat}, μ.scopes a b →
      s'.scopes.get? a = s.scopes.get? a ∧ t'.scopes.get? b = t.scopes.get? b)
    (haddresses : s.nextAddress ≤ s'.nextAddress ∧ t.nextAddress ≤ t'.nextAddress)
    (htasks : ∀ {i j : Nat}, μ.tasks i j →
      s'.tasks.get? i = s.tasks.get? i ∧ t'.tasks.get? j = t.tasks.get? j)
    (hlimit : s'.maxCallDepth = s.maxCallDepth ∧ t'.maxCallDepth = t.maxCallDepth) :
    s'.Matches μ t' where
  scopes hab := by
    obtain ⟨x, y, hx, hy, hxy⟩ := h.scopes hab
    exact ⟨x, y, (hscopes hab).1.trans hx, (hscopes hab).2.trans hy, hxy⟩
  addresses hab :=
    (h.addresses hab).imp (Nat.lt_of_lt_of_le · haddresses.1) (Nat.lt_of_lt_of_le · haddresses.2)
  tasks hij := by
    obtain ⟨x, y, hx, hy, hxy⟩ := h.tasks hij
    exact ⟨x, y, (htasks hij).1.trans hx, (htasks hij).2.trans hy, hxy⟩
  maxCallDepth_eq := by rw [hlimit.1, hlimit.2, h.maxCallDepth_eq]

theorem scopes_lt (h : s.Matches μ t) {a b : Nat} (hab : μ.scopes a b) :
    a < s.scopes.size ∧ b < t.scopes.size := by
  obtain ⟨x, y, hx, hy, -⟩ := h.scopes hab
  exact ⟨Scopes.lt_size_of_get? hx, Scopes.lt_size_of_get? hy⟩

theorem tasks_lt (h : s.Matches μ t) (hs : s.tasks.Valid) (ht : t.tasks.Valid) {i j : Nat}
    (hij : μ.tasks i j) : i < s.tasks.nextId ∧ j < t.tasks.nextId := by
  obtain ⟨x, y, hx, hy, -⟩ := h.tasks hij
  exact ⟨hs.lt_nextId hx, ht.lt_nextId hy⟩

/-- Two addresses that are not in use yet are made to stand for one another. -/
theorem address (h : s.Matches μ t) {a b : Nat} (ha : s.nextAddress ≤ a) (hb : t.nextAddress ≤ b) :
    ∃ ν, μ ≤ ν ∧ ν.scopes = μ.scopes ∧ ν.tasks = μ.tasks ∧ ν.addresses a b ∧
      (∀ {c d : Nat}, ν.addresses c d → μ.addresses c d ∨ c = a ∧ d = b) ∧
      State.Matches ν { s with nextAddress := a + 1 } { t with nextAddress := b + 1 } := by
  -- neither address was given out before, so that none is matched twice
  have hleft : ∀ c, ¬μ.addresses a c := fun c hc =>
    Nat.lt_irrefl _ (Nat.lt_of_lt_of_le (h.addresses hc).1 ha)
  have hright : ∀ c, ¬μ.addresses c b := fun c hc =>
    Nat.lt_irrefl _ (Nat.lt_of_lt_of_le (h.addresses hc).2 hb)
  let ν : Matching := { μ with addresses := μ.addresses.extend _ _ hleft hright }
  have hle : μ ≤ ν := ⟨id, Or.inl, id⟩
  refine ⟨ν, hle, rfl, rfl, Or.inr ⟨rfl, rfl⟩, id, ?_⟩
  refine { h with scopes := ?_, addresses := ?_, tasks := ?_ }
  · intro a b hab
    obtain ⟨x, y, hx, hy, hxy⟩ := h.scopes hab
    exact ⟨x, y, hx, hy, hxy.mono hle⟩
  · rintro c d (hcd | ⟨rfl, rfl⟩)
    · have hlt := h.addresses hcd
      exact ⟨Nat.lt_succ_of_le (Nat.le_trans (Nat.le_of_lt hlt.1) ha),
        Nat.lt_succ_of_le (Nat.le_trans (Nat.le_of_lt hlt.2) hb)⟩
    · exact ⟨Nat.lt_succ_self _, Nat.lt_succ_self _⟩
  · intro a b hab
    obtain ⟨x, y, hx, hy, hxy⟩ := h.tasks hab
    exact ⟨x, y, hx, hy, hxy.mono hle⟩

theorem newScope (h : s.Matches μ t) {a b : Nat} (hab : μ.scopes a b) :
    ∃ ν, μ.NewIn ν s t ∧ ν.scopes s.scopes.size t.scopes.size ∧
      State.Matches ν { s with scopes := s.scopes.add (some a) }
        { t with scopes := t.scopes.add (some b) } := by
  have hleft : ∀ c, ¬μ.scopes s.scopes.size c := fun c hc => Nat.lt_irrefl _ (h.scopes_lt hc).1
  have hright : ∀ c, ¬μ.scopes c t.scopes.size := fun c hc => Nat.lt_irrefl _ (h.scopes_lt hc).2
  let ν : Matching := { μ with scopes := μ.scopes.extend _ _ hleft hright }
  have hle : μ ≤ ν := ⟨Or.inl, id, id⟩
  refine ⟨ν, ⟨hle, id, .inl, .inl⟩, Or.inr ⟨rfl, rfl⟩, { h with scopes := ?_, tasks := ?_ }⟩
  · rintro c d (hcd | ⟨rfl, rfl⟩)
    · obtain ⟨x, y, hx, hy, hxy⟩ := h.scopes hcd
      refine ⟨x, y, ?_, ?_, hxy.mono hle⟩
      · rw [← hx]
        exact s.scopes.get?_add_of_lt _ (h.scopes_lt hcd).1
      · rw [← hy]
        exact t.scopes.get?_add_of_lt _ (h.scopes_lt hcd).2
    -- the new scopes are empty, and the ones around them match
    · refine ⟨_, _, s.scopes.get?_add_self _, t.scopes.get?_add_self _, .nil, ?_⟩
      simp only [Option.filter_some, (h.scopes_lt hab).1, (h.scopes_lt hab).2, decide_true, if_true]
      exact .some (hle.1 hab)
  · intro c d hcd
    obtain ⟨x, y, hx, hy, hxy⟩ := h.tasks hcd
    exact ⟨x, y, hx, hy, hxy.mono hle⟩

theorem setName (h : s.Matches μ t) {a b : Nat} (hab : μ.scopes a b) (name : String)
    {v w : Value} (hvw : Value.Matches μ v w) :
    State.Matches μ { s with scopes := s.scopes.set a name v }
      { t with scopes := t.scopes.set b name w } where
  scopes {c d} hcd := by
    obtain ⟨x, y, hx, hy, hxy⟩ := h.scopes hcd
    have heq := μ.scopes.eq_iff_eq hcd hab
    -- as a matching is one to one, the scopes that change are matched to one another only
    by_cases hca : c = a
    · have hdb := heq.1 hca
      subst hca
      subst hdb
      refine ⟨{ x with bindings := x.bindings.set name v },
        { y with bindings := y.bindings.set name w }, ?_, ?_,
        hxy.bindings.setBinding name hvw, hxy.outer⟩
      · rw [s.scopes.get?_set_self, hx, Option.map_some]
      · rw [t.scopes.get?_set_self, hy, Option.map_some]
    · have hdb := mt heq.2 hca
      refine ⟨x, y, ?_, ?_, hxy⟩
      · rw [s.scopes.get?_set_of_ne _ _ hca, hx]
      · rw [t.scopes.get?_set_of_ne _ _ hdb, hy]
  addresses := h.addresses
  tasks := h.tasks
  maxCallDepth_eq := h.maxCallDepth_eq

theorem registerTask (h : s.Matches μ t) (hs : s.tasks.Valid) (ht : t.tasks.Valid) :
    ∃ ν, μ.NewIn ν s t ∧ ν.tasks s.tasks.nextId t.tasks.nextId ∧
      State.Matches ν { s with tasks := s.tasks.register.2 }
        { t with tasks := t.tasks.register.2 } := by
  -- neither number was given out before
  have hleft : ∀ c, ¬μ.tasks s.tasks.nextId c := fun c hc =>
    Nat.lt_irrefl _ (h.tasks_lt hs ht hc).1
  have hright : ∀ c, ¬μ.tasks c t.tasks.nextId := fun c hc =>
    Nat.lt_irrefl _ (h.tasks_lt hs ht hc).2
  let ν : Matching := { μ with tasks := μ.tasks.extend _ _ hleft hright }
  have hle : μ ≤ ν := ⟨id, id, Or.inl⟩
  refine ⟨ν, ⟨hle, .inl, .inl, id⟩, Or.inr ⟨rfl, rfl⟩, { h with scopes := ?_, tasks := ?_ }⟩
  · intro a b hab
    obtain ⟨x, y, hx, hy, hxy⟩ := h.scopes hab
    exact ⟨x, y, hx, hy, hxy.mono hle⟩
  · rintro i j (hij | ⟨rfl, rfl⟩)
    · obtain ⟨x, y, hx, hy, hxy⟩ := h.tasks hij
      obtain ⟨hi, hj⟩ := h.tasks_lt hs ht hij
      refine ⟨x, y, ?_, ?_, hxy.mono hle⟩
      · exact (s.tasks.get?_register_of_ne (Nat.ne_of_lt hi)).trans hx
      · exact (t.tasks.get?_register_of_ne (Nat.ne_of_lt hj)).trans hy
    · exact ⟨_, _, s.tasks.get?_register_self, t.tasks.get?_register_self, .running .none⟩

/-- Corresponding changes of two tasks that stand for one another. -/
theorem changeTasks (h : s.Matches μ t) {i j : Nat} (hij : μ.tasks i j) {tasks tasks' : Tasks}
    {f g : TaskState → TaskState}
    (hfg : ∀ {x y}, TaskState.Matches μ x y → TaskState.Matches μ (f x) (g y))
    (htasks : s.tasks.Changes i f tasks) (htasks' : t.tasks.Changes j g tasks') :
    State.Matches μ { s with tasks := tasks } { t with tasks := tasks' } where
  scopes := h.scopes
  addresses := h.addresses
  tasks {c d} hcd := by
    obtain ⟨x, y, hx, hy, hxy⟩ := h.tasks hcd
    have heq := μ.tasks.eq_iff_eq hcd hij
    -- the entries that change are matched to one another only
    by_cases hci : c = i
    · have hdj := heq.1 hci
      subst hci
      subst hdj
      rw [htasks.self, htasks'.self, hx, hy]
      exact ⟨_, _, rfl, rfl, hfg hxy⟩
    · rw [htasks.of_ne hci, htasks'.of_ne (mt heq.2 hci), hx, hy]
      exact ⟨x, y, rfl, rfl, hxy⟩
  maxCallDepth_eq := h.maxCallDepth_eq

theorem sendResult (h : s.Matches μ t) {i j : Nat} (hij : μ.tasks i j) {v w : Value}
    (hvw : Value.Matches μ v w) :
    State.Matches μ { s with tasks := (s.tasks.send i v).2 }
      { t with tasks := (t.tasks.send j w).2 } := by
  refine h.changeTasks hij ?_ (s.tasks.changes_send i v) (t.tasks.changes_send j w)
  intro x y hxy
  cases hxy with
  | running hsent =>
    cases hsent with
    | none => exact .running (.some hvw)
    | some hsent => exact .running (.some hsent)
  | ended hsent => exact .ended hsent
  | joined hresult => exact .joined hresult

theorem closeTask (h : s.Matches μ t) {i j : Nat} (hij : μ.tasks i j) :
    State.Matches μ { s with tasks := (s.tasks.close i).2 }
      { t with tasks := (t.tasks.close j).2 } := by
  refine h.changeTasks hij ?_ (s.tasks.changes_close i) (t.tasks.changes_close j)
  intro x y hxy
  cases hxy with
  | running hsent => exact .ended hsent
  | ended hsent => exact .ended hsent
  | joined hresult => exact .joined hresult

theorem joinTask (h : s.Matches μ t) {i j : Nat} (hij : μ.tasks i j) :
    State.Matches μ { s with tasks := (s.tasks.join i).2 }
      { t with tasks := (t.tasks.join j).2 } := by
  refine h.changeTasks hij ?_ (s.tasks.changes_join i) (t.tasks.changes_join j)
  intro x y hxy
  cases hxy with
  | running hsent => exact .running hsent
  | ended hsent => exact .joined (getD_null_matches hsent)
  | joined hresult => exact .joined hresult

/-- Of two tasks that stand for one another either both answer, alike, or neither does. -/
theorem join_reply (h : s.Matches μ t) {i j : Nat} (hij : μ.tasks i j) :
    (∃ v w, (s.tasks.join i).1 = .result v ∧ (t.tasks.join j).1 = .result w ∧
      Value.Matches μ v w) ∨
    (s.tasks.join i).1 = .wouldBlock ∧ (t.tasks.join j).1 = .wouldBlock := by
  obtain ⟨x, y, hx, hy, hxy⟩ := h.tasks hij
  simp only [Tasks.join, hx, hy]
  cases hxy with
  | running => exact .inr ⟨rfl, rfl⟩
  | ended hsent => exact .inl ⟨_, _, rfl, rfl, getD_null_matches hsent⟩
  | joined hresult => exact .inl ⟨_, _, rfl, rfl, hresult⟩

end State.Matches

/-! ### Actions in lockstep -/

/-- What stands for what is known from the matching itself.  Names may be bound in all scopes that
it speaks of but one. -/
def matched (macros : Nat) : Footing Matching where
  matching := id
  Owns μ a b := μ.scopes a b ∧ a ≠ macros
  Looks _ := True
  matching_mono := id
  owns_mono hle := And.imp_left (hle.1 ·)
  scopes_of_owns := And.left
  looks _ := trivial

section

variable {macros : Nat} {μ : Matching} {β : Type} {a b : Action β} {s s' t : State} {c : β}

/-- Actions that are alike count alike. -/
theorem Action.Alike.depthAfter_eq {W : Type} [Preorder W] {F : Footing W} {w : W}
    (h : a.Alike F w b) (depth : Nat) : a.depthAfter depth = b.depthAfter depth := by
  cases h <;> rfl

/-- **Actions that are alike are done in lockstep**: from matching states, with as many calls
active, the one can be done if the other can, and alike comes of both. -/
theorem State.Matches.act (h : s.Matches μ t) (hs : s.tasks.Valid) (ht : t.tasks.Valid)
    (hmacros : macros < s.scopes.size) (hdepth : s.callDepth = t.callDepth)
    (ha : a.Alike (matched macros) μ b) (hrun : a.run s = some (c, s')) :
    ∃ d t' ν, b.run t = some (d, t') ∧ μ.NewIn ν s t ∧ s'.Matches ν t' ∧
      a.Gives (matched macros) ν b c d := by
  have hsame := Matching.NewIn.refl μ s t
  cases ha with
  | stuck => cases hrun
  -- what is given out in both states is matched from now on
  | fresh =>
    cases hrun
    obtain ⟨ν, hle, hscopes, htasks, haddr, hnew, hnext⟩ :=
      h.address (Nat.le_refl _) (Nat.le_refl _)
    have hnewIn : μ.NewIn ν s t :=
      ⟨hle, fun hab => .inl (hscopes ▸ hab), hnew, fun hij => .inl (htasks ▸ hij)⟩
    exact ⟨_, _, ν, rfl, hnewIn, hnext, haddr⟩
  | newScope hab =>
    cases hrun
    obtain ⟨ν, hnew, hscope, hnext⟩ := h.newScope hab
    exact ⟨_, _, ν, rfl, hnew, hnext, hscope, Nat.ne_of_gt hmacros⟩
  | setName name hab hvw =>
    cases hrun
    exact ⟨_, _, μ, rfl, hsame, h.setName hab.1 name hvw, trivial⟩
  | look hab =>
    cases hrun
    obtain ⟨x, y, hx, hy, hxy⟩ := h.scopes hab
    refine ⟨_, _, μ, rfl, hsame, h, Scopes.looksAlike ?_ ?_ _⟩
    · rw [Scopes.bindings, Scopes.bindings, hx, hy]
      exact hxy.bindings
    · rw [Scopes.outer?, Scopes.outer?, hx, hy]
      exact hxy.outer
  -- whether a call is refused depends on counts that are equal in both
  | permit hcd hvs =>
    cases hrun
    refine ⟨_, _, μ, rfl, hsame, h, ?_⟩
    rw [Action.Gives, Closure.refusal?, Closure.refusal?, hdepth, h.maxCallDepth_eq, hcd.params_eq,
      hvs.length_eq]
  | register =>
    cases hrun
    obtain ⟨ν, hnew, htask, hnext⟩ := h.registerTask hs ht
    exact ⟨_, _, ν, rfl, hnew, hnext, htask⟩
  | send hij hvw =>
    cases hrun
    exact ⟨_, _, μ, rfl, hsame, h.sendResult hij hvw, trivial⟩
  | close hij =>
    cases hrun
    exact ⟨_, _, μ, rfl, hsame, h.closeTask hij, trivial⟩
  | join hij =>
    obtain ⟨hreply, rfl⟩ := Eval.joinTask_eq_some_iff.1 hrun
    -- a task that still runs answers nobody, and so does its match
    rcases h.join_reply hij with ⟨v, w, hv, hw, hvw⟩ | ⟨hblocked, -⟩
    · cases c with
      | none => cases hv.symm.trans hreply
      | some v' =>
        cases hv.symm.trans hreply
        exact ⟨some w, _, μ, Eval.joinTask_eq_some_iff.2 ⟨hw, rfl⟩, hsame, h.joinTask hij,
          .some hvw, fun hnone => absurd hnone (Option.some_ne_none v)⟩
    · cases c <;> cases hblocked.symm.trans hreply
  | note | print | enterCall | leaveCall =>
    cases hrun
    exact ⟨_, _, μ, rfl, hsame, { h with }, trivial⟩

end

end Monkey
