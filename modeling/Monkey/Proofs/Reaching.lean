import Monkey.Proofs.OnTheSpot

/-!
# What a pool can get to

When the first thread has something to do, the pool can come to different ends, as the threads of
tasks take turns with it.  It comes to the ends of one thing after another by coming to an end of
the first and going on from there: the tasks may move between the two, but they might as well have
moved before the end of the first, or after the beginning of the second.

Some things that a thread does can be seen by nobody: it notes something, or it looks a name up
where the result is known.  It does not matter whether they are done, and when.

## Main definitions

* `Pool.Reaches` — an end that a pool can come to.
* `Code.Silent` — code that nobody sees, and whose result is known.

## Main results

* `Pool.reaches_bind_iff` — **the ends of one thing after another.**
* `Code.Silent.reaches_bind_iff`, `Code.Silent.reaches_after_iff` — silent code can be left out.
-/

namespace Monkey

namespace Pool

variable {α β : Type}

/-- When the first thread of `p` is given something to do, it can come to its end with the result
`a`, and then the pool is `q`.  What the first thread had to do before does not count. -/
def Reaches (p : Pool Unit) (code : Code α) (a : α) (q : Pool Unit) : Prop :=
  ∃ ms, Runs (p.begin code) ms (q.begin (.pure a))

/-! ### One thing after another -/

section

variable {p q : Pool α} {m : Option Nat × Label} {ms : List (Option Nat × Label)}

/-- A thread that has more to do afterwards moves alike. -/
theorem Step.bind (h : Step p m q) (f : α → Code β) :
    Step (p.begin (p.main.code >>= f)) m (q.begin (q.main.code >>= f)) := by
  cases h with
  | main hstep =>
    cases hstep with
    | act hrun => exact .main (.act hrun)
    | start => exact .main (.start ..)
    | refuse => exact .main (.refuse ..)
  | task hget hstep => exact .task hget hstep

theorem Runs.bind (h : Runs p ms q) (f : α → Code β) :
    Runs (p.begin (p.main.code >>= f)) ms (q.begin (q.main.code >>= f)) := by
  induction h with
  | refl => exact .refl
  | step hstep _ ih => exact .step (hstep.bind f) ih

end

variable {p q r : Pool Unit} {x : Code α} {f : α → Code β} {a : α} {b : β}
  {m : Option Nat × Label} {ms : List (Option Nat × Label)}

/-- As long as the first thread has not come to the end of the first part, a move of the pool is a
move where this part is all that the thread has to do. -/
theorem Step.of_bind {r : Pool β} (h : Step (p.begin (x >>= f)) m r) :
    (∃ a, x = .pure a) ∨
      ∃ y, r.main.code = y >>= f ∧ Step (p.begin x) m (r.begin y) := by
  cases x with
  | pure a => exact .inl ⟨a, rfl⟩
  | act bodies a k =>
    refine .inr ?_
    cases h with
    -- the move of the first thread is one of what comes first, and the rest waits
    | main hstep =>
      cases hstep with
      | act hrun => exact ⟨_, rfl, .main (.act hrun)⟩
    | task hget hstep => exact ⟨_, rfl, .task hget hstep⟩
  | spawn bodies id task k =>
    refine .inr ?_
    cases h with
    | main hstep =>
      cases hstep with
      | start => exact ⟨_, rfl, .main (.start ..)⟩
      | refuse => exact ⟨_, rfl, .main (.refuse ..)⟩
    | task hget hstep => exact ⟨_, rfl, .task hget hstep⟩

/-- An action of the first thread. -/
theorem Step.begin_act {γ : Type} {bodies : List Closure} {a : Action γ} {k : γ → Code α} {c : γ}
    {t : State} (h : a.run { p.state with callDepth := p.main.depth } = some (c, t)) :
    Step (p.begin (.act bodies a k)) (none, .acted bodies a c)
      ⟨{ t with callDepth := p.state.callDepth }, ⟨k c, t.callDepth⟩, p.tasks⟩ := by
  have hstep : Step (p.begin (.act bodies a k)) (none, .acted bodies a c)
      ⟨{ t with callDepth := p.state.callDepth }, ⟨k c, t.callDepth⟩, p.tasks ++ []⟩ :=
    .main (.act h)
  rwa [List.append_nil] at hstep

theorem Reaches.refl (p : Pool Unit) (a : α) : Reaches p (.pure a) a p := ⟨[], .refl⟩

theorem Reaches.bind (h : Reaches p x a q) (h' : Reaches q (f a) b r) :
    Reaches p (x >>= f) b r := by
  obtain ⟨ms, hruns⟩ := h
  obtain ⟨ns, hruns'⟩ := h'
  exact ⟨ms ++ ns, (hruns.bind f).trans hruns'⟩

theorem Runs.of_bind (h : Runs (p.begin (x >>= f)) ms (r.begin (.pure b))) :
    ∃ a q, Reaches p x a q ∧ Reaches q (f a) b r := by
  generalize hstart : p.begin (x >>= f) = start, hend : r.begin (.pure b) = final at h
  induction h generalizing p x with
  | refl =>
    subst hstart
    have hcode : .pure b = x >>= f := congrArg (fun p => p.main.code) hend
    cases x with
    | pure a =>
      refine ⟨a, p, .refl p a, [], ?_⟩
      rw [hend]
      exact .refl
    | act => cases hcode
    | spawn => cases hcode
  | @step _ s' _ m ms hstep hrest ih =>
    subst hstart
    -- the first part has come to its end before the move, or the move is one of it or of another
    -- thread
    rcases hstep.of_bind with ⟨a, rfl⟩ | ⟨y, hcode, hfirst⟩
    · refine ⟨a, p, .refl p a, m :: ms, ?_⟩
      rw [hend]
      exact .step hstep hrest
    · have hs' : (s'.begin (.pure ())).begin (y >>= f) = s' := by
        rw [← hcode]
        rfl
      obtain ⟨a, q, ⟨ns, hx⟩, hf⟩ := ih hs' hend
      exact ⟨a, q, ⟨m :: ns, .step hfirst hx⟩, hf⟩

/-- **The ends of one thing after another** are those that the second one can come to from an end of
the first. -/
theorem reaches_bind_iff :
    Reaches p (x >>= f) b r ↔ ∃ a q, Reaches p x a q ∧ Reaches q (f a) b r :=
  ⟨fun ⟨_, h⟩ => h.of_bind, fun ⟨_, _, h, h'⟩ => h.bind h'⟩

/-- Running on the spot comes to an end of a pool, whatever other threads there are. -/
theorem reaches_of_run {t : State}
    (h : x.run { p.state with callDepth := p.main.depth } = some (a, t)) : ∃ new,
      Reaches p x a
        ⟨{ t with callDepth := p.state.callDepth }, ⟨.pure (), t.callDepth⟩, p.tasks ++ new⟩ := by
  obtain ⟨ms, new, hruns⟩ := runs_of_run h p.tasks p.state.callDepth
  exact ⟨new, ms, hruns⟩

/-- Tasks may go on after the end. -/
theorem Reaches.later (h : Reaches p x a q) (h' : Reaches q (.pure ()) () r) : Reaches p x a r := by
  obtain ⟨ms, hruns⟩ := h
  obtain ⟨ns, hruns'⟩ := h'
  exact ⟨ms ++ ns, hruns.trans (hruns'.bind fun _ => .pure a)⟩

/-- When an action is the first thing to do, tasks go on for some time, and then it is done. -/
theorem Reaches.of_act {γ : Type} {bodies : List Closure} {c : Action γ} {k : γ → Code α}
    (h : Reaches p (.act bodies c k) a r) : ∃ q d t, Reaches p (.pure ()) () q ∧
      c.run { q.state with callDepth := q.main.depth } = some (d, t) ∧
      Reaches ⟨{ t with callDepth := q.state.callDepth }, ⟨.pure (), t.callDepth⟩, q.tasks⟩ (k d)
        a r := by
  obtain ⟨ms, h⟩ := h
  generalize hstart : p.begin (.act bodies c k) = start, hend : r.begin (.pure a) = final at h
  induction h generalizing p with
  | refl =>
    subst hstart
    cases congrArg (fun p => p.main.code) hend
  | step hstep hrest ih =>
    cases hstep with
    -- the thread itself moves: this is the action
    | main hstep =>
      cases hstart
      cases hstep with
      | act hrun =>
        rw [List.append_nil] at hrest
        subst hend
        exact ⟨p, _, _, .refl p (), hrun, _, hrest⟩
    -- a task moves before it
    | @task _ t' _ ts new l i _ th' hget hstep =>
      cases hstart
      have hfirst := Step.task (m := ⟨Code.pure (), p.main.depth⟩) hget hstep
      obtain ⟨q, d, t, ⟨ns, hdrift⟩, hrun, hafter⟩ :=
        ih (p := ⟨t', ⟨.pure (), p.main.depth⟩, p.tasks.set i th' ++ new⟩) rfl hend
      exact ⟨q, d, t, ⟨_, .step hfirst hdrift⟩, hrun, hafter⟩

/-- Tasks may go on before the beginning. -/
theorem Reaches.earlier (h : Reaches p (.pure ()) () q) (h' : Reaches q x a r) : Reaches p x a r :=
  h.bind (f := fun _ => x) h'

end Pool

/-! ### Silent code -/

/-- In states with a property, the code changes nothing, and comes to its end with the result
`r`. -/
inductive Code.Silent (I : State → Prop) : {α : Type} → α → Code α → Prop
  | pure {α : Type} (r : α) : Silent I r (.pure r)
  | act {α β : Type} {r : α} {bodies : List Closure} {a : Action β} {k : β → Code α}
    (result : State → β) : (∀ s, I s → a.run s = some (result s, s)) →
    (∀ s, I s → Silent I r (k (result s))) → Silent I r (.act bodies a k)

/-- The property holds whatever the tasks of the pool do while the first thread does nothing, and
does not depend on the number of active calls. -/
structure Pool.Keeps (I : State → Prop) (p : Pool Unit) : Prop where
  holds : ∀ {q : Pool Unit}, p.Reaches (.pure ()) () q → I q.state
  callDepth : ∀ {s : State}, I s → ∀ depth, I { s with callDepth := depth }

theorem Pool.Keeps.later {I : State → Prop} {p q : Pool Unit} (hp : p.Keeps I)
    (h : p.Reaches (.pure ()) () q) : q.Keeps I :=
  ⟨fun h' => hp.holds (h.later h'), hp.callDepth⟩

namespace Code.Silent

variable {α β : Type} {I : State → Prop} {r a : α} {b : β} {x : Code α} {f : α → Code β}
  {p q : Pool Unit}

theorem bind (h : Silent I r x) (hf : Silent I b (f r)) : Silent I b (x >>= f) := by
  induction h with
  | pure => exact hf
  | act result hrun _ ih => exact .act result hrun fun s hs => ih s hs hf

theorem noted (n : Note) (h : Silent I r x) : Silent I r (Machine.noted n x) :=
  .act (fun _ => ()) (fun _ _ => rfl) fun _ _ => h

/-- Nobody need move while the thread does this. -/
theorem runs (h : Silent I r x) (hp : p.Keeps I) :
    ∃ ms, Pool.Runs (p.begin x) ms (p.begin (.pure r)) := by
  induction h with
  | pure r => exact ⟨[], .refl⟩
  | act result hrun _ ih =>
    have hholds := hp.holds (.refl p ())
    obtain ⟨ms, hruns⟩ := ih _ (hp.callDepth hholds p.main.depth)
    exact ⟨_, .step (.begin_act (hrun _ (hp.callDepth hholds p.main.depth))) hruns⟩

/-- In one move, nothing is done but by the tasks. -/
theorem of_step {m : Option Nat × Label} {next : Pool α} (h : Silent I r x) (hp : p.Keeps I)
    (hstep : Pool.Step (p.begin x) m next) :
    ∃ q y, next = q.begin y ∧ Silent I r y ∧ Pool.Reaches p (.pure ()) () q := by
  generalize hmove : p.begin x = start at hstep
  cases hstep with
  | main hstep =>
    cases hmove
    cases h with
    | pure => cases hstep
    | act result hrun hrest =>
      have hs := hp.callDepth (hp.holds (.refl p ())) p.main.depth
      cases hstep with
      | act hrun' =>
        -- the action of silent code gives back the state as it was
        cases (hrun _ hs).symm.trans hrun'
        refine ⟨p, _, ?_, hrest _ hs, .refl p ()⟩
        rw [List.append_nil]
        rfl
  | task hget hstep =>
    cases hmove
    exact ⟨⟨_, ⟨.pure (), p.main.depth⟩, _⟩, x, rfl, h, _, .single (.task hget hstep)⟩

/-- What is reached while the thread does this, the tasks have done. -/
theorem of_runs {ms : List (Option Nat × Label)} (h : Silent I r x) (hp : p.Keeps I)
    (hruns : Pool.Runs (p.begin x) ms (q.begin (.pure a))) :
    a = r ∧ Pool.Reaches p (.pure ()) () q := by
  generalize hstart : p.begin x = start, hend : q.begin (.pure a) = final at hruns
  -- silent code stays so, and the pool without it moves on
  induction hruns generalizing p x with
  | refl =>
    subst hstart
    have hcode : .pure a = x := congrArg (fun p => p.main.code) hend
    subst hcode
    cases h with
    | pure => exact ⟨rfl, [], congrArg (fun p => p.begin (Code.pure ())) hend ▸ .refl⟩
  | @step _ p' _ m ms hstep hrest ih =>
    subst hstart
    obtain ⟨q, y, rfl, hy, hfirst⟩ := h.of_step hp hstep
    obtain ⟨ha, hrest⟩ := ih hy (hp.later hfirst) rfl hend
    exact ⟨ha, hfirst.later hrest⟩

/-- **Silent code can be left out** before something else. -/
theorem reaches_bind_iff (h : Silent I r x) (hp : p.Keeps I) :
    Pool.Reaches p (x >>= f) b q ↔ Pool.Reaches p (f r) b q := by
  rw [Pool.reaches_bind_iff]
  constructor
  · rintro ⟨a, p', ⟨ms, hruns⟩, hrest⟩
    obtain ⟨rfl, hdrift⟩ := h.of_runs hp hruns
    exact hdrift.earlier hrest
  · intro hrest
    obtain ⟨ms, hruns⟩ := h.runs hp
    exact ⟨r, p, ⟨ms, hruns⟩, hrest⟩

/-- **Silent code can be left out** after something else. -/
theorem reaches_after_iff {result : α → β} (h : ∀ a, Silent (fun _ => True) (result a) (f a)) :
    Pool.Reaches p (x >>= f) b q ↔ ∃ a, Pool.Reaches p x a q ∧ b = result a := by
  have hkeeps (p : Pool Unit) : p.Keeps fun _ => True := ⟨fun _ => trivial, fun _ _ => trivial⟩
  rw [Pool.reaches_bind_iff]
  constructor
  · rintro ⟨a, p', hx, ms, hruns⟩
    obtain ⟨rfl, hdrift⟩ := (h a).of_runs (hkeeps p') hruns
    exact ⟨a, hx.later hdrift, rfl⟩
  · rintro ⟨a, hx, rfl⟩
    obtain ⟨ms, hruns⟩ := (h a).runs (hkeeps q)
    exact ⟨a, q, hx, ms, hruns⟩

end Code.Silent

/-- Where the first thread has nothing to do, only tasks move. -/
theorem Pool.reaches_pure_iff {α : Type} {a b : α} {p q : Pool Unit} :
    p.Reaches (.pure a) b q ↔ b = a ∧ p.Reaches (.pure ()) () q := by
  have hkeeps : p.Keeps fun _ => True := ⟨fun _ => trivial, fun _ _ => trivial⟩
  constructor
  · rintro ⟨ms, hruns⟩
    exact (Code.Silent.pure a).of_runs hkeeps hruns
  · rintro ⟨rfl, hdrift⟩
    exact hdrift.earlier (.refl q b)

end Monkey
