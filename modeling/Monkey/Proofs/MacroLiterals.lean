import Monkey.Proofs.Budget
import Monkey.Proofs.Handles
import Monkey.Proofs.Interaction
import Monkey.Proofs.MacroFree
import Monkey.Proofs.Staying

/-!
# Where macros turn up

A session keeps the macros that its sources define in a scope of their own.  Evaluation never comes
to that scope, nor expansion to the scope of names: whatever a session has read, its scopes and
tasks belong to two enclaves, one of names and one of macros, and nothing leads from one to the
other.

Yet the definitions that are taken out of a source are those at its top level, and evaluation makes
a value of every macro literal that it comes to.  So macros do get into the scope of names and into
scopes inside it, but only by a literal that was evaluated there.

## Main definitions

* `State.KeepsApart` — states in which names and macros belong to enclaves of their own.
* `evaluateSparing`, `Session.runAllSparing` — evaluation and sessions that do not go on where they
  come to a macro literal.

## Main results

* `State.KeepsApart.read` — **reading a source keeps names and macros apart.**
* `evaluateSparing_endsAlike` — sparing evaluation gives what evaluation does.
* `macros_stay_apart` — **a macro that is found from the scope of names was made by a literal that
  was evaluated there.**
-/

namespace Monkey

open Eval

/-! ### Names and macros -/

/-- The value is a macro that is closed over the scope of macros. -/
def Value.IsMacroOf (macros : Nat) (v : Value) : Prop :=
  ∃ addr c, v = .macroFn addr c ∧ c.scope = macros

/-- The scope `names` belongs to the one enclave and the scope `macros` to the other one, and the
two divide the state between them.  The scope of macros binds nothing but macros of its own. -/
structure State.KeepsApart (names macros : Nat) (p q : Enclave) (s : State) : Prop where
  divided : s.Divided p q
  allocated : s.Allocated
  registered : s.Registered
  names_mem : p.scopes names
  names_lt : names < s.scopes.size
  macros_mem : q.scopes macros
  macros_lt : macros < s.scopes.size
  /-- There may be macros in the enclave of macros. -/
  literals : q.macros
  bound : ∀ {name : String} {v : Value}, (name, v) ∈ s.scopes.bindings macros → v.IsMacroOf macros

/-- The definition of macros binds macros of the scope. -/
theorem isMacroOf_of_bindMacros {macros : Nat} {definitions : List MacroDefinition} :
    ∀ {s t : State}, bindMacros (m := Eval) macros definitions s = some ((), t) →
      (∀ {name v}, (name, v) ∈ s.scopes.bindings macros → v.IsMacroOf macros) →
      ∀ {name v}, (name, v) ∈ t.scopes.bindings macros → v.IsMacroOf macros := by
  induction definitions with
  | nil =>
    intro s t hrun hs
    cases hrun
    exact hs
  | cons d rest ih =>
    intro s t hrun hs
    obtain ⟨addr, u, hfresh, hrun⟩ := bind_eq_some_iff.1 hrun
    obtain ⟨_, w, hset, hrest⟩ := bind_eq_some_iff.1 hrun
    cases hfresh
    cases hset
    refine ih hrest fun {name v} hmem => ?_
    -- the macro that is bound first, or one of before
    rcases Scopes.mem_bindings_of_set hmem with rfl | hmem
    · exact ⟨_, _, rfl, rfl⟩
    · exact hs hmem

namespace State.KeepsApart

variable {names macros budget : Nat} {p q : Enclave} {s t : State}

theorem macros_not_mem (h : s.KeepsApart names macros p q) : ¬p.scopes macros :=
  fun hp => Nat.not_le_of_lt h.macros_lt (h.divided.size_le_of_scopes hp h.macros_mem)

/-- What happens in the enclave of macros. -/
theorem amongMacros (h : s.KeepsApart names macros p q) (honward : s.Onward t) (ht : t.Allocated)
    (hhandles : t.Registered) (hsealed : t.Sealed q) (hsame : s.SameOutside q t)
    (hbound : ∀ {name v}, (name, v) ∈ t.scopes.bindings macros → v.IsMacroOf macros) :
    t.KeepsApart names macros (p.without s t) q where
  divided :=
    (h.divided.symm.later h.allocated h.registered ht.registry honward.extent_le hsealed hsame).symm
  allocated := ht
  registered := hhandles
  names_mem := ⟨h.names_mem, Or.inl h.names_lt⟩
  names_lt := Nat.lt_of_lt_of_le h.names_lt honward.extent_le.1
  macros_mem := h.macros_mem
  macros_lt := Nat.lt_of_lt_of_le h.macros_lt honward.extent_le.1
  literals := h.literals
  bound := hbound

theorem define (h : s.KeepsApart names macros p q) {definitions : List MacroDefinition}
    (hrun : bindMacros (m := Eval) macros definitions s = some ((), t)) :
    t.KeepsApart names macros (p.without s t) q := by
  obtain ⟨honward, ht, -⟩ := bindMacros_allocates definitions h.macros_lt _ _ _
    (Extent.le_refl _) h.allocated hrun
  obtain ⟨hsealed, hsame, -⟩ :=
    bindMacros_staysIn h.literals h.macros_mem definitions _ _ _ h.divided.right hrun
  exact h.amongMacros honward ht (h.registered.bindMacros h.allocated.registry hrun) hsealed hsame
    (isMacroOf_of_bindMacros hrun h.bound)

theorem expand (h : s.KeepsApart names macros p q) {program : Program}
    {reply : Except ExpansionError Program}
    (hrun : expandMacros (evaluate budget) macros program s = some (reply, t)) :
    t.KeepsApart names macros (p.without s t) q := by
  have hallocates : Allocates s.extent anyWithin
      (expandMacros (evaluate budget) macros program) :=
    expandMacros_allocates (evaluate_allocates budget) program
  obtain ⟨honward, ht, -⟩ := hallocates _ _ _ (Extent.le_refl _) h.allocated hrun
  obtain ⟨hsealed, hsame, -⟩ := expandMacros_staysIn (evaluate_staysInside h.literals budget)
    h.macros_mem program _ _ _ h.divided.right hrun
  have hwrites := expandMacros_writesOnly (evaluate_writesOnly budget) macros program _ _ _ hrun
  have hregistered := h.registered.expandMacros h.allocated.registry hrun
  refine h.amongMacros honward ht hregistered hsealed hsame fun {name v} hmem => ?_
  -- expansion leaves the scope of macros as it is
  rw [Scopes.bindings, hwrites.get?_eq h.macros_lt not_false] at hmem
  exact h.bound hmem

/-- What is evaluated in the scope of names, in a way that stays in its enclave. -/
theorem evaluated (h : s.KeepsApart names macros p q) {program : Program} {v : Value}
    (hrun : runProgram budget program names s = some (v, t)) (hsealed : t.Sealed p)
    (hsame : s.SameOutside p t) : t.KeepsApart names macros p (q.without s t) := by
  obtain ⟨honward, ht, -⟩ := h.allocated.runProgram h.names_lt hrun
  exact
    { divided := h.divided.later h.allocated h.registered ht.registry honward.extent_le hsealed
        hsame
      allocated := ht
      registered := h.registered.runProgram h.allocated.registry hrun
      names_mem := h.names_mem
      names_lt := Nat.lt_of_lt_of_le h.names_lt honward.extent_le.1
      macros_mem := ⟨h.macros_mem, Or.inl h.macros_lt⟩
      macros_lt := Nat.lt_of_lt_of_le h.macros_lt honward.extent_le.1
      literals := h.literals
      bound := fun hmem => by
        rw [Scopes.bindings, hsame.scopes_eq h.macros_not_mem] at hmem
        exact h.bound hmem }

/-- **Reading a source keeps names and macros apart**, if what evaluates programs does not leave the
enclave of names. -/
theorem read (h : s.KeepsApart names macros p q) {run : Program → Eval Value} {source : String}
    {reply : Except SessionError (Option Value)}
    (hread : SourceReading budget macros run source s reply t)
    (hstays : ∀ {r : Enclave}, r.macros = p.macros → r.scopes names →
      ∀ program, StaysIn r (Value.LiesIn r) (run program))
    (hruns : ∀ {program : Program} {u w : State} {v : Value}, run program u = some (v, w) →
      runProgram budget program names u = some (v, w)) :
    ∃ p' q', p'.macros = p.macros ∧ t.KeepsApart names macros p' q' := by
  -- definitions and expansion leave what the names lead to apart from what the macros lead to
  have hexpanded : ∀ {expanded : Except ExpansionError Program} {program : Program} {u w : State},
      SourceExpansion budget macros source s expanded w program u →
      ∃ p', p'.macros = p.macros ∧ w.KeepsApart names macros p' q :=
    fun {_ _ u w} hexpansion => ⟨(p.without s u).without u w, rfl,
      (h.define hexpansion.defined).expand hexpansion.expanded⟩
  cases hread with
  | unread => exact ⟨p, q, rfl, h⟩
  | unexpanded hexpansion | empty hexpansion =>
    obtain ⟨p', hp', ht⟩ := hexpanded hexpansion
    exact ⟨p', q, hp', ht⟩
  | evaluated hexpansion _ hrun =>
    obtain ⟨p', hp', hw⟩ := hexpanded hexpansion
    obtain ⟨hsealed, hsame, -⟩ := hstays hp' hw.names_mem _ _ _ _ hw.divided.left hrun
    exact ⟨p', _, hp', hw.evaluated (hruns hrun) hsealed hsame⟩

/-- What is met from the scopes inside the scope of names lies in the enclave of names. -/
theorem of_reaches (h : s.KeepsApart names macros p q) {item : Item}
    (hitem : Reaches s (s.scopes.Inside names) item) : item.BelongsTo p :=
  h.divided.left.of_reaches (fun _ => h.divided.of_inside h.names_mem h.names_lt) hitem

end State.KeepsApart

/-! ### Sparing evaluation -/

/-- Evaluates an expression in a scope, but does not end where it comes to a macro literal. -/
def evaluateSparing : (budget : Nat) → Expr → Nat → Eval Value
  | 0, _, _ => stuck
  | n + 1, e, scope =>
    match e with
    | .macroFn _ _ => stuck
    | e => evalStep (evaluateSparing n) e scope

/-- Sparing evaluation stays in every enclave, even if there are to be no macros in it. -/
theorem evaluateSparing_staysInside (r : Enclave) (budget : Nat) :
    StaysInside r (evaluateSparing budget) := by
  induction budget with
  | zero => exact fun _ _ _ => .stuck
  | succ n ih =>
    intro e scope hscope
    unfold evaluateSparing
    split
    · exact .stuck
    · next hne =>
      exact evalStep_staysIn ih hscope fun {params body} heq => absurd heq (hne params body)

/-- **Where sparing evaluation ends, it gives what evaluation does.** -/
theorem evaluateSparing_endsAlike (budget : Nat) :
    endsAlike.Evaluators (evaluateSparing budget) (evaluate budget) := by
  induction budget with
  | zero => exact fun _ _ _ _ _ h => nomatch h
  | succ n ih =>
    intro w a b e hab
    unfold evaluateSparing
    split
    · exact fun s v t h => nomatch h
    · exact Comparison.evalStep ih e hab

/-- A program that sparing evaluation runs to its end gives what it always does. -/
theorem runProgram_of_sparing {budget scope : Nat} {program : Program} {s t : State} {v : Value}
    (h : evalProgram (evaluateSparing budget) program scope s = some (v, t)) :
    runProgram budget program scope s = some (v, t) := by
  obtain ⟨w, hrun, hvw⟩ :=
    Comparison.evalProgram (evaluateSparing_endsAlike budget) program (w := ()) rfl s v t h
  rwa [← hvw.eq] at hrun

/-! ### Sessions -/

namespace Session

/-- Reads a source, but does not end where evaluation comes to a macro literal. -/
def runSparing (budget : Nat) (source : String) (σ : Session) :
    Option (Except SessionError (Option Value) × Session) :=
  (evalSourceWith budget σ.macros
    (fun program => evalProgram (evaluateSparing budget) program σ.globals) source σ.state).map
      fun r => (r.1, { σ with state := r.2 })

/-- Reads sources one after another, but does not end where evaluation comes to a macro literal. -/
def runAllSparing (budget : Nat) (sources : List String) (σ : Session) :
    Option (List (Except SessionError (Option Value)) × Session) :=
  inTurn (runSparing budget) sources σ

/-- Names and macros are apart in the session; there may be macros among the names if `literals`
holds. -/
def Apart (literals : Prop) (σ : Session) : Prop :=
  ∃ p q, p.macros = literals ∧ σ.state.KeepsApart σ.globals σ.macros p q

variable {σ τ : Session} {budget : Nat} {source : String}
  {reply : Except SessionError (Option Value)}

theorem reading_of_runSparing (h : σ.runSparing budget source = some (reply, τ)) :
    SourceReading budget σ.macros
        (fun program => evalProgram (evaluateSparing budget) program σ.globals) source σ.state reply
        τ.state ∧ τ = { σ with state := τ.state } := by
  obtain ⟨⟨reply', t⟩, hread, hτ⟩ := Option.map_eq_some_iff.1 h
  obtain ⟨rfl, rfl⟩ := Prod.mk.inj hτ
  exact ⟨evalSourceWith_eq_some_iff.1 hread, rfl⟩

/-- A source that is read to its end without a macro literal is read as always. -/
theorem run_of_runSparing (h : σ.runSparing budget source = some (reply, τ)) :
    σ.run budget source = some (reply, τ) := by
  obtain ⟨hread, hτ⟩ := reading_of_runSparing h
  rw [hτ]
  generalize τ.state = t at hread
  have hread' : SourceReading budget σ.macros
      (fun program => Monkey.runProgram budget program σ.globals) source σ.state reply t := by
    cases hread with
    | unread hparse => exact .unread hparse
    | unexpanded hexpansion => exact .unexpanded hexpansion
    | empty hexpansion => exact .empty hexpansion
    | evaluated hexpansion hne hrun => exact .evaluated hexpansion hne (runProgram_of_sparing hrun)
  rw [run, evalSource_eq_evalSourceWith, evalSourceWith_eq_some_iff.2 hread']

theorem Apart.run (h : σ.Apart True) (hrun : σ.run budget source = some (reply, τ)) :
    τ.Apart True := by
  obtain ⟨p, q, hp, hσ⟩ := h
  obtain ⟨hread, hτ⟩ := reading_of_run hrun
  have hstays : ∀ {r : Enclave}, r.macros = p.macros → r.scopes σ.globals → ∀ program,
      StaysIn r (Value.LiesIn r) (runProgram budget program σ.globals) := by
    intro r hr hscope program
    have hmacros : r.macros := by
      rw [hr, hp]
      trivial
    exact evalProgram_staysIn (evaluate_staysInside hmacros budget) hscope program
  obtain ⟨p', q', hp', ht⟩ := hσ.read hread hstays id
  rw [hτ]
  exact ⟨p', q', hp'.trans hp, ht⟩

theorem Apart.runSparing {literals : Prop} (h : σ.Apart literals)
    (hrun : σ.runSparing budget source = some (reply, τ)) : τ.Apart literals := by
  obtain ⟨p, q, hp, hσ⟩ := h
  obtain ⟨hread, hτ⟩ := reading_of_runSparing hrun
  obtain ⟨p', q', hp', ht⟩ := hσ.read hread
    (fun _ hscope => evalProgram_staysIn (evaluateSparing_staysInside _ budget) hscope)
    runProgram_of_sparing
  rw [hτ]
  exact ⟨p', q', hp'.trans hp, ht⟩

theorem bindings_start (maxCallDepth : Nat) (output : Output) (id : Nat) :
    (start maxCallDepth output).state.scopes.bindings id = [] := by
  simp only [start, Scopes.bindings_add]
  rfl

/-- Nothing is bound in a new session, and neither of its two scopes lies inside another one. -/
theorem sealed_start (maxCallDepth : Nat) (output : Output) {r : Enclave}
    (hscopes : ∀ id, 2 ≤ id → r.scopes id) (htasks : ∀ id, r.tasks id) :
    (start maxCallDepth output).state.Sealed r where
  outer _ ho := by
    rcases Scopes.outer?_of_add ho with ho | ⟨-, hnone⟩
    · rcases Scopes.outer?_of_add ho with ho | ⟨-, hnone⟩
      · cases ho
      · cases hnone
    · cases hnone
  bound _ hmem := by
    rw [bindings_start] at hmem
    cases hmem
  result _ hget _ := nomatch hget
  newScopes hid := hscopes _ hid
  newTasks _ := htasks _

/-- In a new session names and macros are apart. -/
theorem apart_start (literals : Prop) (maxCallDepth : Nat) (output : Output) :
    (start maxCallDepth output).Apart literals := by
  have hallocated : (start maxCallDepth output).state.Allocated :=
    ((State.allocated_start maxCallDepth output).newScope none).newScope none
  -- the scope of macros is the second one
  let p : Enclave := ⟨(· ≠ 1), fun _ => True, literals⟩
  let q : Enclave := ⟨(· ≠ 0), fun _ => True, True⟩
  have hdivided : (start maxCallDepth output).state.Divided p q :=
    { left := sealed_start _ _ (fun _ hid => Nat.ne_of_gt hid) fun _ => trivial
      right := sealed_start _ _ (fun _ hid => Nat.ne_zero_of_lt hid) fun _ => trivial
      cover := fun id => by
        show id ≠ 1 ∨ id ≠ 0
        omega
      size_le_of_scopes := fun {id} hp hq => by
        change id ≠ 1 at hp
        change id ≠ 0 at hq
        show 2 ≤ id
        omega
      size_le_of_tasks := fun _ _ => Nat.zero_le _ }
  have hregistered : (start maxCallDepth output).state.Registered := by
    refine State.registered_of_empty rfl fun scope name v id hmem => ?_
    rw [bindings_start] at hmem
    cases hmem
  refine ⟨p, q, rfl, hdivided, hallocated, hregistered, Nat.zero_ne_one, Nat.zero_lt_succ 1,
    Nat.one_ne_zero, Nat.lt_succ_self 1, trivial, fun hmem => ?_⟩
  rw [bindings_start] at hmem
  cases hmem

end Session

/-- **Macros are found from the scope of names only if evaluation came to a macro literal.**  Let a
session read sources one after another.  Consider what is reached from the scope of names and from
all scopes inside it, of which some may be left over from calls and tasks: the scopes around them,
the values that they bind, the scopes of functions and macros among these, and the results of their
tasks.

The scope of macros binds macros that are closed over it, and nothing else.  It is never reached,
and no macro that is reached is one of those: a macro that is reached was made by a literal in a
scope that is itself reached.  If evaluation never came to a macro literal, no macro is reached at
all, so that none of these scopes binds a name to one. -/
theorem macros_stay_apart {maxCallDepth budget : Nat} {output : Output} {sources : List String}
    {replies : List (Except SessionError (Option Value))} {τ : Session}
    (hrun : (Session.start maxCallDepth output).runAll budget sources = some (replies, τ)) :
    (∀ name v, (name, v) ∈ τ.state.scopes.bindings τ.macros → v.IsMacroOf τ.macros) ∧
    ¬Reaches τ.state (τ.state.scopes.Inside τ.globals) (.scope τ.macros) ∧
    (∀ v, Reaches τ.state (τ.state.scopes.Inside τ.globals) (.value v) → ¬v.IsMacroOf τ.macros) ∧
    ((Session.start maxCallDepth output).runAllSparing budget sources ≠ none →
      ∀ addr c, ¬Reaches τ.state (τ.state.scopes.Inside τ.globals) (.value (.macroFn addr c))) := by
  obtain ⟨p, q, -, hapart⟩ : τ.Apart True :=
    Session.inTurn_induction .run (Session.apart_start True maxCallDepth output) hrun
  have hunreached : ¬Reaches τ.state (τ.state.scopes.Inside τ.globals) (.scope τ.macros) :=
    fun hreach => hapart.macros_not_mem (hapart.of_reaches hreach)
  refine ⟨fun _ _ => hapart.bound, hunreached, ?_, fun hspared addr c hreach => ?_⟩
  · rintro v hreach ⟨addr, c, rfl, hscope⟩
    exact hunreached (hscope ▸ hreach.macroClosure)
  · obtain ⟨⟨replies', τ'⟩, hsparing⟩ := Option.ne_none_iff_exists'.1 hspared
    -- the two runs are the same
    obtain ⟨rfl, rfl⟩ := Prod.mk.inj
      (Option.some.inj ((Session.inTurn_mono Session.run_of_runSparing hsparing).symm.trans hrun))
    obtain ⟨p', q', hliterals, hapart'⟩ : τ'.Apart False :=
      Session.inTurn_induction .runSparing (Session.apart_start False maxCallDepth output) hsparing
    have hmacros : p'.macros := (hapart'.of_reaches hreach _ .self).1
    rwa [hliterals] at hmacros

/-- Sources of which the first defines a macro, and the second calls it in a function, and that
function in a task. -/
def unlessSources : List String :=
  ["let unless = macro(c, a) { quote(if (unquote(c)) { 0 } else { unquote(a) }) };",
    "let f = fn(x) { unless(x < 3, x * 2) }; await(launch(fn() { f(5) }))"]

/-- The macro stays in the scope of macros, though it is called in a function and in a task. -/
theorem macros_stay_apart_unless :
    ∃ replies τ v, (Session.start 9 .empty).runAll 9 unlessSources = some (replies, τ) ∧
      replies.map renderReply = ["", "10\n"] ∧
      ("unless", v) ∈ τ.state.scopes.bindings τ.macros ∧ v.IsMacroOf τ.macros ∧
      ∀ addr c, ¬Reaches τ.state (τ.state.scopes.Inside τ.globals) (.value (.macroFn addr c)) := by
  have hends : ((Session.start 9 .empty).runAll 9 unlessSources).map (fun q =>
      (q.1.map renderReply, (q.2.state.scopes.bindings q.2.macros).map Prod.fst)) =
        some (["", "10\n"], ["unless"]) := by decide +kernel
  have hspared : (Session.start 9 .empty).runAllSparing 9 unlessSources ≠ none := by
    rw [← Option.isSome_iff_ne_none]
    decide +kernel
  obtain ⟨⟨replies, τ⟩, hrun, hq⟩ := Option.map_eq_some_iff.1 hends
  obtain ⟨hreplies, hnames⟩ := Prod.mk.inj hq
  -- what is seen of the run is enough to apply the theorem
  obtain ⟨hbound, -, -, hnone⟩ := macros_stay_apart hrun
  obtain ⟨⟨name, v⟩, hmem, hname⟩ : ∃ b ∈ τ.state.scopes.bindings τ.macros, b.1 = "unless" := by
    refine List.mem_map.1 ?_
    rw [hnames]
    exact List.mem_cons_self
  cases hname
  exact ⟨replies, τ, v, hrun, hreplies, hmem, hbound _ v hmem, hnone hspared⟩

/-- A source with a macro literal that is no definition at its top level. -/
def branchSources : List String :=
  ["if (true) \x7b let m = macro(x) \x7b x \x7d \x7d; 1", "m"]

/-- After it, the scope of names binds a macro. -/
theorem macro_bound_among_names :
    ∃ replies τ addr c, (Session.start 9 .empty).runAll 9 branchSources = some (replies, τ) ∧
      ("m", .macroFn addr c) ∈ τ.state.scopes.bindings τ.globals := by
  have hends : ((Session.start 9 .empty).runAll 9 branchSources).map (fun q =>
      (q.2.state.scopes.bindings q.2.globals).map fun b => (b.1, b.2.type)) =
        some [("m", .macroFn)] := by decide +kernel
  obtain ⟨⟨replies, τ⟩, hrun, hbindings⟩ := Option.map_eq_some_iff.1 hends
  obtain ⟨⟨name, v⟩, hmem, hv⟩ :
      ∃ b ∈ τ.state.scopes.bindings τ.globals, (b.1, b.2.type) = ("m", ValueType.macroFn) := by
    refine List.mem_map.1 ?_
    rw [hbindings]
    exact List.mem_cons_self
  obtain ⟨rfl, htype⟩ := Prod.mk.inj hv
  cases v with
  | macroFn addr c => exact ⟨replies, τ, addr, c, hrun, hmem⟩
  | _ => cases htype

end Monkey
