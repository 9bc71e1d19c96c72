import Monkey.Proofs.ActiveCalls
import Monkey.Proofs.Alongside
import Monkey.Proofs.FailedSource
import Monkey.Proofs.Handles
import Monkey.Proofs.Reaching

/-!
# Expansion does not see evaluation

A session expands macros with the very interpreter that evaluates its programs: both print to the
same output, register their tasks in the same registry and draw on the same addresses, and tasks
that a program has started go on while macros are expanded.  Yet what an expansion makes depends on
the macros that were defined and on the limit on active calls alone, and, where macros start tasks
themselves, on the turns that these take.  What the session has evaluated before does not matter.

The macros live in a scope of their own, which only definitions write to.  So two sessions with the
same definitions bind the same macros there, up to the addresses, and that is all that expansion can
reach.

## Main definitions

* `Pool.Works` — what a session does between definitions of macros.
* `Pool.History` — sessions with the macros that they have defined, in order.

## Main results

* `Pool.History.evalSourceOn` — **reading a source goes on with a session.**
* `Pool.History.sameMacros` — **two sessions with the same definitions bind matching macros.**
* `expansions_agree_of_histories` — **what was evaluated before does not change any expansion.**
-/

namespace Monkey

/-- What a session does between definitions of macros: it waits while tasks go on, it expands the
calls of macros in a program, it runs a program in the scope of names, and it forgets the printed
text. -/
inductive Pool.Works (globals macros : Nat) (p : Pool Unit) : Pool Unit → Prop
  | waited {q : Pool Unit} : p.Reaches (.pure ()) () q → Works globals macros p q
  | expanded {budget : Nat} {program : Program} {reply : Except ExpansionError Program}
    {q : Pool Unit} : p.Reaches (expandMacros (evaluateOn Code budget) macros program) reply q →
    Works globals macros p q
  | evaluated {budget : Nat} {program : Program} {v : Value} {q : Pool Unit} :
    p.Reaches (runProgramOn Code budget program globals) v q → Works globals macros p q
  | cleared : Works globals macros p
      { p with state := { p.state with output := p.state.output.clear } }

/-- Sessions that have defined the given macros, in order, with the tasks that they have started.
At first nothing is bound in the scope of macros, no call is active and no task runs; names, results
of tasks and printed text may be there already, with handles of registered tasks in them. -/
inductive Pool.History (globals macros : Nat) : List MacroDefinition → Pool Unit → Prop
  | start {p : Pool Unit} : p.state.scopes.get? macros = some ⟨[], none⟩ →
    globals < p.state.scopes.size → globals ≠ macros → p.state.Allocated → p.state.Registered →
    p.main.depth = 0 → p.tasks = [] → History globals macros [] p
  | works {defs : List MacroDefinition} {p q : Pool Unit} :
    History globals macros defs p → p.Works globals macros q → History globals macros defs q
  | defined {defs : List MacroDefinition} {p q : Pool Unit} {d : MacroDefinition} :
    History globals macros defs p → p.Reaches (bindMacros macros [d]) () q →
    History globals macros (defs ++ [d]) q

/-! ### What lasts -/

/-- From the state `s` to the later state `t` the scope of macros is as it was, no address is given
out again, and as many active calls are allowed. -/
structure State.KeepsMacros (macros : Nat) (s t : State) : Prop where
  get?_eq : t.scopes.get? macros = s.scopes.get? macros
  nextAddress_le : s.nextAddress ≤ t.nextAddress
  maxCallDepth_eq : t.maxCallDepth = s.maxCallDepth

theorem State.KeepsMacros.refl (macros : Nat) (s : State) : s.KeepsMacros macros s :=
  ⟨rfl, Nat.le_refl _, rfl⟩

theorem State.KeepsMacros.trans {macros : Nat} {s t u : State} (hst : s.KeepsMacros macros t)
    (htu : t.KeepsMacros macros u) : s.KeepsMacros macros u :=
  ⟨htu.get?_eq.trans hst.get?_eq, Nat.le_trans hst.nextAddress_le htu.nextAddress_le,
    htu.maxCallDepth_eq.trans hst.maxCallDepth_eq⟩

/-- The discipline of those who bind names in known scopes, but not in the scope of macros. -/
def sparingMacros (macros : Nat) (base : State) : Discipline Matching where
  toRules := (matched macros).rules
  Holds ρ s := s.Confined macros ρ ∧ base.KeepsMacros macros s
  holds_callDepth := fun ⟨hs, hkeeps⟩ _ =>
    ⟨⟨hs.diagonal, { hs.alike with }, hs.registry, hs.lt⟩, hkeeps.get?_eq, hkeeps.nextAddress_le,
      hkeeps.maxCallDepth_eq⟩
  step {_ ρ _ s t _} hs hmay hrun := by
    obtain ⟨hconfined, hkeeps⟩ := hs
    have ha : Action.Alike (matched macros) ρ _ _ := hmay
    obtain ⟨ρ', hnew, hconfined', hgives⟩ := hconfined.act ha hrun
    have hspares := ha.spares hrun
    have hkeeps' : s.KeepsMacros macros t := ⟨hspares.scopes hconfined.lt fun _ _ => rfl,
      hspares.nextAddress_le, hspares.maxCallDepth_eq⟩
    exact ⟨ρ', hnew.le, ⟨hconfined', hkeeps.trans hkeeps'⟩, hgives⟩

/-- A session while it reads nothing: no call is active in it, what it knows leads to nothing else,
and its tasks bind no names in the scope of macros. -/
structure Pool.Settled (globals macros : Nat) (ρ : Matching) (p : Pool Unit) : Prop where
  globals_ne : globals ≠ macros
  globals_known : ρ.scopes globals globals
  macros_known : ρ.scopes macros macros
  confined : p.state.Confined macros ρ
  counted : (p.begin (Code.pure ())).Counted p.state.maxCallDepth p.state.maxCallDepth 0
  tasks : ∀ th ∈ p.tasks, th.code.Abide (matched macros).rules ρ anyResults th.code

namespace Pool.Settled

variable {globals macros : Nat} {ρ ρ' : Matching} {p q : Pool Unit} {s : State}

theorem depth_eq (hp : p.Settled globals macros ρ) : p.main.depth = 0 :=
  (hp.counted.main.exact (Nat.zero_le _)).depth_eq

/-- Nobody but the first thread has changed the state. -/
theorem change (hp : p.Settled globals macros ρ) (hle : ρ ≤ ρ') (hs : s.Confined macros ρ')
    (hlimit : s.maxCallDepth = p.state.maxCallDepth) :
    Settled globals macros ρ' ⟨s, ⟨.pure (), p.main.depth⟩, p.tasks⟩ where
  globals_ne := hp.globals_ne
  globals_known := hle.1 hp.globals_known
  macros_known := hle.1 hp.macros_known
  confined := hs
  counted := by
    rw [hlimit]
    exact ⟨hlimit, hp.counted.main, hp.counted.tasks⟩
  tasks th hth := (hp.tasks th hth).mono lasting_anyResults hle

/-- **A session keeps its macros** as long as it does nothing but evaluate and expand. -/
theorem reaches {α : Type} {code : Code α} {a : α} {Q : α → Prop}
    (hp : p.Settled globals macros ρ)
    (hcount : code.CountsAt p.state.maxCallDepth p.state.maxCallDepth Q)
    (hcode : code.Abide (matched macros).rules ρ anyResults code) (h : p.Reaches code a q) :
    ∃ ρ', ρ ≤ ρ' ∧ q.Settled globals macros ρ' ∧ p.state.KeepsMacros macros q.state := by
  obtain ⟨ms, hruns⟩ := h
  -- the threads keep to what is confined, and spare the macros
  have hbegin : (p.begin code).Abides (sparingMacros macros p.state) ρ anyResults :=
    ⟨⟨hp.confined, .refl macros _⟩, hcode, hp.tasks⟩
  obtain ⟨ρ', hle, ⟨hconfined, hkeeps⟩, -, htasks⟩ := hruns.abides lasting_anyResults hbegin
  -- they count their calls, so that none is active in the end
  have hcounts : (p.begin code).Counted p.state.maxCallDepth p.state.maxCallDepth 0 := by
    refine ⟨rfl, ?_, hp.counted.tasks⟩
    rw [Thread.Counted, Pool.begin, hp.depth_eq]
    exact (hcount 0 (Nat.zero_le _)).imp fun _ _ => trivial
  have hcounted := hruns.counted hcounts
  have hdepth : q.main.depth = 0 := (hcounted.main.exact (Nat.zero_le _)).depth_eq
  have hlimit : q.state.maxCallDepth = p.state.maxCallDepth := hkeeps.maxCallDepth_eq
  refine ⟨ρ', hle, ⟨hp.globals_ne, hle.1 hp.globals_known, hle.1 hp.macros_known, hconfined,
    ⟨rfl, ?_, ?_⟩, htasks⟩, hkeeps⟩
  · rw [Thread.Counted, Pool.begin, hdepth]
    exact .pure trivial
  · rw [hlimit]
    exact hcounted.tasks

/-- Tasks go on. -/
theorem waited (hp : p.Settled globals macros ρ) (h : p.Reaches (.pure ()) () q) :
    ∃ ρ', ρ ≤ ρ' ∧ q.Settled globals macros ρ' ∧ p.state.KeepsMacros macros q.state :=
  hp.reaches (Q := fun _ => True) (fun _ _ => .pure trivial) (.pure trivial) h

/-- **No work of a session touches its macros.** -/
theorem works (hp : p.Settled globals macros ρ) (h : p.Works globals macros q) :
    ∃ ρ', q.Settled globals macros ρ' ∧ p.state.KeepsMacros macros q.state := by
  have heval (budget : Nat) : (countingCalls (Nat.le_refl p.state.maxCallDepth)).Evaluators
      (evaluateOn Code budget) (evaluateOn Code budget) := Comparison.evaluateOn _ budget
  cases h with
  | waited h =>
    obtain ⟨ρ', -, hq⟩ := hp.waited h
    exact ⟨ρ', hq⟩
  | @expanded budget program _ _ h =>
    have hcount := Comparison.expandMacros (heval budget) (countingCalls_findsMacros macros _)
      (w := ()) rfl program
    have hcode := (matched macros).expandMacros budget
      (fun _ => trivial) program hp.macros_known
    obtain ⟨ρ', -, hq⟩ := hp.reaches hcount (hcode.imp fun _ _ _ _ _ => trivial) h
    exact ⟨ρ', hq⟩
  | @evaluated budget program _ _ h =>
    have hcount := Comparison.evalProgram (heval budget) (w := ()) program
      (show globals = globals from rfl)
    have hcode := (matched macros).runProgramOn budget program
      ⟨hp.globals_known, hp.globals_ne⟩
    obtain ⟨ρ', -, hq⟩ := hp.reaches hcount (hcode.imp fun _ _ _ _ _ => trivial) h
    exact ⟨ρ', hq⟩
  -- nothing leads into what was printed
  | cleared =>
    have hconfined : State.Confined macros ρ { p.state with output := p.state.output.clear } :=
      ⟨hp.confined.diagonal, { hp.confined.alike with }, hp.confined.registry, hp.confined.lt⟩
    refine ⟨ρ, ⟨hp.globals_ne, hp.globals_known, hp.macros_known, hconfined, ?_, hp.tasks⟩, rfl,
      Nat.le_refl _, rfl⟩
    exact ⟨rfl, hp.counted.main, hp.counted.tasks⟩

end Pool.Settled

/-! ### Definitions of macros -/

/-- From `s` to `t` the macro has been defined, at a new address, and the scope of macros has
changed in nothing else. -/
structure State.Defines (macros : Nat) (d : MacroDefinition) (addr : Nat) (s t : State) : Prop where
  get?_eq : t.scopes.get? macros = (s.scopes.get? macros).map fun scope =>
    { scope with bindings :=
      scope.bindings.set d.name (.macroFn addr ⟨d.params, d.body, macros⟩) }
  le_addr : s.nextAddress ≤ addr
  addr_lt : addr < t.nextAddress
  maxCallDepth_eq : t.maxCallDepth = s.maxCallDepth

section

variable {globals macros addr : Nat} {p q : Pool Unit} {s t u : State} {d : MacroDefinition}

theorem State.Defines.earlier (hst : s.KeepsMacros macros t) (htu : t.Defines macros d addr u) :
    s.Defines macros d addr u :=
  ⟨by rw [htu.get?_eq, hst.get?_eq], Nat.le_trans hst.nextAddress_le htu.le_addr, htu.addr_lt,
    htu.maxCallDepth_eq.trans hst.maxCallDepth_eq⟩

theorem State.Defines.later (hst : s.Defines macros d addr t) (htu : t.KeepsMacros macros u) :
    s.Defines macros d addr u :=
  ⟨htu.get?_eq.trans hst.get?_eq, hst.le_addr, Nat.lt_of_lt_of_le hst.addr_lt htu.nextAddress_le,
    htu.maxCallDepth_eq.trans hst.maxCallDepth_eq⟩

/-- **The definition of a macro changes nothing else in the scope of macros**, whatever tasks do
meanwhile. -/
theorem Pool.Settled.defines {ρ : Matching} (hp : p.Settled globals macros ρ)
    (h : p.Reaches (bindMacros macros [d]) () q) : ∃ ρ', q.Settled globals macros ρ' ∧
      ∃ addr, p.state.Defines macros d addr q.state := by
  change p.Reaches (.act [] .fresh fun addr => .act []
    (.setName macros d.name (.macroFn addr ⟨d.params, d.body, macros⟩)) .pure) () q at h
  -- an address is taken, and then the name is bound; tasks go on before, between and after
  obtain ⟨p₁, addr, t₁, hbefore, hfresh, h⟩ := h.of_act
  obtain ⟨ρ₁, hle₁, hp₁, hkeeps₁⟩ := hp.waited hbefore
  obtain ⟨ρ₂, hnew, hconfined₂, haddr⟩ := hp₁.confined.act .fresh
    (show Action.fresh.run p₁.state = some (p₁.state.nextAddress, _) from rfl)
  cases hfresh
  obtain ⟨p₃, _, t₃, hbetween, hset, hafter⟩ := h.of_act
  obtain ⟨ρ₃, hle₃, hp₃, hkeeps₃⟩ := (hp₁.change hnew.le hconfined₂ rfl).waited hbetween
  have haddr₃ := hle₃.2.1 haddr
  let mac := Value.macroFn p₁.state.nextAddress ⟨d.params, d.body, macros⟩
  have hmacro : Value.Matches ρ₃ mac mac := .macroFn haddr₃ ⟨rfl, rfl, hp₃.macros_known⟩
  have hbound := hp₃.confined.alike.setName hp₃.macros_known d.name hmacro
  cases hset
  have hconfined₄ : State.Confined macros ρ₃
      { p₃.state with scopes := p₃.state.scopes.set macros d.name mac } :=
    ⟨hp₃.confined.diagonal, hbound, hp₃.confined.registry,
      Nat.lt_of_lt_of_eq hp₃.confined.lt (Scopes.size_set ..).symm⟩
  obtain ⟨ρ₅, -, hq, hkeeps₅⟩ := (hp₃.change (le_refl ρ₃) hconfined₄ rfl).waited hafter
  refine ⟨ρ₅, hq, p₁.state.nextAddress, .earlier hkeeps₁ (.later ⟨?_, ?_, ?_, ?_⟩ hkeeps₅)⟩
  · exact (Scopes.get?_set_self ..).trans (congrArg _ hkeeps₃.get?_eq)
  · exact Nat.le_refl _
  · exact hkeeps₃.nextAddress_le
  · exact hkeeps₃.maxCallDepth_eq

end

/-! ### Sessions with matching macros -/

/-- Everything that was given out stands for itself. -/
def Extent.matching (a : Extent) : Matching where
  scopes := .among (· < a.scopes)
  addresses := .among (· < a.addresses)
  tasks := .among (· < a.tasks)

/-- What is inside of a value that mentions only what was given out does so, too. -/
theorem Value.Within.holds {a : Extent} {v w : Value} (h : v.Within a) (hw : v.Holds w) :
    w.Within a := by
  induction hw with
  | self => exact h
  | element hmem _ ih => exact ih (allWithin_iff.1 h.2 _ hmem)
  | entry hmem _ ih => exact ih (entriesWithin_iff.1 h.2 _ hmem)
  | returned _ ih => exact ih h.2

/-- A value that mentions only what was given out matches itself. -/
theorem Value.Within.matches_self {a : Extent} {v : Value} (h : v.Within a)
    (hhandles : v.HandlesIn (· < a.tasks)) : Value.Matches a.matching v v := by
  refine Value.matches_self_iff.2 fun w hw => ?_
  have hwithin := h.holds hw
  cases w with
  | string | error | quote => exact ⟨rfl, hwithin⟩
  | array | hash | returned => exact ⟨rfl, hwithin.1⟩
  | function | macroFn => exact ⟨⟨rfl, hwithin.1⟩, rfl, hwithin.2⟩
  | task id => exact ⟨rfl, hhandles _ hw⟩
  | integer | boolean | null | builtin | intrinsic => trivial

/-- In a state that mentions only what was given out, all that was given out leads to nothing
else. -/
theorem State.Allocated.confined {s : State} (hs : s.Allocated) (hregistered : s.Registered)
    {macros : Nat} (hmacros : macros < s.scopes.size) : s.Confined macros s.extent.matching where
  diagonal := ⟨And.left, And.left, And.left⟩
  registry := hs.registry
  lt := hmacros
  alike := by
    refine ⟨?_, fun ⟨heq, hlt⟩ => ⟨hlt, heq ▸ hlt⟩, ?_, rfl⟩
    -- a scope binds only what was given out, and lies in an earlier one
    · rintro a _ ⟨rfl, ha⟩
      have hget : s.scopes.get? a = some s.scopes.toArray[a] := Array.getElem?_eq_getElem ha
      refine ⟨_, _, hget, hget, Keywise.same_iff.2 fun entry hentry => ?_, ?_⟩
      · have hbound : entry ∈ s.scopes.bindings a := by rwa [Scopes.bindings, hget]
        exact (hs.bound hbound).matches_self (hregistered.bound hbound)
      · have houter : s.scopes.outer? a = s.scopes.toArray[a].outer := by
          rw [Scopes.outer?, hget]
          rfl
        cases ho : s.scopes.toArray[a].outer with
        | none => exact .none
        | some o =>
          exact .some ⟨rfl, Nat.lt_trans (s.scopes.outer?_lt (houter.trans ho)) ha⟩
    -- so does the entry of a task hold only what was given out
    · rintro i _ ⟨rfl, hi⟩
      obtain ⟨state, hstate⟩ := Option.isSome_iff_exists.1 ((hs.registry.isSome_get?_iff i).2 hi)
      have hvalue {v : Value} (hv : state.value? = some v) :
          Value.Matches s.extent.matching v v :=
        (hs.result hstate hv).matches_self (hregistered.result hstate hv)
      refine ⟨state, state, hstate, hstate, ?_⟩
      cases state with
      | running sent =>
        cases sent with
        | none => exact .running .none
        | some v => exact .running (.some (hvalue rfl))
      | ended sent =>
        cases sent with
        | none => exact .ended .none
        | some v => exact .ended (.some (hvalue rfl))
      | joined v => exact .joined (hvalue rfl)

/-- States in whose scopes of macros the same names are bound to matching macros, with as many
active calls allowed.  Nothing is said of anything else in them. -/
def SameMacros (macros macros' : Nat) (s t : State) : Prop :=
  ∃ μ : Matching, (∀ a b, μ.scopes a b ↔ a = macros ∧ b = macros') ∧ (∀ i j, ¬μ.tasks i j) ∧
    s.Matches μ t

namespace SameMacros

variable {macros macros' : Nat} {s s' t t' : State}

theorem start (hs : s.scopes.get? macros = some ⟨[], none⟩)
    (ht : t.scopes.get? macros' = some ⟨[], none⟩) (hlimit : s.maxCallDepth = t.maxCallDepth) :
    SameMacros macros macros' s t := by
  refine ⟨.ofScopes macros macros', fun _ _ => .of_eq (false_or _), fun _ _ => id, ?_, ?_, ?_,
    hlimit⟩
  · rintro a b (hab | ⟨rfl, rfl⟩)
    · cases hab
    · exact ⟨_, _, hs, ht, .nil, .none⟩
  · exact False.elim
  · exact False.elim

/-- What keeps the macros keeps them matching. -/
theorem later (h : SameMacros macros macros' s t) (hs : s.KeepsMacros macros s')
    (ht : t.KeepsMacros macros' t') : SameMacros macros macros' s' t' := by
  obtain ⟨μ, hscopes, htasks, hst⟩ := h
  refine ⟨μ, hscopes, htasks, hst.congr (fun {a b} hab => ?_) ⟨hs.nextAddress_le, ht.nextAddress_le⟩
    (fun hij => absurd hij (htasks _ _)) ⟨hs.maxCallDepth_eq, ht.maxCallDepth_eq⟩⟩
  obtain ⟨rfl, rfl⟩ := (hscopes a b).1 hab
  exact ⟨hs.get?_eq, ht.get?_eq⟩

/-- The same definition in both states. -/
theorem defined (h : SameMacros macros macros' s t) {d : MacroDefinition} {addr addr' : Nat}
    (hs : s.Defines macros d addr s') (ht : t.Defines macros' d addr' t') :
    SameMacros macros macros' s' t' := by
  obtain ⟨μ, hscopes, htasks, hst⟩ := h
  obtain ⟨ν, -, hνscopes, hνtasks, haddr, -, hnext⟩ := hst.address hs.le_addr ht.le_addr
  have hmacros : ν.scopes macros macros' := by
    rw [hνscopes]
    exact (hscopes _ _).2 ⟨rfl, rfl⟩
  -- the two macros differ in their addresses and scopes alone
  have hmacro : Value.Matches ν (.macroFn addr ⟨d.params, d.body, macros⟩)
      (.macroFn addr' ⟨d.params, d.body, macros'⟩) := .macroFn haddr ⟨rfl, rfl, hmacros⟩
  have hbound := hnext.setName hmacros d.name hmacro
  refine ⟨ν, hνscopes ▸ hscopes, hνtasks ▸ htasks, hbound.congr (fun {a b} hab => ?_)
    ⟨hs.addr_lt, ht.addr_lt⟩ (fun {i j} hij => ?_) ⟨hs.maxCallDepth_eq, ht.maxCallDepth_eq⟩⟩
  · rw [hνscopes] at hab
    obtain ⟨rfl, rfl⟩ := (hscopes a b).1 hab
    rw [hs.get?_eq, ht.get?_eq]
    exact ⟨(Scopes.get?_set_self ..).symm, (Scopes.get?_set_self ..).symm⟩
  · rw [hνtasks] at hij
    exact absurd hij (htasks i j)

end SameMacros

namespace Pool.History

variable {globals macros globals' macros' : Nat} {defs : List MacroDefinition} {p q : Pool Unit}

/-- A session is settled at all times. -/
theorem settled (h : p.History globals macros defs) : ∃ ρ, p.Settled globals macros ρ := by
  induction h with
  | @start p hget hglobals hne hs hregistered hdepth hidle =>
    have hlt := Scopes.lt_size_of_get? hget
    -- at first all that was ever created is known, and stands for itself
    refine ⟨p.state.extent.matching, hne, ⟨rfl, hglobals⟩, ⟨rfl, hlt⟩, hs.confined hregistered hlt,
      ⟨rfl, ?_, ?_⟩, ?_⟩
    · rw [Thread.Counted, Pool.begin, hdepth]
      exact .pure trivial
    · rw [Pool.begin, hidle]
      exact List.forall_mem_nil _
    · rw [hidle]
      exact List.forall_mem_nil _
  | works _ hworks ih =>
    obtain ⟨ρ, hp⟩ := ih
    obtain ⟨ρ', hq, -⟩ := hp.works hworks
    exact ⟨ρ', hq⟩
  | defined _ hdefines ih =>
    obtain ⟨ρ, hp⟩ := ih
    obtain ⟨ρ', hq, -⟩ := hp.defines hdefines
    exact ⟨ρ', hq⟩

/-- What a session does between definitions keeps its macros. -/
theorem keepsMacros (hp : p.History globals macros defs) (hworks : p.Works globals macros q) :
    p.state.KeepsMacros macros q.state := by
  obtain ⟨ρ, hsettled⟩ := hp.settled
  obtain ⟨-, -, hkeeps⟩ := hsettled.works hworks
  exact hkeeps

/-- **Two sessions with the same definitions and the same limit have matching macros**, whatever
else they did in between. -/
theorem sameMacros (hp : p.History globals macros defs) : ∀ {q : Pool Unit},
    q.History globals' macros' defs → p.state.maxCallDepth = q.state.maxCallDepth →
    SameMacros macros macros' p.state q.state := by
  induction hp with
  | @start p hget _ _ _ _ _ _ =>
    -- nothing is defined in the first session, so nothing in the second one
    intro q hq
    generalize hdefs : ([] : List MacroDefinition) = defs at hq
    induction hq with
    | start hget' => exact .start hget hget'
    | @works _ q r hq hworks ih =>
      have hkeeps := hq.keepsMacros hworks
      intro hlimit
      rw [hkeeps.maxCallDepth_eq] at hlimit
      exact (ih hdefs hlimit).later (.refl _ _) hkeeps
    | defined => simp at hdefs
  | works hp hworks ih =>
    intro q hq hlimit
    have hkeeps := hp.keepsMacros hworks
    rw [hkeeps.maxCallDepth_eq] at hlimit
    exact (ih hq hlimit).later hkeeps (.refl _ _)
  | @defined defs p p' d hp hdefines ih =>
    intro q hq
    generalize hdefs : defs ++ [d] = all at hq
    induction hq with
    | start => simp at hdefs
    | @works _ q r hq hworks ih' =>
      have hkeeps := hq.keepsMacros hworks
      intro hlimit
      rw [hkeeps.maxCallDepth_eq] at hlimit
      exact (ih' hdefs hlimit).later (.refl _ _) hkeeps
    -- both end with a definition, which is the same one
    | @defined defs' q q' d' hq hdefines' _ =>
      obtain ⟨rfl, hd⟩ := List.append_inj' hdefs rfl
      cases hd
      obtain ⟨_, hsettled⟩ := hp.settled
      obtain ⟨_, hsettled'⟩ := hq.settled
      obtain ⟨-, -, addr, hmade⟩ := hsettled.defines hdefines
      obtain ⟨-, -, addr', hmade'⟩ := hsettled'.defines hdefines'
      intro hlimit
      rw [hmade.maxCallDepth_eq, hmade'.maxCallDepth_eq] at hlimit
      exact (ih hq hlimit).defined hmade hmade'

/-! ### Reading sources -/

/-- Definitions one after another. -/
theorem bindMacros {more : List MacroDefinition} : ∀ {defs : List MacroDefinition} {p : Pool Unit},
    p.History globals macros defs → p.Reaches (Monkey.bindMacros macros more) () q →
    q.History globals macros (defs ++ more) := by
  induction more with
  | nil =>
    intro defs p hp h
    rw [List.append_nil]
    exact hp.works (.waited h)
  | cons d rest ih =>
    intro defs p hp h
    have hsplit : (Monkey.bindMacros macros (d :: rest) : Code Unit) =
        Monkey.bindMacros macros [d] >>= fun _ => Monkey.bindMacros macros rest := rfl
    rw [hsplit, Pool.reaches_bind_iff] at h
    obtain ⟨_, r, hfirst, hrest⟩ := h
    have hlater := ih (hp.defined hfirst) hrest
    rwa [List.append_assoc] at hlater

end Pool.History

namespace Pool.History

variable {globals macros : Nat} {defs : List MacroDefinition} {p q : Pool Unit}

/-- A new session has defined nothing. -/
theorem new (maxCallDepth : Nat) (output : Output) :
    (Pool.alone (Session.start maxCallDepth output).state (.pure ())).History 0 1 [] := by
  have hstart : (State.start maxCallDepth output).Allocated := State.allocated_start _ _
  have hstores := (State.stores_start (Value.HandlesIn (· < 0)) maxCallDepth output).newScope none
  exact .start rfl (Nat.zero_lt_succ 1) Nat.zero_ne_one ((hstart.newScope none).newScope none)
    (hstores.newScope none) rfl rfl

/-- **Reading a source goes on with a session**: it adds the macros that the source defines. -/
theorem evalSourceOn (hp : p.History globals macros defs) {budget : Nat} {source : String}
    {reply : Except SessionError (Option Value)}
    (h : p.Reaches (evalSourceOn Code budget globals macros source) reply q) :
    q.History globals macros (defs ++ definedMacros source) := by
  unfold Monkey.evalSourceOn at h
  unfold definedMacros
  cases hparse : (parse source).toExcept with
  | error errors =>
    rw [hparse] at h
    rw [List.append_nil]
    exact hp.works (.waited (Pool.reaches_pure_iff.1 h).2)
  | ok program =>
    rw [hparse] at h
    obtain ⟨rest, p₁, hdefine, h⟩ := Pool.reaches_bind_iff.1 h
    obtain ⟨_, p₀, hbind, hfilter⟩ := Pool.reaches_bind_iff.1 hdefine
    -- reading is work but for the definitions, which come first
    have hdefined := (hp.bindMacros hbind).works (.waited (Pool.reaches_pure_iff.1 hfilter).2)
    obtain ⟨expanded, p₂, hexpand, h⟩ := Pool.reaches_bind_iff.1 h
    have hexpanded := hdefined.works (.expanded hexpand)
    split at h
    · exact hexpanded.works (.waited (Pool.reaches_pure_iff.1 h).2)
    · exact hexpanded.works (.waited (Pool.reaches_pure_iff.1 h).2)
    · obtain ⟨v, p₃, hrun, h⟩ := Pool.reaches_bind_iff.1 h
      exact (hexpanded.works (.evaluated hrun)).works (.waited (Pool.reaches_pure_iff.1 h).2)

end Pool.History

/-! ### Expansion -/

/-- Threads that give the same result have come to their ends together. -/
theorem Code.Abide.pure_iff {W : Type} [Preorder W] {R : Rules W} {w : W} {α : Type} {x y : Code α}
    (h : x.Abide R w sameResult y) (a : α) : x = .pure a ↔ y = .pure a := by
  cases h with
  | pure hsame =>
    cases (hsame : _ = _)
    exact Iff.rfl
  | act => exact iff_of_false nofun nofun
  | spawn => exact iff_of_false nofun nofun

section

variable {globals macros globals' macros' : Nat} {defs : List MacroDefinition} {p q : Pool Unit}

/-- In two sessions with the same definitions the expansions of one program do alike, beside
whatever tasks run in the first one. -/
theorem Pool.History.beside (hp : p.History globals macros defs)
    (hq : q.History globals' macros' defs)
    (hlimit : p.state.maxCallDepth = q.state.maxCallDepth) (budget : Nat) (program : Program) :
    ∃ ρ μ, (p.begin (expandMacros (evaluateOn Code budget) macros program)).Beside macros ρ μ
      sameResult q.tasks (List.replicate p.tasks.length false)
      (q.begin (expandMacros (evaluateOn Code budget) macros' program)) := by
  obtain ⟨ρ, hsettled⟩ := hp.settled
  obtain ⟨_, hsettled'⟩ := hq.settled
  obtain ⟨μ, hscopes, htasks, hst⟩ := hp.sameMacros hq hlimit
  have hapart : Apart macros ρ μ p.state q.state :=
    ⟨hst, hsettled.confined, hsettled'.confined.registry, fun hab _ => ((hscopes _ _).1 hab).1,
      fun hij => absurd hij (htasks _ _)⟩
  have hcode := (matched macros).expandMacros budget (fun _ => trivial)
    program ((hscopes _ _).2 ⟨rfl, rfl⟩)
  exact ⟨ρ, μ, hapart, ⟨hsettled.depth_eq.trans hsettled'.depth_eq.symm, hcode⟩, [],
    (List.append_nil _).symm, .of_others hsettled.tasks⟩

/-- **What was evaluated before does not change any expansion.**  Let two sessions have defined the
same macros in the same order, and let as many active calls be allowed in both.  Whatever else they
have evaluated and expanded, and whatever tasks they have started, an expansion of a program can go
on in the one session as it goes on in the other: the thread that expands and those that it starts
can take the same turns, with the same tasks refused by the host.  And whenever they have taken the
same turns in both sessions, they have come to the same expanded program in both, or to the same
error in both, or they have not come to an end in either. -/
theorem expansions_agree_of_histories (hp : p.History globals macros defs)
    (hq : q.History globals' macros' defs) (hlimit : p.state.maxCallDepth = q.state.maxCallDepth)
    (budget : Nat) (program : Program) {ms : List (Option Nat × Label)}
    {p' : Pool (Except ExpansionError Program)}
    (h : Pool.Runs (p.begin (expandMacros (evaluateOn Code budget) macros program)) ms p') :
    (∃ ns q', Pool.Runs (q.begin (expandMacros (evaluateOn Code budget) macros' program)) ns q' ∧
      q.ownTurns ns = p.ownTurns ms) ∧
    ∀ ns q', Pool.Runs (q.begin (expandMacros (evaluateOn Code budget) macros' program)) ns q' →
      q.ownTurns ns = p.ownTurns ms →
      ∀ reply, p'.main.code = .pure reply ↔ q'.main.code = .pure reply := by
  have hsame : Lasting (@sameResult Matching (Except ExpansionError Program)) :=
    fun _ _ _ _ _ => id
  obtain ⟨_, _, hpq⟩ := hp.beside hq hlimit budget program
  obtain ⟨ns₁, q₁, _, _, _, hruns₁, hturns₁, howns₁, hend₁⟩ := h.beside hsame hpq
  constructor
  · have hnone : (List.replicate p.tasks.length false).count true = 0 := by
      simp [List.count_replicate]
    rw [hnone, flagsBehind_zero] at howns₁
    exact ⟨ns₁, q₁, hruns₁, howns₁⟩
  · intro ns q' hruns howns reply
    -- in the second session the tasks of before may be left out, too
    obtain ⟨_, _, hqq⟩ := hq.beside hq rfl budget program
    obtain ⟨ns₂, q₂, _, _, _, hruns₂, hturns₂, -, hend₂⟩ := hruns.beside hsame hqq
    have hturns : ns₁.map Pool.turn = ns₂.map Pool.turn := by
      rw [hturns₁, hturns₂]
      exact congrArg _ howns.symm
    obtain ⟨-, rfl⟩ := hruns₁.unique hruns₂ hturns
    exact (hend₁.main.code.pure_iff reply).trans (hend₂.main.code.pure_iff reply).symm

end

/-- The program `let h = launch(fn() { puts(7); 7 }); let x = await(h)`. -/
def launchingProgram : Program := [
  .letBe "h" (.call (.ident "launch")
    [.fn [] [.expr (.call (.ident "puts") [.int 7]), .expr (.int 7)]]),
  .letBe "x" (.call (.ident "await") [.ident "h"])]

/-- The call `plusOne(y)` is expanded to `y + 1` by a session that has only defined the macro, with
two threads that take turns.  A session that has started a task before, has printed and has bound
the names that the macro uses makes the same of it in the same turns. -/
theorem expansions_agree_of_histories_launching :
    let expand := expandMacros (evaluateOn Code 9) 1 [.expr (.call (.ident "plusOne") [.ident "y"])]
    let expanded : Code (Except ExpansionError Program) :=
      .pure (.ok [.expr (.binary .add (.ident "y") (.int 1))])
    ∃ (p q : Pool Unit) (v : Value), p.History 0 1 [Session.launchingMacro] ∧
      p.Reaches (runProgramOn Code 5 launchingProgram 0) v q ∧
      q.state.tasks.size = p.state.tasks.size + 1 ∧
      ∃ ms p' ns q', Pool.Runs (p.begin expand) ms p' ∧ p'.main.code = expanded ∧
        Pool.Runs (q.begin expand) ns q' ∧ q.ownTurns ns = p.ownTurns ms ∧
        q'.main.code = expanded := by
  intro expand expanded
  have hdefine : (bindMacros 1 [Session.launchingMacro] : Code Unit).run
      (Session.start 10 .empty).state = some ((), Session.launchingSession.state) := rfl
  obtain ⟨new, hdefined⟩ := Pool.reaches_of_run
    (p := .alone (Session.start 10 .empty).state (.pure ())) hdefine
  -- the first session has only defined the macro, and the second one has run a program as well
  have hp := (Pool.History.new 10 .empty).defined hdefined
  let p : Pool Unit := ⟨Session.launchingSession.state, ⟨.pure (), 0⟩, [] ++ new⟩
  have hsize : ((runProgramOn Code 5 launchingProgram 0).run Session.launchingSession.state).map
      (fun r => r.2.tasks.size) = some (Session.launchingSession.state.tasks.size + 1) := by
    decide +kernel
  have hexpand : (expand.run Session.launchingSession.state).map Prod.fst =
      some (.ok [.expr (.binary .add (.ident "y") (.int 1))]) := by decide +kernel
  obtain ⟨⟨v, t⟩, hrun, hsize⟩ := Option.map_eq_some_iff.1 hsize
  obtain ⟨⟨reply, t'⟩, hends, hreply⟩ := Option.map_eq_some_iff.1 hexpand
  cases hreply
  -- what is done on the spot is one of the things that the threads can do
  obtain ⟨_, hevaluated⟩ := Pool.reaches_of_run (p := p) hrun
  obtain ⟨_, ms, hruns⟩ := Pool.reaches_of_run (p := p) hends
  have hq := hp.works (.evaluated hevaluated)
  have hlimit : p.state.maxCallDepth = t.maxCallDepth := (hp.keepsMacros
    (.evaluated hevaluated)).maxCallDepth_eq.symm
  obtain ⟨⟨ns, q', hruns', hturns⟩, hagree⟩ := expansions_agree_of_histories hp hq hlimit 9 _ hruns
  exact ⟨p, _, v, hp, hevaluated, hsize, ms, _, ns, q', hruns, rfl, hruns', hturns,
    (hagree ns q' hruns' hturns _).1 rfl⟩

end Monkey
