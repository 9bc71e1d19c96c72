import Monkey.Expr.Equality
import Monkey.Proofs.Actions
import Monkey.Proofs.Footing
import Monkey.Proofs.MacroFree
import Monkey.Proofs.Reaching
import Monkey.Proofs.Settling
import Monkey.Proofs.Shielding

/-!
# Sources read piece by piece

A session that knows no macros reads two sources, one after the other, as it reads the two joined
together, provided that the first one ends with a semicolon.  The tokens and the statements of the
two do not mix, expansion leaves the statements as they are, and the statements of a program run one
after another.  Where a statement of the first source yields an error or returns, the joined source
ends there, and nothing of the second one is run.

The tasks that were started go on all the time: while a statement is run, between two statements,
and between two sources.  So a session can come to several ends when it reads a source, and what is
shown is that they are the same.

## Main definitions

* `State.FreeOfMacros` — states in which the scope of macros binds none.
* `sparing` — the discipline of threads that bind nothing in the scope of macros.
* `Pool.Ready` — sessions, with their tasks, that know no macros.
* `Pool.Passes`, `Pool.Stops` — what comes of statements that are run one after another.

## Main results

* `Code.expandMacros_silent` — without macros nobody sees that macros are expanded.
* `Pool.reaches_evalBody_append_iff` — **statements run one after another, up to the first abrupt
  one.**
* `reading_append` — **feeding a session in pieces is the same as feeding it whole.**
-/

namespace Monkey

open Machine

/-! ### States without macros -/

/-- The scope of macros lies inside no other one, and binds no macro. -/
structure State.FreeOfMacros (macros : Nat) (s : State) : Prop where
  lt : macros < s.scopes.size
  outer?_eq : s.scopes.outer? macros = none
  type_ne : ∀ {name : String} {v : Value}, (name, v) ∈ s.scopes.bindings macros →
    v.type ≠ .macroFn

/-- Names may be bound in all scopes but that of macros.  Everything stands for itself. -/
def besideMacros (macros : Nat) : Footing Unit where
  matching _ := .identity
  Owns _ a b := a = b ∧ a ≠ macros
  Looks _ := True
  matching_mono _ := le_refl _
  owns_mono _ := id
  scopes_of_owns := And.left
  looks _ := trivial

/-- Binding nothing in the scope of macros keeps it free of macros. -/
def sparing (macros : Nat) : Discipline Unit where
  toRules := (besideMacros macros).rules
  Holds _ := State.FreeOfMacros macros
  holds_callDepth hs _ := ⟨hs.lt, hs.outer?_eq, hs.type_ne⟩
  step {_ w a s t b} hs hmay hrun := by
    have hgrown := Action.grown hrun
    have hspared : a.written? ≠ some macros := by
      cases (hmay : a.Alike (besideMacros macros) w a) with
      | setName name howns _ => exact fun heq => howns.2 (Option.some.inj heq)
      | _ => exact nofun
    refine ⟨(), le_refl _, ?_, Action.gives_self rfl ⟨rfl, Nat.ne_of_gt hs.lt⟩ hrun⟩
    refine ⟨Nat.lt_of_lt_of_le hs.lt hgrown.size_le,
      (hgrown.outer?_eq hs.lt).trans hs.outer?_eq, fun {_ _} hmem => ?_⟩
    rw [Scopes.bindings, hgrown.get?_eq hs.lt hspared] at hmem
    exact hs.type_ne hmem

/-- A session that knows no macros, while it reads nothing.  Its macros are bound in a scope of
their own, and the tasks that were started bind nothing there. -/
structure Pool.Ready (globals macros : Nat) (p : Pool Unit) : Prop where
  globals_ne : globals ≠ macros
  free : p.state.FreeOfMacros macros
  tasks : ∀ th ∈ p.tasks, th.code.Abide (besideMacros macros).rules () anyResults th.code

section

variable {globals macros : Nat} {p q : Pool Unit}

theorem Pool.Ready.abides {α : Type} {code : Code α} {Q : Unit → α → α → Prop}
    (hp : p.Ready globals macros) (hcode : code.Abide (besideMacros macros).rules () Q code) :
    (p.begin code).Abides (sparing macros) () Q :=
  ⟨hp.free, hcode, hp.tasks⟩

/-- **A session that knows no macros knows none later**, whatever its first thread does, if it binds
nothing in the scope of macros. -/
theorem Pool.Ready.reaches {α : Type} {code : Code α} {a : α} (hp : p.Ready globals macros)
    (hcode : code.Abide (besideMacros macros).rules () anyResults code) (h : p.Reaches code a q) :
    q.Ready globals macros := by
  obtain ⟨ms, hruns⟩ := h
  obtain ⟨_, -, hq⟩ := hruns.abides lasting_anyResults (hp.abides hcode)
  exact ⟨hp.globals_ne, hq.holds, hq.tasks⟩

theorem Pool.Ready.keeps (hp : p.Ready globals macros) : p.Keeps (State.FreeOfMacros macros) where
  holds h := (hp.reaches (.pure trivial) h).free
  callDepth hs _ := ⟨hs.lt, hs.outer?_eq, hs.type_ne⟩

end

/-! ### Expansion without macros -/

/-- A walk that leaves every expression as it is. -/
theorem Expr.walkM_pure (e : Expr) : (e.walkM pure : Id Expr) = pure e := by
  have hparts : e.parts.mapM (Expr.walkM pure) = (pure e.parts : Id (List Expr)) :=
    mapM_eq_pure fun p hp => p.walkM_pure
  rw [Expr.walkM_eq, hparts, pure_bind, Expr.withParts_parts]
termination_by sizeOf e
decreasing_by exact Expr.sizeOf_lt_of_mem_parts hp

/-- What is found in the scope of macros is no macro, and there is nothing further out. -/
theorem State.FreeOfMacros.look {macros : Nat} {s : State} (hs : s.FreeOfMacros macros)
    (name : String) : s.scopes.look macros name = .inr none ∨
      ∃ v, s.scopes.look macros name = .inl v ∧ v.type ≠ .macroFn := by
  unfold Scopes.look
  split
  · next v hfind => exact .inr ⟨v, rfl, hs.type_ne (Bindings.mem_of_find? hfind)⟩
  · exact .inl (congrArg Sum.inr hs.outer?_eq)

namespace Code

variable {macros : Nat} {eval : Expr → Nat → Code Value}

/-- Nobody sees that an expression is visited. -/
theorem expandVisit_silent (e : Expr) : (failure : Option ExpansionError) →
    Silent (State.FreeOfMacros macros) (e, failure) ((expandVisit eval macros e).run failure)
  | some err => by
    rw [run_expandVisit_some]
    exact .pure _
  | none => by
    rw [run_expandVisit_none]
    split
    · exact .pure _
    · next name args _ =>
      refine .act (fun s => s.scopes.look macros name) (fun _ _ => rfl) fun s hs => ?_
      -- no name is bound to a macro, so that nothing comes of looking it up
      rcases hs.look name with hlook | ⟨v, hlook, htype⟩
      · rw [hlook]
        exact .pure _
      · rw [hlook]
        cases v with
        | macroFn addr mac => exact absurd rfl htype
        | _ => exact .pure _

/-- Rewriting that nobody sees, compared with what it gives. -/
def unseen (macros : Nat) : EffectRelation (StateT (Option ExpansionError) Code) Id where
  Related x a := ∀ failure,
    Silent (State.FreeOfMacros macros) (a.run, failure) (x.run failure)
  pure _ _ := .pure _
  bind hx hk failure := by
    rw [StateT.run_bind]
    exact (hx failure).bind (hk _ failure)

/-- **Nobody sees that macros are expanded where there are none**, and the program stays as it
is. -/
theorem expandMacros_silent (p : Program) :
    Silent (State.FreeOfMacros macros) (.ok p) (expandMacros eval macros p) := by
  have hvisit (e : Expr) : (unseen macros).Related (expandVisit eval macros e) (Pure.pure e) :=
    expandVisit_silent e
  have hrewrite := rewriteStmtsM_related (unseen macros) hvisit p none
  have hsame : rewriteStmtsM (m := Id) Pure.pure p = p := by
    change (Block.rewriteM Pure.pure p : Id Program) = p
    rw [Block.rewriteM_eq_walkM, Block.walkM, mapM_eq_pure fun e _ => e.walkM_pure, pure_bind,
      Block.withValues_values]
    rfl
  rw [hsame] at hrewrite
  exact hrewrite.bind (.pure _)

end Code

/-! ### One statement after another -/

namespace Pool

/-- Statements are run one after another, and none of them yields an abrupt value; the value is that
of the last one. -/
inductive Passes (eval : Expr → Nat → Code Value) (scope : Nat) :
    List Stmt → Pool Unit → Value → Pool Unit → Prop
  | last {st : Stmt} {p q : Pool Unit} {v : Value} : p.Reaches (evalStmt eval st scope) v q →
    v.isAbrupt = false → Passes eval scope [st] p v q
  | next {st : Stmt} {rest : List Stmt} {p q r : Pool Unit} {u v : Value} :
    p.Reaches (evalStmt eval st scope) u q → u.isAbrupt = false → Passes eval scope rest q v r →
    Passes eval scope (st :: rest) p v r

/-- Statements are run one after another up to one of them that yields an abrupt value. -/
inductive Stops (eval : Expr → Nat → Code Value) (scope : Nat) :
    List Stmt → Pool Unit → Value → Pool Unit → Prop
  | here {st : Stmt} {rest : List Stmt} {p q : Pool Unit} {v : Value} :
    p.Reaches (evalStmt eval st scope) v q → v.isAbrupt = true →
    Stops eval scope (st :: rest) p v q
  | later {st : Stmt} {rest : List Stmt} {p q r : Pool Unit} {u v : Value} :
    p.Reaches (evalStmt eval st scope) u q → u.isAbrupt = false → Stops eval scope rest q v r →
    Stops eval scope (st :: rest) p v r

variable {eval : Expr → Nat → Code Value} {scope : Nat} {p q r : Pool Unit} {u v last : Value}

/-- The ends of something that goes on unless its value is abrupt. -/
theorem reaches_andThen_iff {x : Code Value} {k : Value → Code Value} :
    p.Reaches (andThen x k) v r ↔ ∃ u q, p.Reaches x u q ∧
      (u.isAbrupt = true ∧ q.Reaches (.pure u) v r ∨ u.isAbrupt = false ∧ q.Reaches (k u) v r) := by
  unfold andThen
  rw [reaches_bind_iff]
  refine exists_congr fun u => exists_congr fun q => and_congr_right fun _ => ?_
  cases u.isAbrupt with
  | true => simp
  | false => simp

/-- Tasks may go on after the last statement. -/
theorem Passes.later {ss : List Stmt} (h : Passes eval scope ss p v q)
    (hdrift : q.Reaches (.pure ()) () r) : Passes eval scope ss p v r := by
  induction h with
  | last hfirst hpasses => exact .last (hfirst.later hdrift) hpasses
  | next hfirst hpasses _ ih => exact .next hfirst hpasses (ih hdrift)

theorem Passes.isAbrupt_eq {ss : List Stmt} (h : Passes eval scope ss p v r) :
    v.isAbrupt = false := by
  induction h with
  | last _ hpasses => exact hpasses
  | next _ _ _ ih => exact ih

theorem Stops.isAbrupt_eq {ss : List Stmt} (h : Stops eval scope ss p v r) :
    v.isAbrupt = true := by
  induction h with
  | here _ habrupt => exact habrupt
  | later _ _ _ ih => exact ih

/-- **Statements are run one after another up to the first one that yields an abrupt value**, and
further statements are run if there is none. -/
theorem reaches_evalBodyFrom_append_iff {st : Stmt} {rest more : List Stmt} :
    p.Reaches (evalBodyFrom eval scope last (st :: (rest ++ more))) v r ↔
      (∃ u q, Passes eval scope (st :: rest) p u q ∧
        q.Reaches (evalBodyFrom eval scope u more) v r) ∨
      Stops eval scope (st :: rest) p v r := by
  induction rest generalizing st p last with
  -- one statement before the others: it yields an abrupt value, or they follow
  | nil =>
    rw [evalBodyFrom, reaches_andThen_iff]
    constructor
    · rintro ⟨u, q, hfirst, ⟨habrupt, hrest⟩ | ⟨hpasses, hrest⟩⟩
      · obtain ⟨rfl, hdrift⟩ := reaches_pure_iff.1 hrest
        exact .inr (.here (hfirst.later hdrift) habrupt)
      · exact .inl ⟨u, q, .last hfirst hpasses, hrest⟩
    · rintro (⟨u, q, h, hrest⟩ | h)
      · cases h with
        | last hfirst hpasses => exact ⟨u, q, hfirst, .inr ⟨hpasses, hrest⟩⟩
        | next _ _ hnone => cases hnone
      · cases h with
        | here hfirst habrupt => exact ⟨v, r, hfirst, .inl ⟨habrupt, .refl r v⟩⟩
        | later _ _ hnone => cases hnone
  | cons st' rest ih =>
    rw [evalBodyFrom, reaches_andThen_iff]
    constructor
    · rintro ⟨u, q, hfirst, ⟨habrupt, hrest⟩ | ⟨hpasses, hrest⟩⟩
      · obtain ⟨rfl, hdrift⟩ := reaches_pure_iff.1 hrest
        exact .inr (.here (hfirst.later hdrift) habrupt)
      -- the first statement passes, and the rest of them pass or stop
      · rcases ih.1 hrest with ⟨w, q', hothers, hmore⟩ | hstops
        · exact .inl ⟨w, q', .next hfirst hpasses hothers, hmore⟩
        · exact .inr (.later hfirst hpasses hstops)
    · rintro (⟨w, q', h, hmore⟩ | h)
      · cases h with
        | next hfirst hpasses hothers =>
          exact ⟨_, _, hfirst, .inr ⟨hpasses, ih.2 (.inl ⟨w, q', hothers, hmore⟩)⟩⟩
      · cases h with
        | here hfirst habrupt => exact ⟨v, r, hfirst, .inl ⟨habrupt, .refl r v⟩⟩
        | later hfirst hpasses hstops =>
          exact ⟨_, _, hfirst, .inr ⟨hpasses, ih.2 (.inr hstops)⟩⟩

/-- Statements that are run one after another either all pass, or stop at one of them. -/
theorem reaches_evalBody_iff {ss : List Stmt} (hss : ss ≠ []) :
    p.Reaches (evalBody eval ss scope) v r ↔
      Passes eval scope ss p v r ∨ Stops eval scope ss p v r := by
  obtain ⟨st, rest, rfl⟩ := List.exists_cons_of_ne_nil hss
  have hall : p.Reaches (evalBodyFrom eval scope .null (st :: (rest ++ []))) v r ↔ _ :=
    reaches_evalBodyFrom_append_iff
  rw [List.append_nil] at hall
  refine hall.trans (or_congr_left ⟨?_, fun h => ⟨v, r, h, .refl r v⟩⟩)
  rintro ⟨u, q, hpasses, hrest⟩
  obtain ⟨rfl, hdrift⟩ := reaches_pure_iff.1 hrest
  exact hpasses.later hdrift

/-- The statements of two programs, one after the other. -/
theorem reaches_evalBody_append_iff {ss ts : List Stmt} (hss : ss ≠ []) (hts : ts ≠ []) :
    p.Reaches (evalBody eval (ss ++ ts) scope) v r ↔
      (∃ u q, Passes eval scope ss p u q ∧ q.Reaches (evalBody eval ts scope) v r) ∨
      Stops eval scope ss p v r := by
  obtain ⟨st, rest, rfl⟩ := List.exists_cons_of_ne_nil hss
  obtain ⟨st', rest', rfl⟩ := List.exists_cons_of_ne_nil hts
  exact reaches_evalBodyFrom_append_iff

end Pool

/-! ### Reading sources -/

section

variable {globals macros budget : Nat} {p q : Pool Unit} {source a b : String} {program : Program}
  {reply : Except SessionError (Option Value)} {v : Value}

/-- **Where there are no macros, a source is read by running its statements.** -/
theorem Pool.Ready.reaches_evalSourceOn_iff (hp : p.Ready globals macros)
    (hparse : parse source = ⟨program, []⟩) (hdefs : macroDefinitions program = [])
    (hne : program ≠ []) :
    p.Reaches (evalSourceOn Code budget globals macros source) reply q ↔
      ∃ v, p.Reaches (evalBody (evaluateOn Code budget) program globals) v q ∧
        reply = .ok (some v.unwrapReturn) := by
  let replyOf (v : Value) : Except SessionError (Option Value) := .ok (some v.unwrapReturn)
  -- defining no macros does nothing, and expanding without macros is silent
  have hdefine : (defineMacros macros program : Code Program) = pure program := by
    rw [defineMacros, hdefs, withoutMacroDefinitions_of_eq_nil hdefs]
    rfl
  obtain ⟨st, rest, rfl⟩ := List.exists_cons_of_ne_nil hne
  unfold evalSourceOn
  rw [hparse]
  change p.Reaches (defineMacros macros (st :: rest) >>= _) reply q ↔ _
  rw [hdefine, pure_bind, (Code.expandMacros_silent (st :: rest)).reaches_bind_iff hp.keeps]
  dsimp only
  rw [runProgramOn, evalProgram, bind_assoc]
  have hreply (v : Value) : Code.Silent (fun _ => True) (replyOf v)
      (leave v >>= fun w => pure (.ok (some w))) :=
    .noted (.resulted v.unwrapReturn) (.pure (replyOf v))
  exact Code.Silent.reaches_after_iff hreply

theorem Pool.ready_start (maxCallDepth : Nat) (output : Output) :
    (Pool.alone (Session.start maxCallDepth output).state (pure ())).Ready 0 1 where
  globals_ne := Nat.zero_ne_one
  free := ⟨Nat.lt_succ_self 1, rfl, nofun⟩
  tasks := nofun

/-- Reading a source that defines no macros binds nothing in the scope of macros. -/
theorem evalSourceOn_abides (hne : globals ≠ macros)
    (hdefs : macroDefinitions (parse source).program = []) :
    (evalSourceOn Code budget globals macros source).Abide (besideMacros macros).rules () anyResults
      (evalSourceOn Code budget globals macros source) := by
  unfold evalSourceOn Parsed.toExcept
  split
  · exact .pure trivial
  · next program hprogram =>
    have hsame : program = (parse source).program := by
      split at hprogram
      · exact (Except.ok.inj hprogram).symm
      · cases hprogram
    subst hsame
    rw [defineMacros, hdefs, bindMacros, pure_bind, pure_bind]
    refine .bind (Footing.expandMacros _ _ (fun _ => trivial) _ rfl)
      fun _ expanded _ _ hexpanded => ?_
    cases hexpanded
    split
    · exact .pure trivial
    · exact .pure trivial
    · exact .bind (Footing.runProgramOn _ _ _ ⟨rfl, hne⟩) fun _ _ _ _ _ => .pure trivial

/-- **A session that knows no macros knows none after a source that defines none.** -/
theorem Pool.Ready.evalSourceOn (hp : p.Ready globals macros)
    (hdefs : macroDefinitions (parse source).program = [])
    (h : p.Reaches (evalSourceOn Code budget globals macros source) reply q) :
    q.Ready globals macros :=
  hp.reaches (evalSourceOn_abides hp.globals_ne hdefs) h

end

/-- A source that is read without errors and ends with a semicolon has a statement. -/
theorem program_ne_nil_of_endsWithSemicolon {source : String} (hclean : (parse source).errors = [])
    (h : EndsWithSemicolon source) : (parse source).program ≠ [] := by
  obtain ⟨ts, hkinds, hts⟩ := h.exists_kinds
  obtain ⟨us, more, hclosed, hderives⟩ := exists_derives_of_errors_eq_nil hclean
  rw [closeTokens_of_kinds hkinds, hkinds] at hclosed
  obtain ⟨rfl, -, -⟩ := (List.append_cons_inj_of_notMem hts List.not_mem_nil).1 hclosed
  intro hnil
  have hnil' : (parseTokens (lex source)).program = [] := hnil
  rw [hnil'] at hderives
  generalize hus : ts ++ [TokenKind.symbol .semicolon] = us at hderives
  cases hderives
  simp at hus

/-- **Feeding a session in pieces is the same as feeding it whole.**  Let a session know no macros,
and let two sources be read without errors and define no macros; let the first one end with a
semicolon and the second one have a statement.  Whoever takes turns how, the two joined together are
read in one of two ways.  Either no statement of the first one yields an error or returns, and then
the session goes on from where it is after that, as if it read the second one.  Or a statement does,
and that is the end.

Reading the first source alone comes to the very same ends, in the one case and in the other; and
the session that it leaves knows no macros again. -/
theorem reading_append {globals macros : Nat} {p : Pool Unit} (hp : p.Ready globals macros)
    {a b : String} (ha : (parse a).errors = []) (hb : (parse b).errors = [])
    (hdefsa : macroDefinitions (parse a).program = [])
    (hdefsb : macroDefinitions (parse b).program = []) (hsemicolon : EndsWithSemicolon a)
    (hne : (parse b).program ≠ []) (budget : Nat) :
    let read := evalSourceOn Code budget globals macros
    let passes := Pool.Passes (evaluateOn Code budget) globals (parse a).program p
    let stops := Pool.Stops (evaluateOn Code budget) globals (parse a).program p
    (∀ reply q, p.Reaches (read (a ++ b)) reply q ↔
      (∃ v r, passes v r ∧ r.Reaches (read b) reply q) ∨
        ∃ v, stops v q ∧ reply = .ok (some v.unwrapReturn)) ∧
    (∀ reply q, p.Reaches (read a) reply q ↔
      (∃ v, passes v q ∧ reply = .ok (some v)) ∨
        ∃ v, stops v q ∧ reply = .ok (some v.unwrapReturn)) ∧
    ∀ reply q, p.Reaches (read a) reply q → q.Ready globals macros := by
  have hparsea : parse a = ⟨(parse a).program, []⟩ := by rw [← ha]
  have hparseb : parse b = ⟨(parse b).program, []⟩ := by rw [← hb]
  have hparse := parse_append_of_clean ha hb hsemicolon
  have hnea := program_ne_nil_of_endsWithSemicolon ha hsemicolon
  have hdefs : macroDefinitions ((parse a).program ++ (parse b).program) = [] := by
    rw [macroDefinitions, List.filterMap_append]
    exact List.append_eq_nil_iff.2 ⟨hdefsa, hdefsb⟩
  have hnewhole := List.append_ne_nil_of_left_ne_nil hnea (parse b).program
  -- where the first source has passed, the session is ready for the second one
  have hnext {v r} (h : Pool.Passes (evaluateOn Code budget) globals (parse a).program p v r)
      (reply q) : r.Reaches (evalSourceOn Code budget globals macros b) reply q ↔ _ :=
    have hreading := (hp.reaches_evalSourceOn_iff hparsea hdefsa hnea).2
      ⟨v, (Pool.reaches_evalBody_iff hnea).2 (.inl h), rfl⟩
    (hp.evalSourceOn hdefsa hreading).reaches_evalSourceOn_iff hparseb hdefsb hne
  intro read passes stops
  refine ⟨fun reply q => ?_, fun reply q => ?_, fun reply q h => hp.evalSourceOn hdefsa h⟩
  -- reading a source is running its statements; those of both are cut where the first source ends
  · rw [hp.reaches_evalSourceOn_iff hparse hdefs hnewhole]
    constructor
    · rintro ⟨v, hbody, rfl⟩
      rcases (Pool.reaches_evalBody_append_iff hnea hne).1 hbody with
        ⟨u, r, hpasses, hrest⟩ | hstops
      · exact .inl ⟨u, r, hpasses, (hnext hpasses _ _).2 ⟨v, hrest, rfl⟩⟩
      · exact .inr ⟨v, hstops, rfl⟩
    · rintro (⟨u, r, hpasses, hrest⟩ | ⟨v, hstops, rfl⟩)
      · obtain ⟨v, hbody, rfl⟩ := (hnext hpasses _ _).1 hrest
        exact ⟨v, (Pool.reaches_evalBody_append_iff hnea hne).2 (.inl ⟨u, r, hpasses, hbody⟩), rfl⟩
      · exact ⟨v, (Pool.reaches_evalBody_append_iff hnea hne).2 (.inr hstops), rfl⟩
  · rw [hp.reaches_evalSourceOn_iff hparsea hdefsa hnea]
    constructor
    · rintro ⟨v, hbody, rfl⟩
      refine ((Pool.reaches_evalBody_iff hnea).1 hbody).imp (fun hpasses => ?_) fun hstops =>
        ⟨v, hstops, rfl⟩
      -- a value that is not abrupt is what the source gives
      exact ⟨v, hpasses, by rw [Value.unwrapReturn_of_not_abrupt hpasses.isAbrupt_eq]⟩
    · rintro (⟨v, hpasses, rfl⟩ | ⟨v, hstops, rfl⟩)
      · refine ⟨v, (Pool.reaches_evalBody_iff hnea).2 (.inl hpasses), ?_⟩
        rw [Value.unwrapReturn_of_not_abrupt hpasses.isAbrupt_eq]
      · exact ⟨v, (Pool.reaches_evalBody_iff hnea).2 (.inr hstops), rfl⟩

/-- A source that starts a task, and one that awaits it; and a source that returns before it has
printed everything, with one that prints after it. -/
theorem reading_append_start :
    let p := Pool.alone (Session.start 10 .empty).state (pure ())
    let read := evalSourceOn Code 9 0 1
    let starting := "let h = launch(fn() \x7b puts(1); 2 \x7d);"
    let returning := "puts(3); return 4; puts(5);"
    (∃ v q r reply, p.Reaches (read starting) (.ok (some v)) q ∧
      q.Reaches (read "await(h)") reply r ∧ p.Reaches (read (starting ++ "await(h)")) reply r ∧
      reply.toOption.map (Option.map Value.inspect) = some (some "2") ∧
      r.state.output.text = "1\n") ∧
    ∃ v r, p.Reaches (read returning) (.ok (some v)) r ∧
      p.Reaches (read (returning ++ "puts(6)")) (.ok (some v)) r ∧
      v.inspect = "4" ∧ r.state.output.text = "3\n" := by
  intro p read starting returning
  constructor
  · obtain ⟨hwhole, hfirst, -⟩ := reading_append (Pool.ready_start 10 .empty) (a := starting)
      (b := "await(h)") (by decide +kernel) (by decide +kernel) (by decide +kernel)
      (by decide +kernel) (by decide +kernel) (by decide +kernel) 9
    -- on the spot, the task has ended before it is awaited
    have hends : ((evalBody (evaluateOn Code 9) (parse starting).program 0).run p.state).bind
        (fun u => ((read "await(h)").run u.2).map fun w => (u.1.isAbrupt,
          w.1.toOption.map (Option.map Value.inspect), w.2.output.text)) =
        some (false, some (some "2"), "1\n") := by decide +kernel
    obtain ⟨⟨u, t⟩, hu, hrest⟩ := Option.bind_eq_some_iff.1 hends
    obtain ⟨⟨reply, t'⟩, hreply, hshown⟩ := Option.map_eq_some_iff.1 hrest
    obtain ⟨habrupt, hothers⟩ := Prod.mk.inj hshown
    obtain ⟨hvalue, houtput⟩ := Prod.mk.inj hothers
    obtain ⟨new, hstarts⟩ := Pool.reaches_of_run (p := p) hu
    let started : Pool Unit :=
      ⟨{ t with callDepth := p.state.callDepth }, ⟨.pure (), t.callDepth⟩, p.tasks ++ new⟩
    obtain ⟨new', hawaits⟩ := Pool.reaches_of_run (p := started) hreply
    have hpasses := ((Pool.reaches_evalBody_iff (by decide +kernel)).1 hstarts).resolve_right
      fun h => Bool.false_ne_true (habrupt.symm.trans h.isAbrupt_eq)
    exact ⟨u, _, _, reply, (hfirst _ _).2 (.inl ⟨u, hpasses, rfl⟩), hawaits,
      (hwhole _ _).2 (.inl ⟨u, _, hpasses, hawaits⟩), hvalue, houtput⟩
  · obtain ⟨hwhole, hfirst, -⟩ := reading_append (Pool.ready_start 10 .empty) (a := returning)
      (b := "puts(6)") (by decide +kernel) (by decide +kernel) (by decide +kernel)
      (by decide +kernel) (by decide +kernel) (by decide +kernel) 9
    have hends : ((evalBody (evaluateOn Code 9) (parse returning).program 0).run p.state).map
        (fun u => (u.1.isAbrupt, u.1.unwrapReturn.inspect, u.2.output.text)) =
        some (true, "4", "3\n") := by decide +kernel
    obtain ⟨⟨u, t⟩, hu, hshown⟩ := Option.map_eq_some_iff.1 hends
    obtain ⟨habrupt, hothers⟩ := Prod.mk.inj hshown
    obtain ⟨hvalue, houtput⟩ := Prod.mk.inj hothers
    obtain ⟨new, hreturns⟩ := Pool.reaches_of_run (p := p) hu
    have hstops := ((Pool.reaches_evalBody_iff (by decide +kernel)).1 hreturns).resolve_left
      fun h => Bool.false_ne_true (h.isAbrupt_eq.symm.trans habrupt)
    exact ⟨u.unwrapReturn, _, (hfirst _ _).2 (.inr ⟨u, hstops, rfl⟩),
      (hwhole _ _).2 (.inr ⟨u, hstops, rfl⟩), hvalue, houtput⟩

end Monkey
