import Mathlib.Data.List.Forall2
import Monkey.Expr.Equality
import Monkey.Proofs.Traversal

/-!
# Rewriting in postorder

The expressions of a tree can be put in one list, in which the parts of an expression stand before
it, from left to right.  Rewriting goes through that list once.  All that it remembers on the way is
a stack with the answers that belong to no rebuilt expression yet: the answers for the parts of the
next expression lie on top of it.

## Main definitions

* `Expr.postorder`, `Block.postorder` — that list.
* `visitNext` — a step through the list.
* `Stmt.Alike`, `Expr.Alike` — the same statement or expression, up to what lies in it.
* `Visit`, `recorded` — visits, and visiting with a record of it.
* `Expr.Visited`, `AllVisited` — the visits that a tree is to get.

## Main results

* `foldlM_postorder` — going through the list rewrites the tree.
* `rewriting_visits_in_postorder` — **rewriting visits every expression once, after its parts.**
-/

namespace Monkey

/-! ### The loop over all expressions -/

/-- The expression and everything in it: the parts from left to right, each with what lies in it,
and then the expression. -/
def Expr.postorder (e : Expr) : List Expr :=
  (e.parts.attach.flatMap fun p => p.1.postorder) ++ [e]
termination_by sizeOf e
decreasing_by exact Expr.sizeOf_lt_of_mem_parts p.2

/-- The expressions of statements, each with what lies in it. -/
def Block.postorder (body : Block) : List Expr := (body.map Stmt.value).flatMap Expr.postorder

theorem Expr.postorder_eq (e : Expr) : e.postorder = e.parts.flatMap Expr.postorder ++ [e] := by
  rw [Expr.postorder, List.flatMap_subtype (g := Expr.postorder) fun _ _ => rfl,
    List.unattach_attach]

section

variable {m : Type → Type} [Monad m] (visit : Expr → m Expr)

/-- Visits an expression.  The answers for its parts, the last one on top, are taken from the stack
and put in their places; the answer of the visit is put on the stack. -/
def visitNext (answers : List Expr) (node : Expr) : m (List Expr) := do
  let answer ← visit (node.withParts (answers.take node.parts.length).reverse)
  return answer :: answers.drop node.parts.length

variable [LawfulMonad m]

/-- The expressions of several trees leave an answer for each tree on the stack. -/
theorem foldlM_flatMap_postorder {es : List Expr}
    (h : ∀ e ∈ es, ∀ answers, e.postorder.foldlM (visitNext visit) answers =
      e.walkM visit >>= fun answer => pure (answer :: answers)) (answers : List Expr) :
    (es.flatMap Expr.postorder).foldlM (visitNext visit) answers =
      es.mapM (Expr.walkM visit) >>= fun more => pure (more.reverse ++ answers) := by
  induction es generalizing answers with
  | nil => simp only [List.flatMap_nil, List.foldlM_nil, List.mapM_nil, pure_bind,
      List.reverse_nil, List.nil_append]
  | cons e es ih =>
    obtain ⟨he, hes⟩ := List.forall_mem_cons.1 h
    simp only [List.flatMap_cons, List.foldlM_append, he, ih hes, List.mapM_cons, bind_assoc,
      pure_bind, List.reverse_cons, List.append_assoc, List.cons_append, List.nil_append]

/-- **Going through the expressions of a tree rewrites the tree**, whatever lies on the stack. -/
theorem foldlM_postorder (e : Expr) (answers : List Expr) :
    e.postorder.foldlM (visitNext visit) answers =
      e.walkM visit >>= fun answer => pure (answer :: answers) := by
  rw [Expr.postorder_eq, List.foldlM_append,
    foldlM_flatMap_postorder visit (fun p _ => foldlM_postorder p) answers, bind_assoc,
    Expr.walkM_eq, bind_assoc]
  -- on top of the stack there is an answer for each part
  refine mapM_bind_congr _ _ fun ps hps => ?_
  have htop : (ps.reverse ++ answers).take e.parts.length = ps.reverse :=
    List.take_left' (ps.length_reverse.trans hps)
  have hrest : (ps.reverse ++ answers).drop e.parts.length = answers :=
    List.drop_left' (ps.length_reverse.trans hps)
  rw [pure_bind, List.foldlM_cons, visitNext, htop, hrest, List.reverse_reverse, bind_assoc]
  refine bind_congr fun answer => ?_
  rw [pure_bind, List.foldlM_nil]
termination_by sizeOf e
decreasing_by exact Expr.sizeOf_lt_of_mem_parts ‹_›

/-- Rewriting statements is going through their expressions. -/
theorem Block.rewriteM_eq_foldlM (body : Block) :
    body.rewriteM visit = (Block.postorder body).foldlM (visitNext visit) [] >>= fun answers =>
      pure (Block.withValues body answers.reverse) := by
  rw [Block.rewriteM_eq_walkM, Block.walkM, Block.postorder,
    foldlM_flatMap_postorder visit fun e _ => foldlM_postorder visit e]
  simp only [bind_assoc, pure_bind, List.append_nil, List.reverse_reverse]

end

/-! ### What stays the same -/

/-- The same kind of statement; a `let` statement binds the same name. -/
inductive Stmt.Alike : Stmt → Stmt → Prop
  | letBe {name : String} {a b : Expr} : Alike (.letBe name a) (.letBe name b)
  | ret {a b : Expr} : Alike (.ret a) (.ret b)
  | expr {a b : Expr} : Alike (.expr a) (.expr b)

/-- The same expression, up to the expressions in it: it is of the same form with the same names and
operators, has as many parts in each place, and an `else` branch if the other one has. -/
inductive Expr.Alike : Expr → Expr → Prop
  | ident {name : String} : Alike (.ident name) (.ident name)
  | int {value : Int64} : Alike (.int value) (.int value)
  | bool {value : Bool} : Alike (.bool value) (.bool value)
  | str {text : String} : Alike (.str text) (.str text)
  | unary {op : PrefixOp} {a b : Expr} : Alike (.unary op a) (.unary op b)
  | binary {op : InfixOp} {a b c d : Expr} : Alike (.binary op a c) (.binary op b d)
  | cond {a b : Expr} {t u : Block} :
    List.Forall₂ Stmt.Alike t u → Alike (.cond a t none) (.cond b u none)
  | condElse {a b : Expr} {t u v w : Block} :
    List.Forall₂ Stmt.Alike t u → List.Forall₂ Stmt.Alike v w →
    Alike (.cond a t (some v)) (.cond b u (some w))
  | fn {params : List String} {t u : Block} :
    List.Forall₂ Stmt.Alike t u → Alike (.fn params t) (.fn params u)
  | macroFn {params : List String} {t u : Block} :
    List.Forall₂ Stmt.Alike t u → Alike (.macroFn params t) (.macroFn params u)
  | call {a b : Expr} {as bs : List Expr} :
    as.length = bs.length → Alike (.call a as) (.call b bs)
  | array {as bs : List Expr} : as.length = bs.length → Alike (.array as) (.array bs)
  | index {a b i j : Expr} : Alike (.index a i) (.index b j)
  | hash {ps qs : List (Expr × Expr)} : ps.length = qs.length → Alike (.hash ps) (.hash qs)

theorem Stmt.withValue_alike (s : Stmt) (e : Expr) : (s.withValue e).Alike s := by
  cases s <;> constructor

theorem Block.withValues_alike {body : Block} {values : List Expr}
    (h : body.length ≤ values.length) :
    List.Forall₂ Stmt.Alike (Block.withValues body values) body := by
  induction body generalizing values with
  | nil => exact .nil
  | cons s rest ih =>
    cases values with
    | nil => cases h
    | cons e values => exact .cons (s.withValue_alike e) (ih (Nat.le_of_succ_le_succ h))

theorem length_pairUp {n : Nat} {es : List Expr} (h : es.length = 2 * n) :
    (pairUp es).length = n := by
  have hlength := congrArg List.length (flatMap_pairUp h)
  rw [length_keysAndValues, h] at hlength
  omega

/-- With other parts an expression is the same up to them. -/
theorem Expr.withParts_alike {e : Expr} {es : List Expr} (h : es.length = e.parts.length) :
    (e.withParts es).Alike e := by
  cases e with
  | ident | int | bool | str => constructor
  | unary op right =>
    obtain ⟨_, rfl⟩ := List.length_eq_one_iff.1 h
    exact .unary
  | binary op left right =>
    match es, h with
    | [_, _], _ => exact .binary
  | cond condition consequence alternative =>
    cases es with
    | nil => cases h
    | cons c values =>
      -- the values after the condition belong to the one branch and then to the other
      have hvalues : values.length = consequence.length + (alternative.getD []).length := by
        simpa [parts] using h
      have hfirst : consequence.length ≤ values.length := by omega
      cases alternative with
      | none => exact .cond (Block.withValues_alike hfirst)
      | some body =>
        refine .condElse (Block.withValues_alike hfirst) (Block.withValues_alike ?_)
        rw [List.length_drop, hvalues, Option.getD_some]
        omega
  | fn params body =>
    exact .fn (Block.withValues_alike (Nat.le_of_eq (h.trans (List.length_map _)).symm))
  | macroFn params body =>
    exact .macroFn (Block.withValues_alike (Nat.le_of_eq (h.trans (List.length_map _)).symm))
  | call callee args =>
    cases es with
    | nil => cases h
    | cons f as => exact .call (Nat.succ.inj h)
  | array elements => exact .array h
  | index base position =>
    match es, h with
    | [_, _], _ => exact .index
  | hash pairs => exact .hash (length_pairUp (h.trans (length_keysAndValues pairs)))

/-! ### The record of all visits -/

/-- A visit to an expression. -/
structure Visit where
  /-- The expression, with what its parts have become. -/
  offered : Expr
  /-- What takes its place. -/
  answer : Expr

/-- Visits an expression, and puts the visit down at the end of a record. -/
def recorded {σ : Type} (visit : Expr → StateM σ Expr) (e : Expr) : StateM (σ × List Visit) Expr :=
  fun (s, visits) =>
    let (answer, t) := visit e s
    (answer, t, visits ++ [⟨e, answer⟩])

mutual

/-- The visits that an expression gets, and what takes its place in the end: first the parts are
visited, then the expression itself.  It is offered with the answers for its parts in their places
and is the same otherwise; the answer takes its place. -/
inductive Expr.Visited : Expr → List Visit → Expr → Prop
  | mk {e : Expr} {visits : List Visit} {last : Visit} :
    AllVisited e.parts visits last.offered.parts → last.offered.Alike e →
    Expr.Visited e (visits ++ [last]) last.answer

/-- The visits that expressions get, one after another, and what takes their places. -/
inductive AllVisited : List Expr → List Visit → List Expr → Prop
  | nil : AllVisited [] [] []
  | cons {e answer : Expr} {es answers : List Expr} {visits more : List Visit} :
    Expr.Visited e visits answer → AllVisited es more answers →
    AllVisited (e :: es) (visits ++ more) (answer :: answers)

end

theorem AllVisited.length_eq {es answers : List Expr} {visits : List Visit} :
    AllVisited es visits answers → answers.length = es.length
  | .nil => rfl
  | .cons _ h => congrArg (· + 1) h.length_eq

mutual

/-- There is one visit for every expression in the tree, in postorder. -/
theorem Expr.Visited.forall₂_postorder {e answer : Expr} {visits : List Visit} :
    Expr.Visited e visits answer →
      List.Forall₂ (fun node visit => visit.offered.Alike node) e.postorder visits
  | .mk hparts hlast => by
    rw [Expr.postorder_eq]
    exact List.rel_append hparts.forall₂_postorder (.cons hlast .nil)

theorem AllVisited.forall₂_postorder {es answers : List Expr} {visits : List Visit} :
    AllVisited es visits answers →
      List.Forall₂ (fun node visit => visit.offered.Alike node) (es.flatMap Expr.postorder) visits
  | .nil => .nil
  | .cons he hes => by
    rw [List.flatMap_cons]
    exact List.rel_append he.forall₂_postorder hes.forall₂_postorder

end

/-- A computation with a record does what the one without does, and adds visits to the record that
are as `P` says. -/
def Records {σ α : Type} (P : List Visit → α → Prop) (x : StateM σ α)
    (y : StateM (σ × List Visit) α) : Prop :=
  ∀ s visits, ∃ more, y (s, visits) = ((x s).1, (x s).2, visits ++ more) ∧ P more (x s).1

namespace Records

variable {σ α β : Type} {P : List Visit → α → Prop} {Q : List Visit → β → Prop}

theorem pure {a : α} (h : P [] a) : Records (σ := σ) P (pure a) (pure a) := fun s visits =>
  ⟨[], by rw [List.append_nil]; rfl, h⟩

theorem bind {x : StateM σ α} {y : StateM (σ × List Visit) α} {k : α → StateM σ β}
    {l : α → StateM (σ × List Visit) β} (hx : Records P x y)
    (hk : ∀ a, Records (fun more b => ∀ visits, P visits a → Q (visits ++ more) b) (k a) (l a)) :
    Records Q (x >>= k) (y >>= l) := by
  intro s visits
  obtain ⟨first, hfirst, hP⟩ := hx s visits
  obtain ⟨more, hmore, hQ⟩ := hk (x s).1 (x s).2 (visits ++ first)
  refine ⟨first ++ more, ?_, hQ first hP⟩
  rw [← List.append_assoc]
  change l (y (s, visits)).1 (y (s, visits)).2 = _
  rw [hfirst]
  exact hmore

theorem imp {P' : List Visit → α → Prop} {x : StateM σ α} {y : StateM (σ × List Visit) α}
    (hx : Records P x y) (h : ∀ visits a, P visits a → P' visits a) : Records P' x y := by
  intro s visits
  obtain ⟨more, hmore, hP⟩ := hx s visits
  exact ⟨more, hmore, h more _ hP⟩

end Records

section

variable {σ : Type} (visit : Expr → StateM σ Expr)

theorem recorded_records (e : Expr) :
    Records (fun more answer => more = [⟨e, answer⟩]) (visit e) (recorded visit e) := fun s _ =>
  ⟨[⟨e, (visit e s).1⟩], rfl, rfl⟩

theorem mapM_records {es : List Expr}
    (h : ∀ e ∈ es, Records e.Visited (e.walkM visit) (e.walkM (recorded visit))) :
    Records (AllVisited es) (es.mapM (Expr.walkM visit))
      (es.mapM (Expr.walkM (recorded visit))) := by
  induction es with
  | nil =>
    rw [List.mapM_nil, List.mapM_nil]
    exact .pure .nil
  | cons e es ih =>
    obtain ⟨he, hes⟩ := List.forall_mem_cons.1 h
    rw [List.mapM_cons, List.mapM_cons]
    refine .bind he fun answer => .bind (ih hes) fun answers => .pure ?_
    intro more hall visits hvisited
    rw [List.append_nil]
    exact .cons hvisited hall

/-- **A walk through a tree visits what it is to visit.** -/
theorem walkM_records (e : Expr) :
    Records e.Visited (e.walkM visit) (e.walkM (recorded visit)) := by
  rw [Expr.walkM_eq, Expr.walkM_eq]
  refine .bind (mapM_records visit fun p _ => walkM_records p) fun answers => ?_
  refine (recorded_records visit _).imp ?_
  rintro _ answer rfl visits hall
  have hlength := hall.length_eq
  refine .mk ?_ (Expr.withParts_alike hlength)
  rwa [Expr.parts_withParts hlength]
termination_by sizeOf e
decreasing_by exact Expr.sizeOf_lt_of_mem_parts ‹_›

/-- So does a walk through statements. -/
theorem Block.walkM_records (body : Block) :
    Records (fun visits rewritten =>
        AllVisited (body.map Stmt.value) visits (rewritten.map Stmt.value) ∧
          List.Forall₂ Stmt.Alike rewritten body)
      (body.walkM visit) (body.walkM (recorded visit)) := by
  refine .bind (mapM_records visit fun e _ => Monkey.walkM_records visit e) fun values => .pure ?_
  intro visits hall
  have hlength := hall.length_eq.trans (List.length_map _)
  rw [List.append_nil, Block.values_withValues hlength]
  exact ⟨hall, Block.withValues_alike (Nat.le_of_eq hlength.symm)⟩

end

/-- **Rewriting visits every expression once, after its parts.**  Whatever effects the visits have,
rewriting a program is one loop over the expressions in it, in postorder and from left to right.
Each step makes one visit: it offers the expression with the answers for its parts in their places,
and keeps the answer for the place of the expression.  Nothing else is visited.

With visits that read and change a state, the record of the visits can be looked at.  There is one
for each expression, in that order, and none is offered anything but that expression with the
answers for its parts.  Up to them it is the same: its form, names, parameters and operators, the
statements in it with their order, whether it has an `else` branch, and how many arguments, elements
or pairs it has.  The answers take the places of the expressions in the program, whose statements
stay the same up to what lies in them, in order. -/
theorem rewriting_visits_in_postorder :
    (∀ {m : Type → Type} [Monad m] [LawfulMonad m] (visit : Expr → m Expr) (p : Program),
      Block.rewriteM visit p = do
        let answers ← (Block.postorder p).foldlM (visitNext visit) []
        return Block.withValues p answers.reverse) ∧
    ∀ {σ : Type} (visit : Expr → StateM σ Expr) (p : Program) (s : σ),
      ∃ rewritten t visits, (Block.rewriteM visit p).run s = (rewritten, t) ∧
        (Block.rewriteM (recorded visit) p).run (s, []) = (rewritten, t, visits) ∧
        List.Forall₂ (fun node visit => visit.offered.Alike node) (Block.postorder p) visits ∧
        AllVisited (p.map Stmt.value) visits (rewritten.map Stmt.value) ∧
        List.Forall₂ Stmt.Alike rewritten p := by
  refine ⟨fun visit p => Block.rewriteM_eq_foldlM visit p, fun visit p s => ?_⟩
  -- the records are those of the walk over the parts
  obtain ⟨visits, hrun, hall, halike⟩ := Block.walkM_records visit p s []
  rw [Block.rewriteM_eq_walkM, Block.rewriteM_eq_walkM]
  exact ⟨_, _, visits, rfl, hrun, hall.forall₂_postorder, hall, halike⟩

/-- Puts names into an array, twice, and counts all visits. -/
def doubleNames (e : Expr) : StateM Nat Expr := fun n =>
  (if e.name?.isSome then .array [e, e] else e, n + 1)

/-- A conditional in a `let` statement, with statements in its branches, and an index of a hash. -/
theorem rewriting_visits_in_postorder_doubling :
    let p : Program :=
      [.letBe "x" (.cond (.ident "a") [.ret (.int 1)] (some [.expr (.ident "b")])),
        .expr (.index (.hash [(.int 2, .ident "c")]) (.int 3))]
    let twice (name : String) : Expr := .array [.ident name, .ident name]
    let q : Program :=
      [.letBe "x" (.cond (twice "a") [.ret (.int 1)] (some [.expr (twice "b")])),
        .expr (.index (.hash [(.int 2, twice "c")]) (.int 3))]
    Block.postorder p = [.ident "a", .int 1, .ident "b", (p.map Stmt.value)[0], .int 2, .ident "c",
        .hash [(.int 2, .ident "c")], .int 3, (p.map Stmt.value)[1]] ∧
      (do
        let answers ← (Block.postorder p).foldlM (visitNext doubleNames) []
        return Block.withValues p answers.reverse : StateM Nat Program).run 0 = (q, 9) ∧
      ∃ visits, (Block.rewriteM (recorded doubleNames) p).run (0, []) = (q, 9, visits) ∧
        AllVisited (p.map Stmt.value) visits (q.map Stmt.value) := by
  intro p twice q
  have hrun : (Block.rewriteM doubleNames p).run 0 = (q, 9) := rfl
  obtain ⟨hloop, hrecord⟩ := rewriting_visits_in_postorder
  obtain ⟨rewritten, t, visits, hrun', hvisits, -, hall, -⟩ := hrecord doubleNames p 0
  obtain ⟨rfl, rfl⟩ := Prod.mk.inj (hrun'.symm.trans hrun)
  refine ⟨by decide +kernel, ?_, visits, hvisits, hall⟩
  rw [← hloop doubleNames p]
  exact hrun

end Monkey
