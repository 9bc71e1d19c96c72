import Mathlib.Data.Nat.Basic
import Monkey.Expr.Equality
import Monkey.Proofs.Settling

/-!
# Mapping and folding arrays

The language has no functions that map or fold an array, but they can be written in it.  Each of
them makes a function that calls itself with the rest of the array and with an accumulator.  Such a
loop comes to the fold of what it does with the accumulator at an element.  It needs one call for
each element and one for the end of the array; every round has a scope of its own, and none of the
scopes that were there is changed.

## Main definitions

* `Value.Computes` — what a function makes of arguments, wherever it is called.
* `iterBody`, `foldBody` — the loop, and the body of a function that makes it.
* `Advances` — what the loop does with the accumulator at an element.
* `mapping`, `reducing` — the functions that map and fold.
* `mapReduceSource` — a program that doubles the numbers of an array and adds them up.

## Main results

* `iter_folds` — **the loop comes to a fold.**
* `map_gives`, `reduce_gives` — **mapping and folding by any function that computes something.**
* `map_and_reduce_compute` — the program doubles and adds up all numbers of an array, of any length.
-/

namespace Monkey

open Eval

/-! ### Functions that compute -/

/-- Wherever the function may be called with these arguments, it comes to a value that is neither an
error nor returned, and changes nothing that was there. -/
structure Value.Computes (f : Value) (args : List Value) (w : Value) : Prop where
  gives : ∀ (scope : Nat) {s : State}, s.callDepth < s.maxCallDepth →
    ∃ t, f.Gives args scope s w t ∧ s.Extends noScope t
  notAbrupt : w.isAbrupt = false

/-- A function whose body is an expression that makes one allocation. -/
theorem Value.Computes.of_yields {addr : Nat} {c : Closure} {args : List Value} {e : Expr}
    {w : Value} (hbody : c.body = [.expr e]) (hargs : c.params.length ≤ args.length)
    (h : ∀ s : State, e.Yields s.scopes.size (s.enter c args) w (s.enter c args).afterFresh)
    (hw : w.isAbrupt = false) : (Value.function addr c).Computes args w where
  gives scope s hdepth := by
    have hyields : c.body.Yields s.scopes.size (s.enter c args) w (s.enter c args).afterFresh := by
      rw [hbody]
      exact .single (h s)
    exact Value.Gives.exists_extends addr scope hyields hargs hdepth
      (Value.unwrapReturn_of_not_abrupt hw) (.afterFresh _ _)
  notAbrupt := hw

/-! ### The loop -/

/-- The body of the loop: the accumulator at the end of the array, and another round before. -/
def iterBody (acc : String) (next : Expr) : Block :=
  [.expr (.cond (.binary .eq (.call (.ident "len") [.ident "arr"]) (.int 0)) [.expr (.ident acc)]
    (some [.expr (.call (.ident "iter") [.call (.ident "rest") [.ident "arr"], next])]))]

/-- The loop, written in a scope. -/
def iter (acc : String) (next : Expr) (scope : Nat) : Closure :=
  ⟨["arr", acc], iterBody acc next, scope⟩

/-- The body of a function that makes the loop and starts it. -/
def foldBody (acc : String) (next start : Expr) : Block :=
  [.letBe "iter" (.fn ["arr", acc] (iterBody acc next)),
    .expr (.call (.ident "iter") [.ident "arr", start])]

/-- What the loop finds around it. -/
structure Around (loop f : Value) (σ : String → Option Value) : Prop where
  iter_eq : σ "iter" = some loop
  f_eq : σ "f" = some f
  builtin_eq : ∀ b : Builtin, σ b.name = none

/-- What the loop finds in a round. -/
structure Inside (acc : String) (loop f arr w : Value) (σ : String → Option Value) : Prop
    extends Around loop f σ where
  arr_eq : σ "arr" = some arr
  acc_eq : σ acc = some w

/-- The names that the accumulator must leave to the loop. -/
def loopNames : List String := ["arr", "iter", "f"] ++ Builtin.all.map Builtin.name

theorem Around.inside {loop f : Value} {σ : String → Option Value} (h : Around loop f σ)
    {acc : String} (hacc : acc ∉ loopNames) (arr w : Value) :
    Inside acc loop f arr w (bindAll σ [("arr", arr), (acc, w)]) := by
  have hother : ∀ name ∈ loopNames, bindAll σ [("arr", arr), (acc, w)] name =
      if name = "arr" then some arr else σ name := by
    intro name hname
    have hne : name ≠ acc := ne_of_mem_of_not_mem hname hacc
    exact (Function.update_of_ne hne _ _).trans (Function.update_apply _ _ _ _)
  refine ⟨⟨?_, ?_, fun b => ?_⟩, ?_, Function.update_self ..⟩
  · exact (hother "iter" (by decide)).trans h.iter_eq
  · exact (hother "f" (by decide)).trans h.f_eq
  · rw [hother b.name (by cases b <;> decide), if_neg (by cases b <;> decide)]
    exact h.builtin_eq b
  · exact hother "arr" (by decide)

section

variable {acc : String} {loop f arr w v : Value} {σ : String → Option Value} {s t u : State}
  {scope a : Nat} {x : Value} {xs : List Value} {next : Expr}

/-- No array is so long that its length would wrap around to zero. -/
theorem lengthValue_eq_zero (xs : List Value) (addr : Nat) :
    InfixOp.eq.apply (lengthValue xs.length) (.integer 0) addr = .boolean xs.isEmpty := by
  cases xs with
  | nil => rfl
  | cons x xs =>
    have hlarge : 0 < Int64.size / 2 - 1 := by decide
    have hne : Int64.ofNat (min (xs.length + 1) (Int64.size / 2 - 1)) ≠ 0 :=
      ofNat_ne_zero (by omega) (by omega)
    exact congrArg Value.boolean (beq_eq_false_iff_ne.2 hne)

theorem isEmpty_yields (h : Inside acc loop f (.array a xs) w σ) (hsees : s.scopes.Sees scope σ) :
    Expr.Yields (.binary .eq (.call (.ident "len") [.ident "arr"]) (.int 0)) scope s
      (.boolean xs.isEmpty) s.afterFresh.afterFresh := by
  have harr := hsees.ident s "arr" rfl h.arr_eq
  have hlen := hsees.callBuiltin s .len (h.builtin_eq .len) (.cons harr rfl .nil)
  rw [← lengthValue_eq_zero xs s.afterFresh.nextAddress]
  exact .binary .eq hlen rfl (.int 0) rfl

/-- The first element. -/
theorem first_yields (h : Inside acc loop f (.array a (x :: xs)) w σ)
    (hsees : s.scopes.Sees scope σ) :
    Expr.Yields (.call (.ident "first") [.ident "arr"]) scope s x s.afterFresh := by
  have harr := hsees.ident s "arr" rfl h.arr_eq
  exact hsees.callBuiltin s .first (h.builtin_eq .first) (.cons harr rfl .nil)

/-- The elements after the first one, in a new array. -/
theorem rest_yields (h : Inside acc loop f (.array a (x :: xs)) w σ)
    (hsees : s.scopes.Sees scope σ) :
    Expr.Yields (.call (.ident "rest") [.ident "arr"]) scope s (.array s.nextAddress xs)
      s.afterFresh := by
  have harr := hsees.ident s "arr" rfl h.arr_eq
  exact hsees.callBuiltin s .rest (h.builtin_eq .rest) (.cons harr rfl .nil)

theorem iterBody_yields_nil (h : Inside acc loop f (.array a []) w σ)
    (hname : Intrinsic.ofName? acc = none) (hsees : s.scopes.Sees scope σ) :
    (iterBody acc next).Yields scope s w s.afterFresh.afterFresh := by
  have hacc := hsees.ident s.afterFresh.afterFresh acc hname h.acc_eq
  exact .single (.cond (isEmpty_yields h hsees) rfl (.single hacc))

theorem iterBody_yields_cons (h : Inside acc loop f (.array a (x :: xs)) w σ)
    (hsees : s.scopes.Sees scope σ) (hloop : loop.isAbrupt = false) {w' : Value}
    (hnext : next.Yields scope s.afterFresh.afterFresh.afterFresh w' t) (hw' : w'.isAbrupt = false)
    (hround : loop.Gives [.array s.afterFresh.afterFresh.nextAddress xs, w'] scope t v u) :
    (iterBody acc next).Yields scope s v u := by
  have hiter := hsees.ident s.afterFresh.afterFresh "iter" rfl h.iter_eq
  have hrest := rest_yields (s := s.afterFresh.afterFresh) h hsees
  have hcall := Expr.Yields.call (by decide) hiter hloop
    (.cons hrest rfl (.cons hnext hw' .nil)) hround
  exact .single (.cond (isEmpty_yields h hsees) rfl (.single hcall))

end

/-! ### Rounds of the loop -/

/-- At an element of the array, the loop takes its accumulator from what stands for a result to what
stands for the next one. -/
def Advances {β : Type} (acc : String) (next : Expr) (f : Value) (low : Nat)
    (R : β → Value → Prop) (k : β → β) (x : Value) : Prop :=
  ∀ {loop w : Value} {σ : String → Option Value} {scope a : Nat} {s : State} {xs : List Value}
    {b : β},
    Inside acc loop f (.array a (x :: xs)) w σ → R b w → s.scopes.Sees scope σ →
    s.callDepth < s.maxCallDepth → low ≤ s.nextAddress →
    ∃ w' t, next.Yields scope s w' t ∧ R (k b) w' ∧ s.Extends noScope t

section

variable {acc : String} {next : Expr} {f : Value} {low addr g : Nat} {α β : Type}
  {elem : α → Value} {R : β → Value → Prop} {k : β → α → β} {σ : String → Option Value}
  {xs : List α} {b : β} {s : State}

/-- **The loop comes to a fold.**  The induction is on the elements, for all states and
accumulators: a round leaves the other elements to a call from its own scope. -/
theorem iter_folds (hacc : acc ∉ loopNames) (hname : Intrinsic.ofName? acc = none)
    (hR : ∀ {b w}, R b w → w.isAbrupt = false)
    (haround : Around (.function addr (iter acc next g)) f σ)
    (hxs : ∀ x ∈ xs, Advances acc next f low R (k · x) (elem x)) {w : Value} (hw : R b w)
    (hsees : s.scopes.Sees g σ) (hdepth : s.callDepth + xs.length < s.maxCallDepth)
    (hlow : low ≤ s.nextAddress) (scope a : Nat) :
    ∃ w' t, (Value.function addr (iter acc next g)).Gives [.array a (xs.map elem), w] scope s w' t ∧
      R (xs.foldl k b) w' ∧ s.Extends noScope t := by
  induction xs generalizing b w scope a s with
  | nil =>
    let e := s.enter (iter acc next g) [.array a [], w]
    have htwice : e.Extends (· = s.scopes.size) e.afterFresh.afterFresh :=
      (State.Extends.afterFresh _ e).trans (.afterFresh _ _)
    have hbody : (iterBody acc next).Yields s.scopes.size e w e.afterFresh.afterFresh :=
      iterBody_yields_nil (haround.inside hacc _ w) hname (hsees.enter _)
    obtain ⟨t, hcall, hextends⟩ := Value.Gives.exists_extends addr scope
      (c := iter acc next g) hbody (Nat.le_refl 2) hdepth (Value.unwrapReturn_of_not_abrupt (hR hw))
      htwice
    exact ⟨w, t, hcall, hw, hextends⟩
  | cons x xs ih =>
    rw [List.length_cons] at hdepth
    let e := s.enter (iter acc next g) [.array a (elem x :: xs.map elem), w]
    let e' := e.afterFresh.afterFresh.afterFresh
    -- before `next` is evaluated, the test takes two addresses and the rest of the array a third
    have hthrice : e.Extends (· = s.scopes.size) e' :=
      ((State.Extends.afterFresh _ e).trans (.afterFresh _ _)).trans (.afterFresh _ _)
    have hinside := haround.inside hacc (.array a (elem x :: xs.map elem)) w
    have hinner : e.scopes.Sees s.scopes.size _ := hsees.enter _
    have hcalls : e'.callDepth + xs.length < e'.maxCallDepth := by
      show s.callDepth + 1 + xs.length < s.maxCallDepth
      omega
    have hlow' : low ≤ e'.nextAddress := hlow.trans hthrice.address_le
    obtain ⟨w', t, hnext, hw', hstep⟩ := hxs x List.mem_cons_self (s := e') hinside hw hinner
      (Nat.lt_of_le_of_lt (Nat.le_add_right _ _) hcalls) hlow'
    have hothers : ∀ y ∈ xs, Advances acc next f low R (k · y) (elem y) :=
      fun y hy => hxs y (List.mem_cons_of_mem x hy)
    -- the next round begins in the scope of the loop again, which this one has left alone
    have houter : t.scopes.Sees g σ := (hsees.entered _ _).grown hstep.grown
    rw [← hstep.callDepth_eq, ← hstep.maxCallDepth_eq] at hcalls
    obtain ⟨v, u, hround, hv, hlater⟩ := ih hothers hw' houter hcalls
      (hlow'.trans hstep.address_le) s.scopes.size e.afterFresh.afterFresh.nextAddress
    have hbody := iterBody_yields_cons hinside hinner rfl hnext (hR hw') hround
    obtain ⟨t', hcall, hextends⟩ := Value.Gives.exists_extends addr scope
      (c := iter acc next g) hbody (Nat.le_refl 2) (by omega)
      (Value.unwrapReturn_of_not_abrupt (hR hv)) ((hthrice.trans hstep.weaken).trans hlater.weaken)
    exact ⟨v, t', hcall, hv, hextends⟩

/-- The body of a function that makes the loop and starts it comes to the same fold. -/
theorem foldBody_yields (hacc : acc ∉ loopNames) (hname : Intrinsic.ofName? acc = none)
    (hR : ∀ {b w}, R b w → w.isAbrupt = false) {start : Expr}
    {scope a : Nat} (harr : σ "arr" = some (.array a (xs.map elem))) (hf : σ "f" = some f)
    (hbuiltin : ∀ b : Builtin, σ b.name = none)
    (hxs : ∀ x ∈ xs, Advances acc next f low R (k · x) (elem x))
    (hstart : ∀ {s : State} {loop : Value},
      s.scopes.Sees scope (Function.update σ "iter" loop) → low ≤ s.nextAddress →
      ∃ w t, start.Yields scope s w t ∧ R b w ∧ s.Extends noScope t)
    (hsees : s.scopes.Sees scope σ) (hdepth : s.callDepth + xs.length < s.maxCallDepth)
    (hlow : low ≤ s.nextAddress) :
    ∃ w t, (foldBody acc next start).Yields scope s w t ∧ R (xs.foldl k b) w ∧
      s.Extends (· = scope) t := by
  let loop := Value.function s.nextAddress (iter acc next scope)
  let e := s.define "iter" (iter acc next scope)
  have hbound : s.Extends (· = scope) e := .define s "iter" (iter acc next scope)
  have hinner : e.scopes.Sees scope (Function.update σ "iter" loop) := hsees.set "iter" loop
  -- the loop is bound in the scope that it was written in, so that it finds itself there
  have haround : Around loop f (Function.update σ "iter" loop) := by
    refine ⟨Function.update_self .., (Function.update_of_ne (by decide) ..).trans hf, fun b => ?_⟩
    exact (Function.update_of_ne (by cases b <;> decide) ..).trans (hbuiltin b)
  have hiter := hinner.ident e "iter" rfl haround.iter_eq
  have harray := hinner.ident e "arr" rfl ((Function.update_of_ne (by decide) ..).trans harr)
  obtain ⟨w, t, hyields, hw, hstarted⟩ := hstart hinner (hlow.trans hbound.address_le)
  obtain ⟨v, u, hloop, hv, hlooped⟩ := iter_folds hacc hname hR haround hxs hw
    (hinner.grown hstarted.grown) (by rwa [hstarted.callDepth_eq, hstarted.maxCallDepth_eq])
    ((hlow.trans hbound.address_le).trans hstarted.address_le) scope a
  have hcall := Expr.Yields.call (by decide) hiter rfl
    (.cons harray rfl (.cons hyields (hR hw) .nil)) hloop
  exact ⟨v, u, .define "iter" (iter acc next scope) (.single hcall), hv,
    (hbound.trans hstarted.weaken).trans hlooped.weaken⟩

end

/-! ### Mapping -/

/-- What mapping does at an element. -/
def mapNext : Expr :=
  .call (.ident "push")
    [.ident "accumulated", .call (.ident "f") [.call (.ident "first") [.ident "arr"]]]

/-- The function that maps, written in a scope. -/
def mapping (scope : Nat) : Closure :=
  ⟨["arr", "f"], foldBody "accumulated" mapNext (.array []), scope⟩

/-- The value is an array of these elements whose address is not below a given one. -/
def IsNewArray (low : Nat) (vs : List Value) (v : Value) : Prop := ∃ a ≥ low, v = .array a vs

theorem mapNext_advances {f x y : Value} {low : Nat} (hf : f.isAbrupt = false)
    (hx : x.isAbrupt = false) (hy : f.Computes [x] y) :
    Advances "accumulated" mapNext f low (IsNewArray low) (· ++ [y]) x := by
  rintro loop _ σ scope a s xs vs hinside ⟨a', -, rfl⟩ hsees hdepth hlow
  obtain ⟨t, hgives, hextends⟩ := hy.gives scope (s := s.afterFresh) hdepth
  have hacc := hsees.ident s "accumulated" rfl hinside.acc_eq
  have hfunction := hsees.ident s "f" rfl hinside.f_eq
  -- the image of the first element is pushed to what was accumulated
  have himage := Expr.Yields.call (by decide) hfunction hf
    (.cons (first_yields hinside hsees) hx .nil) hgives
  have hpush := hsees.callBuiltin s .push (hinside.builtin_eq .push)
    (.cons hacc rfl (.cons himage hy.notAbrupt .nil))
  have hall := ((State.Extends.afterFresh noScope s).trans hextends).trans (.afterFresh _ t)
  have hlow' : low ≤ t.nextAddress := hlow.trans (Nat.le_of_succ_le hextends.address_le)
  exact ⟨_, _, hpush, ⟨t.nextAddress, hlow', rfl⟩, hall⟩

section

variable {α : Type} {f : Value} {xs : List α} {σ : String → Option Value}
  {g : Nat} {s : State}

/-- **Mapping applies the function to every element, in order, and makes a new array.** -/
theorem map_gives (elem image : α → Value) (hf : f.isAbrupt = false)
    (helem : ∀ x ∈ xs, (elem x).isAbrupt = false) (hxs : ∀ x ∈ xs, f.Computes [elem x] (image x))
    (hbuiltin : ∀ b : Builtin, σ b.name = none) (hsees : s.scopes.Sees g σ)
    (hdepth : s.callDepth + 1 + xs.length < s.maxCallDepth) (addr a scope : Nat) :
    ∃ a' ≥ s.nextAddress, ∃ t, (Value.function addr (mapping g)).Gives [.array a (xs.map elem), f]
      scope s (.array a' (xs.map image)) t ∧ s.Extends noScope t := by
  let args := [.array a (xs.map elem), f]
  let τ := bindAll σ (["arr", "f"].zip args)
  -- the parameters hide no builtin
  have hfree : ∀ b : Builtin, τ b.name = none := by
    refine fun b => (bindAll_of_notMem ?_).trans (hbuiltin b)
    show b.name ∉ ["arr", "f"]
    cases b <;> decide
  have hstart : ∀ {t : State} {loop : Value},
      t.scopes.Sees s.scopes.size (Function.update τ "iter" loop) →
      s.nextAddress ≤ t.nextAddress → ∃ w t', (Expr.array []).Yields s.scopes.size t w t' ∧
        IsNewArray s.nextAddress [] w ∧ t.Extends noScope t' :=
    fun _ hlow => ⟨_, _, .array .nil, ⟨_, hlow, rfl⟩, .afterFresh _ _⟩
  -- what the loop carries on is a new array of the images so far
  obtain ⟨_, t, hbody, ⟨a', ha', rfl⟩, hextends⟩ := foldBody_yields
    (R := IsNewArray s.nextAddress) (k := fun vs x => vs ++ [image x]) (b := []) (by decide)
    (by rfl) (by rintro _ _ ⟨_, -, rfl⟩; rfl) rfl rfl hfree
    (fun x hx => mapNext_advances hf (helem x hx) (hxs x hx)) hstart
    (hsees.enter (c := mapping g) args) hdepth (Nat.le_refl _)
  rw [List.foldl_append_eq_append, List.nil_append, ← List.flatMap_def, ← List.map_eq_flatMap]
    at hbody
  exact ⟨a', ha', Value.Gives.exists_extends addr scope (c := mapping g) hbody (Nat.le_refl 2)
    (by omega) rfl hextends⟩

/-! ### Folding -/

/-- What folding does at an element. -/
def reduceNext : Expr := .call (.ident "f") [.ident "result", .call (.ident "first") [.ident "arr"]]

/-- The function that folds, written in a scope. -/
def reducing (scope : Nat) : Closure :=
  ⟨["arr", "initial", "f"], foldBody "result" reduceNext (.ident "initial"), scope⟩

variable {β : Type}

theorem reduceNext_advances {val : β → Value} {x : Value} {low : Nat} {k : β → β}
    (hf : f.isAbrupt = false) (hx : x.isAbrupt = false) (hval : ∀ b, (val b).isAbrupt = false)
    (hk : ∀ b, f.Computes [val b, x] (val (k b))) :
    Advances "result" reduceNext f low (fun b v => v = val b) k x := by
  rintro loop _ σ scope a s xs b hinside rfl hsees hdepth hlow
  obtain ⟨t, hgives, hextends⟩ := (hk b).gives scope (s := s.afterFresh) hdepth
  have hresult := hsees.ident s "result" rfl hinside.acc_eq
  have hfunction := hsees.ident s "f" rfl hinside.f_eq
  have hnext := Expr.Yields.call (by decide) hfunction hf
    (.cons hresult (hval b) (.cons (first_yields hinside hsees) hx .nil)) hgives
  exact ⟨_, t, hnext, rfl, (State.Extends.afterFresh noScope s).trans hextends⟩

/-- **Folding takes the initial value through the function, element by element.** -/
theorem reduce_gives (elem : α → Value) (val : β → Value) {k : β → α → β} (hf : f.isAbrupt = false)
    (helem : ∀ x ∈ xs, (elem x).isAbrupt = false) (hval : ∀ b, (val b).isAbrupt = false)
    (hxs : ∀ x ∈ xs, ∀ b, f.Computes [val b, elem x] (val (k b x)))
    (hbuiltin : ∀ b : Builtin, σ b.name = none) (hsees : s.scopes.Sees g σ)
    (hdepth : s.callDepth + 1 + xs.length < s.maxCallDepth) (b : β) (addr a scope : Nat) :
    ∃ t, (Value.function addr (reducing g)).Gives [.array a (xs.map elem), val b, f] scope s
      (val (xs.foldl k b)) t ∧ s.Extends noScope t := by
  let args := [.array a (xs.map elem), val b, f]
  let τ := bindAll σ (["arr", "initial", "f"].zip args)
  have hfree : ∀ b : Builtin, τ b.name = none := by
    refine fun b => (bindAll_of_notMem ?_).trans (hbuiltin b)
    show b.name ∉ ["arr", "initial", "f"]
    cases b <;> decide
  have hstart : ∀ {t : State} {loop : Value},
      t.scopes.Sees s.scopes.size (Function.update τ "iter" loop) →
      s.nextAddress ≤ t.nextAddress → ∃ w t', (Expr.ident "initial").Yields s.scopes.size t w t' ∧
        w = val b ∧ t.Extends noScope t' :=
    fun hsees _ => ⟨_, _, hsees.ident _ "initial" rfl rfl, rfl, .refl _ _⟩
  -- what the loop carries on is the value so far
  obtain ⟨_, t, hbody, rfl, hextends⟩ := foldBody_yields
    (R := fun b v => v = val b) (k := k) (b := b) (by decide) (by rfl)
    (by rintro b _ rfl; exact hval b) rfl rfl hfree
    (fun x hx => reduceNext_advances hf (helem x hx) hval (hxs x hx)) hstart
    (hsees.enter (c := reducing g) args) hdepth (Nat.le_refl _)
  exact Value.Gives.exists_extends addr scope (c := reducing g) hbody (Nat.le_refl 3) (by omega)
    (Value.unwrapReturn_of_not_abrupt (hval _)) hextends

end

/-! ### Doubling and adding up -/

/-- `fn(x) { x * 2 }`, written in a scope. -/
def doubling (scope : Nat) : Closure :=
  ⟨["x"], [.expr (.binary .mul (.ident "x") (.int 2))], scope⟩

/-- `fn(acc, x) { acc + x }`, written in a scope. -/
def adding (scope : Nat) : Closure :=
  ⟨["acc", "x"], [.expr (.binary .add (.ident "acc") (.ident "x"))], scope⟩

theorem doubling_computes (addr g : Nat) (n : Int64) :
    (Value.function addr (doubling g)).Computes [.integer n] (.integer (n * 2)) := by
  refine .of_yields rfl (Nat.le_refl 1) (fun s => ?_) rfl
  have hinner := Scopes.Sees.enter_new s (doubling g) [.integer n]
  exact .binary .mul (hinner.ident _ "x" rfl rfl) rfl (.int 2) rfl

theorem adding_computes (addr g : Nat) (m n : Int64) :
    (Value.function addr (adding g)).Computes [.integer m, .integer n] (.integer (m + n)) := by
  refine .of_yields rfl (Nat.le_refl 2) (fun s => ?_) rfl
  have hinner := Scopes.Sees.enter_new s (adding g) [.integer m, .integer n]
  exact .binary .add (hinner.ident _ "acc" rfl rfl) rfl (hinner.ident _ "x" rfl rfl) rfl

/-- Every number doubled, in sixty-four bits. -/
def doubled (xs : List Int64) : List Int64 := xs.map fun x => Int64.ofInt (x.toInt * 2)

/-- The sum of numbers, in sixty-four bits. -/
def wrappedSum (xs : List Int64) : Int64 :=
  Int64.ofInt (xs.foldr (fun x sum => x.toInt + sum) 0)

theorem map_mul_two (xs : List Int64) : xs.map (· * 2) = doubled xs := by
  refine List.map_congr_left fun x _ => ?_
  rw [Int64.ofInt_mul, Int64.ofInt_toInt]
  rfl

theorem foldl_add (xs : List Int64) (n : Int64) : xs.foldl (· + ·) n = n + wrappedSum xs := by
  induction xs generalizing n with
  | nil => exact (Int64.add_zero n).symm
  | cons x xs ih =>
    rw [List.foldl_cons, ih, wrappedSum, wrappedSum, List.foldr_cons, Int64.ofInt_add,
      Int64.ofInt_toInt, Int64.add_assoc]

/-! ### The program -/

/-- A program that doubles the numbers of an array, prints what it has got, and adds that up. -/
def mapReduceSource : String :=
  "let map = fn(arr, f) \x7b
     let iter = fn(arr, accumulated) \x7b
       if (len(arr) == 0) \x7b
         accumulated
       \x7d else \x7b
         iter(rest(arr), push(accumulated, f(first(arr))));
       \x7d
     \x7d;
     iter(arr, []);
   \x7d;
   let reduce = fn(arr, initial, f) \x7b
     let iter = fn(arr, result) \x7b
       if (len(arr) == 0) \x7b
         result
       \x7d else \x7b
         iter(rest(arr), f(result, first(arr)));
       \x7d
     \x7d;
     iter(arr, initial);
   \x7d;
   let doubled = map(numbers, fn(x) \x7b x * 2 \x7d);
   puts(doubled);
   reduce(doubled, 0, fn(acc, x) \x7b acc + x \x7d);"

/-- `map(numbers, fn(x) { x * 2 })`. -/
def doubleNumbers : Expr :=
  .call (.ident "map") [.ident "numbers", .fn ["x"] [.expr (.binary .mul (.ident "x") (.int 2))]]

/-- `reduce(doubled, 0, fn(acc, x) { acc + x })`. -/
def addDoubled : Expr :=
  .call (.ident "reduce") [.ident "doubled", .int 0,
    .fn ["acc", "x"] [.expr (.binary .add (.ident "acc") (.ident "x"))]]

/-- The statements of the program. -/
def mapReduce : Program :=
  [.letBe "map" (.fn ["arr", "f"] (foldBody "accumulated" mapNext (.array []))),
    .letBe "reduce"
      (.fn ["arr", "initial", "f"] (foldBody "result" reduceNext (.ident "initial"))),
    .letBe "doubled" doubleNumbers, .expr (.call (.ident "puts") [.ident "doubled"]),
    .expr addDoubled]

/-- A text is read as the list of its characters. -/
theorem parse_eq_of_toList {source : String} {cs : List Char} {p : Program}
    (hsource : source.toList = cs)
    (hread : (parseTokens (tokensFrom 0 cs)).program = p ∧
      (parseTokens (tokensFrom 0 cs)).errors = []) : parse source = ⟨p, []⟩ := by
  rw [parse, lex, hsource, ← hread.1, ← hread.2]

set_option maxRecDepth 4000 in
theorem parse_mapReduceSource : parse mapReduceSource = ⟨mapReduce, []⟩ :=
  parse_eq_of_toList String.toList_ofList (by decide +kernel)

/-- An array of numbers. -/
def numberArray (addr : Nat) (xs : List Int64) : Value := .array addr (xs.map .integer)

section

variable {σ : String → Option Value} {g addr a : Nat} {xs : List Int64} {s : State}

theorem doubleNumbers_yields (hsees : s.scopes.Sees g σ)
    (hbuiltin : ∀ b : Builtin, σ b.name = none) (hmap : σ "map" = some (.function addr (mapping g)))
    (hnumbers : σ "numbers" = some (numberArray a xs))
    (hdepth : s.callDepth + 1 + xs.length < s.maxCallDepth) :
    ∃ a' ≥ s.nextAddress, ∃ t, doubleNumbers.Yields g s (numberArray a' (doubled xs)) t ∧
      s.Extends noScope t := by
  let f := Value.function s.nextAddress (doubling g)
  have hf : ∀ n ∈ xs, f.Computes [.integer n] (.integer (n * 2)) :=
    fun n _ => doubling_computes s.nextAddress g n
  obtain ⟨a', ha', t, hgives, hextends⟩ := map_gives .integer (fun n => .integer (n * 2)) rfl
    (fun _ _ => rfl) hf hbuiltin (s := s.afterFresh) hsees hdepth addr a g
  have hcallee := hsees.ident s "map" rfl hmap
  have hargument := hsees.ident s "numbers" rfl hnumbers
  have hcall := Expr.Yields.call (by decide) hcallee rfl
    (.cons hargument rfl (.cons (.fn ["x"] (doubling g).body) rfl .nil)) hgives
  -- doubling by wrapping multiplication is what the list says
  have hvalues : xs.map (fun n => Value.integer (n * 2)) = (doubled xs).map .integer := by
    rw [← map_mul_two, List.map_map]
    rfl
  rw [hvalues] at hcall
  exact ⟨a', Nat.le_of_succ_le ha', t, hcall, (State.Extends.afterFresh _ s).trans hextends⟩

theorem addDoubled_yields (hsees : s.scopes.Sees g σ) (hbuiltin : ∀ b : Builtin, σ b.name = none)
    (hreduce : σ "reduce" = some (.function addr (reducing g)))
    (hdoubled : σ "doubled" = some (numberArray a xs))
    (hdepth : s.callDepth + 1 + xs.length < s.maxCallDepth) :
    ∃ t, addDoubled.Yields g s (.integer (wrappedSum xs)) t ∧ s.Extends noScope t := by
  let f := Value.function s.nextAddress (adding g)
  have hf : ∀ n ∈ xs, ∀ m, f.Computes [.integer m, .integer n] (.integer (m + n)) :=
    fun n _ m => adding_computes s.nextAddress g m n
  obtain ⟨t, hgives, hextends⟩ := reduce_gives .integer .integer rfl (fun _ _ => rfl)
    (fun _ => rfl) hf hbuiltin (s := s.afterFresh) hsees hdepth 0 addr a g
  have hcallee := hsees.ident s "reduce" rfl hreduce
  have hargument := hsees.ident s "doubled" rfl hdoubled
  have hcall := Expr.Yields.call (by decide) hcallee rfl (.cons hargument rfl
    (.cons (.int 0) rfl (.cons (.fn ["acc", "x"] (adding g).body) rfl .nil))) hgives
  rw [foldl_add, Int64.zero_add] at hcall
  exact ⟨t, hcall, (State.Extends.afterFresh _ s).trans hextends⟩

/-- What the program comes to, and what it leaves behind. -/
theorem mapReduce_yields (hsees : s.scopes.Sees g σ) (hbuiltin : ∀ b : Builtin, σ b.name = none)
    (hnumbers : σ "numbers" = some (numberArray addr xs))
    (hdepth : s.callDepth + 1 + xs.length < s.maxCallDepth) :
    ∃ a ≥ s.nextAddress, ∃ t,
      Block.Yields mapReduce g s (.integer (wrappedSum (doubled xs))) t ∧
      t.scopes.find? g "doubled" = some (numberArray a (doubled xs)) ∧
      t.scopes.find? g "numbers" = some (numberArray addr xs) ∧
      s.scopes.Grown (· = g) t.scopes ∧ t.tasks = s.tasks ∧
      t.output = s.output.printLine (numberArray a (doubled xs)).inspect := by
  let s₁ := s.define "map" (mapping g)
  let s₂ := s₁.define "reduce" (reducing g)
  let functions := [("map", Value.function s.nextAddress (mapping g)),
    ("reduce", Value.function s₁.nextAddress (reducing g))]
  have hdefined : s.Extends (· = g) s₂ :=
    (State.Extends.define s "map" (mapping g)).trans (.define s₁ "reduce" (reducing g))
  have hsees₂ : s₂.scopes.Sees g (bindAll σ functions) := hsees.setAll functions
  have hfree₂ : ∀ b : Builtin, bindAll σ functions b.name = none := by
    refine fun b => (bindAll_of_notMem ?_).trans (hbuiltin b)
    show b.name ∉ ["map", "reduce"]
    cases b <;> decide
  obtain ⟨a, ha, t, hdouble, hmapped⟩ := doubleNumbers_yields hsees₂ hfree₂ rfl hnumbers hdepth
  let array := numberArray a (doubled xs)
  let s₃ := t.bind g "doubled" array
  have hsees₃ := (hsees₂.grown hmapped.grown).set "doubled" array
  have hfree₃ : ∀ b : Builtin,
      Function.update (bindAll σ functions) "doubled" (some array) b.name = none :=
    fun b => (Function.update_of_ne (by cases b <;> decide) ..).trans (hfree₂ b)
  have hfound := hsees₃.ident s₃ "doubled" rfl rfl
  have hputs := hsees₃.callBuiltin s₃ .puts (hfree₃ .puts) (.cons hfound rfl .nil)
  -- printing takes an address and changes no scope, so what `s₃` sees is seen in `s₄` too
  let s₄ := { s₃ with output := s₃.output.printLine array.inspect }.afterFresh
  have hdepth₄ : s₄.callDepth + 1 + (doubled xs).length < s₄.maxCallDepth := by
    show t.callDepth + 1 + (doubled xs).length < t.maxCallDepth
    rwa [hmapped.callDepth_eq, hmapped.maxCallDepth_eq, doubled, List.length_map]
  obtain ⟨u, hadd, hadded⟩ := addDoubled_yields (s := s₄) hsees₃ hfree₃ rfl rfl hdepth₄
  have hlast : t.Extends (· = g) s₃ := .bind t g "doubled" array
  have hsees₅ := hsees₃.grown hadded.grown
  have hgrown := (hdefined.trans (hmapped.weaken.trans hlast)).grown
  refine ⟨a, hdefined.address_le.trans ha, u, ?_, hsees₅.find?_eq "doubled",
    (hsees₅.find?_eq "numbers").trans hnumbers, hgrown.trans hadded.weaken.grown, ?_, ?_⟩
  · have hbody := Block.Yields.letBe "doubled" hdouble rfl (.expr hputs rfl (.single hadd))
    exact .define "map" (mapping g) (.define "reduce" (reducing g) hbody)
  · exact (hadded.tasks_eq.trans hmapped.tasks_eq).trans hdefined.tasks_eq
  · have hprinted : t.output = s.output := hmapped.output_eq.trans hdefined.output_eq
    rw [hadded.output_eq, ← hprinted]
    rfl

end

/-- **Recursive programs on arrays compute their functions.**  Let a session know no macros and let
no call be active, let `numbers` name an array of numbers, and let no native function's name be
bound.  If at least two more calls may be nested than there are numbers, then the program comes to
the sum of the doubled numbers, in sixty-four bits.  What it prints and binds to `doubled` is an
array of the doubled numbers, in order, at an address that had not been given out.  The array of
numbers is the same as before, as are all the scopes but the one that the program runs in. -/
theorem map_and_reduce_compute {σ : Session} (hmacros : σ.BindsNoMacro)
    (hidle : σ.state.callDepth = 0)
    (hbuiltin : ∀ b : Builtin, σ.state.scopes.find? σ.globals b.name = none) {addr : Nat}
    {xs : List Int64}
    (hnumbers : σ.state.scopes.find? σ.globals "numbers" = some (numberArray addr xs))
    (hlimit : xs.length + 2 ≤ σ.state.maxCallDepth) :
    ∃ a ≥ σ.state.nextAddress, ∃ t,
      σ.Answers mapReduceSource (.integer (wrappedSum (doubled xs))) { σ with state := t } ∧
      t.scopes.find? σ.globals "doubled" = some (numberArray a (doubled xs)) ∧
      t.scopes.find? σ.globals "numbers" = some (numberArray addr xs) ∧
      σ.state.scopes.Grown (· = σ.globals) t.scopes ∧ t.tasks = σ.state.tasks ∧
      t.output = σ.state.output.printLine (numberArray a (doubled xs)).inspect := by
  have hsees := Scopes.Sees.refl (Scopes.lt_size_of_find? hnumbers)
  have hdepth : σ.state.callDepth + 1 + xs.length < σ.state.maxCallDepth := by omega
  obtain ⟨a, ha, t, hyields, hleft⟩ := mapReduce_yields hsees hbuiltin hnumbers hdepth
  exact ⟨a, ha, t, Session.answers_of_yields hmacros parse_mapReduceSource nofun rfl hyields, hleft⟩

/-- A session in which an array of three numbers is bound; five calls may be nested. -/
def threeNumbers : Session where
  state := (Session.start 5 .empty).state.afterFresh.bind 0 "numbers"
    (numberArray 0 [1, 4611686018427387904, -3])
  globals := 0
  macros := 1

/-- The second number overflows when it is doubled, and so does the sum. -/
theorem map_and_reduce_compute_wrapping :
    ∃ a t, threeNumbers.Answers mapReduceSource (.integer 9223372036854775804)
        { threeNumbers with state := t } ∧
      t.scopes.find? 0 "doubled" = some (numberArray a [2, -9223372036854775808, -6]) ∧
      t.scopes.find? 0 "numbers" = some (numberArray 0 [1, 4611686018427387904, -3]) ∧
      t.output.text = "[2, -9223372036854775808, -6]\n" := by
  have hsees := (Session.sees_session (.start 5 .empty)).set "numbers"
    (numberArray 0 [1, 4611686018427387904, -3])
  have hmacros : threeNumbers.BindsNoMacro :=
    (Session.bindsNoMacro_session (.start 5 .empty)).grown (Session.separate_session _)
      (State.Extends.bind _ 0 "numbers" _).grown
  have hbuiltin : ∀ b : Builtin, threeNumbers.state.scopes.find? 0 b.name = none :=
    fun b => (hsees.find?_eq b.name).trans (Function.update_of_ne (by cases b <;> decide) ..)
  obtain ⟨a, -, t, hanswers, hdoubled, hnumbers, -, -, houtput⟩ :=
    map_and_reduce_compute hmacros rfl hbuiltin (hsees.find?_eq "numbers") (by decide)
  refine ⟨a, t, hanswers, hdoubled, hnumbers, ?_⟩
  rw [houtput]
  rfl

end Monkey
