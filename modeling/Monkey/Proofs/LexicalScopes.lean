import Monkey.Scopes
import Mathlib.Data.List.Induction

/-!
# Lexical scoping

Scopes are used through handles: a handle comes with a new scope, and any handle can be shared, so
that several of them lead to one scope.  What the store answers after some steps is told here by the
steps alone.  A name has in a scope the value that it was bound to last, through whichever handle,
in the nearest scope in which it was ever bound; nearest first come the scope itself, the one that
it was created in, the one which that was created in, and so on.  Each of these was created before
the one inside it, so looking a name up comes to an end.

## Main definitions

* `ScopeStep`, `HeldScopes` — steps through handles, and scopes with the handles that lead to them;
  `HeldScopes.run` takes steps.
* `BoundIn`, `LastBound`, `CreatedIn`, `CreatedAlone` — what steps say of scopes.
* `ScopeChain` — a scope with those around it, by the steps.
* `Scopes.Lookup` — looking a name up, round by round.
* `LexicalAt` — what lexical scoping says of a scope.

## Main results

* `HeldScopes.Records.of_run` — the store agrees with the steps on every scope.
* `HeldScopes.Records.lookup` — looking a name up ends.
* `scopes_are_lexical` — **the store answers as lexical scoping says.**
-/

namespace Monkey

/-- A step that is taken with scopes.  Handles are numbered in the order in which they are given
out. -/
inductive ScopeStep
  /-- Creates a scope inside no other one, and gives out a handle. -/
  | create
  /-- Creates a scope inside the one that the handle leads to, and gives out a handle. -/
  | enclose (handle : Nat)
  /-- Gives out another handle to the same scope. -/
  | share (handle : Nat)
  /-- Binds a name in the scope that the handle leads to. -/
  | bind (handle : Nat) (name : String) (value : Value)

namespace ScopeStep

/-- The handle that a step is taken through. -/
def handle? : ScopeStep → Option Nat
  | .create => none
  | .enclose handle | .share handle | .bind handle _ _ => some handle

/-- Whether a step creates a scope. -/
def creates : ScopeStep → Bool
  | .create | .enclose _ => true
  | .share _ | .bind _ _ _ => false

end ScopeStep

/-- Scopes, and for each handle that was given out the scope that it leads to. -/
structure HeldScopes where
  scopes : Scopes
  handles : List Nat

namespace HeldScopes

/-- No scopes yet, and no handles. -/
def start : HeldScopes := ⟨.empty, []⟩

/-- Takes a step, unless the handle was never given out. -/
def step (c : HeldScopes) : ScopeStep → Option HeldScopes
  | .create => some ⟨c.scopes.add none, c.handles ++ [c.scopes.size]⟩
  | .enclose handle => c.handles[handle]?.map fun id =>
    ⟨c.scopes.add (some id), c.handles ++ [c.scopes.size]⟩
  | .share handle => c.handles[handle]?.map fun id => ⟨c.scopes, c.handles ++ [id]⟩
  | .bind handle name value => c.handles[handle]?.map fun id =>
    ⟨c.scopes.set id name value, c.handles⟩

/-- Takes steps in order. -/
def run (c : HeldScopes) : List ScopeStep → Option HeldScopes
  | [] => some c
  | st :: rest => (c.step st).bind fun d => d.run rest

end HeldScopes

/-! ### What steps say of scopes -/

section

variable (steps : List ScopeStep) (handles : List Nat)

/-- The number of scopes that the steps create. -/
def creations : Nat := steps.countP ScopeStep.creates

/-- Some step binds the name through a handle to the scope. -/
def BoundIn (scope : Nat) (name : String) : Prop :=
  ∃ handle value, ScopeStep.bind handle name value ∈ steps ∧ handles[handle]? = some scope

/-- Some step binds the name to the value through a handle to the scope, and no later one binds it
through any handle to that scope. -/
def LastBound (scope : Nat) (name : String) (value : Value) : Prop :=
  ∃ before handle after, steps = before ++ .bind handle name value :: after ∧
    handles[handle]? = some scope ∧ ¬BoundIn after handles scope name

/-- The scope was created inside the scope `outer`. -/
def CreatedIn (scope outer : Nat) : Prop :=
  ∃ before handle after, steps = before ++ .enclose handle :: after ∧
    creations before = scope ∧ handles[handle]? = some outer

/-- The scope was created inside no other one. -/
def CreatedAlone (scope : Nat) : Prop :=
  ∃ before after, steps = before ++ .create :: after ∧ creations before = scope

/-- The scope, the one that it was created in, and so on outwards to one that was created inside no
other one. -/
inductive ScopeChain : Nat → List Nat → Prop
  | outermost {scope : Nat} : CreatedAlone steps scope → ScopeChain scope [scope]
  | inside {scope outer : Nat} {rest : List Nat} : CreatedIn steps handles scope outer →
    ScopeChain outer rest → ScopeChain scope (scope :: rest)

end

section

variable {steps : List ScopeStep} {st : ScopeStep} {handles more : List Nat} {scope outer : Nat}
  {name : String} {value : Value}

@[simp] theorem creations_nil : creations [] = 0 := rfl

@[simp] theorem creations_append (first second : List ScopeStep) :
    creations (first ++ second) = creations first + creations second :=
  List.countP_append

@[simp] theorem creations_cons (st : ScopeStep) (rest : List ScopeStep) :
    creations (st :: rest) = creations rest + if st.creates then 1 else 0 :=
  List.countP_cons

/-- A list with one more element at its end is cut in two at that element or before it. -/
theorem concat_eq_append_cons_iff {α : Type} {as before after : List α} {a b : α} :
    as ++ [a] = before ++ b :: after ↔
      (as = before ∧ a = b ∧ after = []) ∨ ∃ mid, as = before ++ b :: mid ∧ after = mid ++ [a] := by
  constructor
  · intro h
    rcases List.eq_nil_or_concat after with rfl | ⟨mid, c, rfl⟩
    · obtain ⟨h₁, h₂⟩ := List.append_inj' h rfl
      exact Or.inl ⟨h₁, List.singleton_inj.1 h₂, rfl⟩
    · have hcut : as ++ [a] = (before ++ b :: mid) ++ [c] := by simpa using h
      obtain ⟨h₁, h₂⟩ := List.append_inj' hcut rfl
      obtain rfl := List.singleton_inj.1 h₂
      exact Or.inr ⟨mid, h₁, List.concat_eq_append⟩
  · rintro (⟨rfl, rfl, rfl⟩ | ⟨mid, rfl, rfl⟩)
    · rfl
    · simp

theorem boundIn_append_iff {first second : List ScopeStep} :
    BoundIn (first ++ second) handles scope name ↔
      BoundIn first handles scope name ∨ BoundIn second handles scope name := by
  constructor
  · rintro ⟨handle, value, hmem, hscope⟩
    exact (List.mem_append.1 hmem).imp (⟨handle, value, ·, hscope⟩) (⟨handle, value, ·, hscope⟩)
  · rintro (⟨handle, value, hmem, hscope⟩ | ⟨handle, value, hmem, hscope⟩)
    · exact ⟨handle, value, List.mem_append_left _ hmem, hscope⟩
    · exact ⟨handle, value, List.mem_append_right _ hmem, hscope⟩

theorem boundIn_singleton_iff {handle : Nat} {bound : String} :
    BoundIn [.bind handle bound value] handles scope name ↔
      name = bound ∧ handles[handle]? = some scope := by
  constructor
  · rintro ⟨used, value, hmem, hscope⟩
    cases List.mem_singleton.1 hmem
    exact ⟨rfl, hscope⟩
  · rintro ⟨rfl, hscope⟩
    exact ⟨handle, value, List.mem_singleton_self _, hscope⟩

/-- What was bound last, after one more step. -/
theorem lastBound_concat_iff : LastBound (steps ++ [st]) handles scope name value ↔
    (∃ handle, st = .bind handle name value ∧ handles[handle]? = some scope) ∨
      ¬BoundIn [st] handles scope name ∧ LastBound steps handles scope name value := by
  constructor
  · rintro ⟨before, handle, after, hsteps, hscope, hlast⟩
    rcases concat_eq_append_cons_iff.1 hsteps with ⟨-, rfl, -⟩ | ⟨mid, rfl, rfl⟩
    · exact Or.inl ⟨handle, rfl, hscope⟩
    · rw [boundIn_append_iff, not_or] at hlast
      exact Or.inr ⟨hlast.2, before, handle, mid, rfl, hscope, hlast.1⟩
  · rintro (⟨handle, rfl, hscope⟩ | ⟨hst, before, handle, after, rfl, hscope, hlast⟩)
    · exact ⟨steps, handle, [], rfl, hscope, fun ⟨_, _, hmem, _⟩ => nomatch hmem⟩
    · refine ⟨before, handle, after ++ [st], by simp, hscope, ?_⟩
      rw [boundIn_append_iff, not_or]
      exact ⟨hlast, hst⟩

theorem createdIn_concat_iff : CreatedIn (steps ++ [st]) handles scope outer ↔
    (∃ handle, st = .enclose handle ∧ creations steps = scope ∧ handles[handle]? = some outer) ∨
      CreatedIn steps handles scope outer := by
  constructor
  · rintro ⟨before, handle, after, hsteps, hcount, houter⟩
    rcases concat_eq_append_cons_iff.1 hsteps with ⟨rfl, rfl, -⟩ | ⟨mid, rfl, -⟩
    · exact Or.inl ⟨handle, rfl, hcount, houter⟩
    · exact Or.inr ⟨before, handle, mid, rfl, hcount, houter⟩
  · rintro (⟨handle, rfl, hcount, houter⟩ | ⟨before, handle, after, rfl, hcount, houter⟩)
    · exact ⟨steps, handle, [], rfl, hcount, houter⟩
    · exact ⟨before, handle, after ++ [st], by simp, hcount, houter⟩

theorem createdAlone_concat_iff : CreatedAlone (steps ++ [st]) scope ↔
    (st = .create ∧ creations steps = scope) ∨ CreatedAlone steps scope := by
  constructor
  · rintro ⟨before, after, hsteps, hcount⟩
    rcases concat_eq_append_cons_iff.1 hsteps with ⟨rfl, rfl, -⟩ | ⟨mid, rfl, -⟩
    · exact Or.inl ⟨rfl, hcount⟩
    · exact Or.inr ⟨before, mid, rfl, hcount⟩
  · rintro (⟨rfl, hcount⟩ | ⟨before, after, rfl, hcount⟩)
    · exact ⟨steps, [], rfl, hcount⟩
    · exact ⟨before, after ++ [st], by simp, hcount⟩

/-- A name was bound in a scope exactly if one of the steps that bind it there is the last one. -/
theorem boundIn_iff_exists_lastBound :
    BoundIn steps handles scope name ↔ ∃ value, LastBound steps handles scope name value := by
  induction steps using List.reverseRecOn with
  | nil =>
    constructor
    · rintro ⟨handle, value, hmem, -⟩
      cases hmem
    · rintro ⟨value, before, handle, after, hsteps, -⟩
      cases List.append_eq_nil_iff.1 hsteps.symm |>.2
  | append_singleton steps st ih =>
    rw [boundIn_append_iff, ih]
    simp only [lastBound_concat_iff, exists_or, exists_and_left]
    -- the last step binds the name, or leaves it as it was bound before
    by_cases hst : BoundIn [st] handles scope name
    · obtain ⟨handle, value, hmem, hscope⟩ := hst
      have hlast := List.mem_singleton.1 hmem
      exact iff_of_true (Or.inr ⟨handle, value, hmem, hscope⟩)
        (Or.inl ⟨value, handle, hlast.symm, hscope⟩)
    · rw [or_iff_left hst]
      refine ⟨fun h => Or.inr ⟨hst, h⟩, ?_⟩
      rintro (⟨value, handle, rfl, hscope⟩ | h)
      · exact absurd ⟨handle, value, List.mem_singleton_self _, hscope⟩ hst
      · exact h.2

/-! Handles that are given out later do not matter. -/

/-- The steps are taken through handles that have been given out. -/
def HandlesKnown (steps : List ScopeStep) (handles : List Nat) : Prop :=
  ∀ st ∈ steps, ∀ handle, st.handle? = some handle → handle < handles.length

theorem HandlesKnown.boundIn_iff (h : HandlesKnown steps handles) (more : List Nat) :
    BoundIn steps (handles ++ more) scope name ↔ BoundIn steps handles scope name := by
  refine exists_congr fun handle => exists_congr fun value => and_congr_right fun hmem => ?_
  rw [List.getElem?_append_left (h _ hmem handle rfl)]

theorem HandlesKnown.lastBound_iff (h : HandlesKnown steps handles) (more : List Nat) :
    LastBound steps (handles ++ more) scope name value ↔
      LastBound steps handles scope name value := by
  refine exists_congr fun before => exists_congr fun handle => exists_congr fun after =>
    and_congr_right fun hsteps => ?_
  have hafter : HandlesKnown after handles := fun st hst => h st (by simp [hsteps, hst])
  rw [List.getElem?_append_left (h (.bind handle name value) (by simp [hsteps]) handle rfl),
    hafter.boundIn_iff]

theorem HandlesKnown.createdIn_iff (h : HandlesKnown steps handles) (more : List Nat) :
    CreatedIn steps (handles ++ more) scope outer ↔ CreatedIn steps handles scope outer := by
  refine exists_congr fun before => exists_congr fun handle => exists_congr fun after =>
    and_congr_right fun hsteps => and_congr_right fun _ => ?_
  rw [List.getElem?_append_left (h (.enclose handle) (by simp [hsteps]) handle rfl)]

end

/-! ### Looking names up -/

namespace Scopes

variable {s : Scopes} {name : String}

/-- Looking a name up in a scope comes to a result in so many rounds.  A round looks at what the
scope itself binds and goes on in the scope around it. -/
inductive Lookup (s : Scopes) (name : String) : Nat → Nat → Option Value → Prop
  | found {id : Nat} {v : Value} :
    (s.bindings id).find? name = some v → Lookup s name id 1 (some v)
  | nowhere {id : Nat} :
    (s.bindings id).find? name = none → s.outer? id = none → Lookup s name id 1 none
  | outward {id outer rounds : Nat} {result : Option Value} :
    (s.bindings id).find? name = none → s.outer? id = some outer →
      Lookup s name outer rounds result → Lookup s name id (rounds + 1) result

end Scopes

/-! ### The store agrees with the steps -/

namespace HeldScopes

/-- The scopes and handles are those that the steps lead to. -/
structure Records (steps : List ScopeStep) (c : HeldScopes) : Prop where
  size_eq : c.scopes.size = creations steps
  handles_lt : ∀ {handle id : Nat}, c.handles[handle]? = some id → id < c.scopes.size
  known : HandlesKnown steps c.handles
  bound_iff : ∀ {id : Nat} {name : String} {v : Value},
    (c.scopes.bindings id).find? name = some v ↔ LastBound steps c.handles id name v
  outer_iff : ∀ {id outer : Nat},
    c.scopes.outer? id = some outer ↔ CreatedIn steps c.handles id outer
  alone_iff : ∀ {id : Nat},
    id < c.scopes.size ∧ c.scopes.outer? id = none ↔ CreatedAlone steps id

namespace Records

variable {steps : List ScopeStep} {c d : HeldScopes}

theorem start : Records [] start where
  size_eq := rfl
  handles_lt h := nomatch h
  known _ hmem := nomatch hmem
  bound_iff {id name v} := by
    refine iff_of_false (fun h => nomatch h) ?_
    rintro ⟨before, handle, after, hsteps, -⟩
    simp at hsteps
  outer_iff {id outer} := by
    refine iff_of_false (fun h => nomatch h) ?_
    rintro ⟨before, handle, after, hsteps, -⟩
    simp at hsteps
  alone_iff {id} := by
    refine iff_of_false (fun h => nomatch h.1) ?_
    rintro ⟨before, after, hsteps, -⟩
    simp at hsteps

/-- A handle more leads to one of the scopes. -/
theorem handles_lt_append (h : Records steps c) {size : Nat} (hle : c.scopes.size ≤ size)
    {new : Nat} (hnew : new < size) {handle id : Nat}
    (hid : (c.handles ++ [new])[handle]? = some id) : id < size := by
  rw [List.getElem?_append] at hid
  split at hid
  · exact Nat.lt_of_lt_of_le (h.handles_lt hid) hle
  · rw [List.getElem?_singleton] at hid
    split at hid
    · cases hid
      exact hnew
    · cases hid

theorem known_concat (h : Records steps c) (st : ScopeStep)
    (hst : ∀ handle, st.handle? = some handle → handle < c.handles.length) (more : List Nat) :
    HandlesKnown (steps ++ [st]) (c.handles ++ more) := by
  intro st' hmem handle hhandle
  rw [List.length_append]
  rcases List.mem_append.1 hmem with hmem | hmem
  · exact Nat.lt_add_right _ (h.known st' hmem handle hhandle)
  · obtain rfl := List.mem_singleton.1 hmem
    exact Nat.lt_add_right _ (hst handle hhandle)

/-- A step that binds nothing leaves what was bound. -/
theorem bound_iff_concat (h : Records steps c) (st : ScopeStep)
    (hst : ∀ handle name value, st ≠ .bind handle name value) (more : List Nat) {id : Nat}
    {name : String} {v : Value} :
    (c.scopes.bindings id).find? name = some v ↔
      LastBound (steps ++ [st]) (c.handles ++ more) id name v := by
  have hnot : ¬BoundIn [st] (c.handles ++ more) id name := by
    rintro ⟨handle, value, hmem, -⟩
    exact hst handle name value (List.mem_singleton.1 hmem).symm
  rw [lastBound_concat_iff, h.known.lastBound_iff, ← h.bound_iff, and_iff_right hnot]
  exact (or_iff_right fun ⟨handle, heq, _⟩ => hst handle name v heq).symm

/-- A step that encloses nothing leaves what lies in what. -/
theorem createdIn_concat (h : Records steps c) (st : ScopeStep)
    (hst : ∀ handle, st ≠ .enclose handle) (more : List Nat) {id outer : Nat} :
    CreatedIn (steps ++ [st]) (c.handles ++ more) id outer ↔ c.scopes.outer? id = some outer := by
  rw [createdIn_concat_iff, h.known.createdIn_iff, ← h.outer_iff]
  exact or_iff_right fun ⟨handle, heq, _⟩ => hst handle heq

theorem createdAlone_concat (h : Records steps c) (st : ScopeStep) (hst : st ≠ .create)
    {id : Nat} :
    CreatedAlone (steps ++ [st]) id ↔ id < c.scopes.size ∧ c.scopes.outer? id = none := by
  rw [createdAlone_concat_iff, ← h.alone_iff]
  exact or_iff_right fun heq => hst heq.1

theorem create (h : Records steps c) :
    Records (steps ++ [.create]) ⟨c.scopes.add none, c.handles ++ [c.scopes.size]⟩ := by
  -- the new scope has none around it, as was so before it was there
  have hnone : c.scopes.outer? c.scopes.size = none := by
    rw [Scopes.outer?, c.scopes.get?_of_size_le (Nat.le_refl _), Option.bind_none]
  have houter : ∀ id, (c.scopes.add none).outer? id = c.scopes.outer? id := by
    intro id
    rw [Scopes.outer?_add]
    split
    · next hid => rw [hid, hnone, Option.filter_none]
    · rfl
  refine ⟨?_, ?_, ?_, ?_, ?_, ?_⟩
  · simp [h.size_eq, ScopeStep.creates]
  · intro handle id
    rw [Scopes.size_add]
    exact h.handles_lt_append (Nat.le_succ _) (Nat.lt_succ_self _)
  · exact h.known_concat .create (by simp [ScopeStep.handle?]) _
  · intro id name v
    rw [Scopes.bindings_add]
    exact h.bound_iff_concat .create (by simp) _
  · intro id outer
    rw [houter, h.createdIn_concat .create (by simp)]
  · intro id
    rw [houter, Scopes.size_add, createdAlone_concat_iff, ← h.alone_iff, ← h.size_eq,
      Nat.lt_succ_iff_lt_or_eq, or_and_right, or_comm]
    refine or_congr_left ⟨fun hid => ⟨rfl, hid.1.symm⟩, fun hid => ⟨hid.2.symm, ?_⟩⟩
    rw [← hid.2, hnone]

theorem enclose (h : Records steps c) {handle id : Nat} (hid : c.handles[handle]? = some id) :
    Records (steps ++ [.enclose handle])
      ⟨c.scopes.add (some id), c.handles ++ [c.scopes.size]⟩ := by
  have hlt : id < c.scopes.size := h.handles_lt hid
  have hhandle : handle < c.handles.length := (List.getElem?_eq_some_iff.1 hid).1
  have houter : ∀ other, (c.scopes.add (some id)).outer? other =
      if other = c.scopes.size then some id else c.scopes.outer? other := by
    intro other
    rw [Scopes.outer?_add, Option.filter_some, if_pos (decide_eq_true hlt)]
  refine ⟨?_, ?_, ?_, ?_, ?_, ?_⟩
  · simp [h.size_eq, ScopeStep.creates]
  · intro handle id
    rw [Scopes.size_add]
    exact h.handles_lt_append (Nat.le_succ _) (Nat.lt_succ_self _)
  · exact h.known_concat (.enclose handle) (fun _ heq => by cases heq; exact hhandle) _
  · intro id name v
    rw [Scopes.bindings_add]
    exact h.bound_iff_concat (.enclose handle) (by simp) _
  -- the new scope has the given one around it, and it had none before it was there
  · intro other outer
    have hnew : c.scopes.outer? c.scopes.size ≠ some outer := by
      simp [Scopes.outer?, c.scopes.get?_of_size_le (Nat.le_refl _)]
    rw [houter, createdIn_concat_iff, h.known.createdIn_iff, ← h.outer_iff, ← h.size_eq]
    split
    · next heq =>
      subst heq
      rw [or_iff_left hnew]
      constructor
      · rintro ⟨⟩
        exact ⟨handle, rfl, rfl, by rw [List.getElem?_append_left hhandle, hid]⟩
      · rintro ⟨_, ⟨⟩, -, houter⟩
        rwa [List.getElem?_append_left hhandle, hid] at houter
    · next hne =>
      refine (or_iff_right ?_).symm
      rintro ⟨_, _, heq, -⟩
      exact hne heq.symm
  · intro other
    rw [h.createdAlone_concat (.enclose handle) (by simp), houter, Scopes.size_add]
    split
    · next heq => simp [heq]
    · next hne => rw [Nat.lt_succ_iff_lt_or_eq, or_iff_left hne]

theorem share (h : Records steps c) {handle id : Nat} (hid : c.handles[handle]? = some id) :
    Records (steps ++ [.share handle]) ⟨c.scopes, c.handles ++ [id]⟩ := by
  have hhandle : handle < c.handles.length := (List.getElem?_eq_some_iff.1 hid).1
  refine ⟨?_, ?_, ?_, ?_, ?_, ?_⟩
  · simp [h.size_eq, ScopeStep.creates]
  · intro other id
    exact h.handles_lt_append (Nat.le_refl _) (h.handles_lt hid)
  · exact h.known_concat (.share handle) (fun _ heq => by cases heq; exact hhandle) _
  · intro id name v
    exact h.bound_iff_concat (.share handle) (by simp) _
  · intro id outer
    rw [h.createdIn_concat (.share handle) (by simp)]
  · intro id
    rw [h.createdAlone_concat (.share handle) (by simp)]

theorem bind (h : Records steps c) {handle id : Nat} (hid : c.handles[handle]? = some id)
    (name : String) (v : Value) :
    Records (steps ++ [.bind handle name v]) ⟨c.scopes.set id name v, c.handles⟩ := by
  have hlt : id < c.scopes.size := h.handles_lt hid
  have hhandle : handle < c.handles.length := (List.getElem?_eq_some_iff.1 hid).1
  refine ⟨?_, ?_, ?_, ?_, ?_, ?_⟩
  · simp [h.size_eq, ScopeStep.creates]
  · intro other scope
    rw [Scopes.size_set]
    exact h.handles_lt
  · have hknown := h.known_concat (.bind handle name v)
      (fun _ heq => by cases heq; exact hhandle) []
    rwa [List.append_nil] at hknown
  · intro scope other w
    -- the step binds one name in one scope
    have hbound : BoundIn [.bind handle name v] c.handles scope other ↔
        scope = id ∧ other = name := by
      rw [boundIn_singleton_iff, hid, Option.some_inj, eq_comm, and_comm, eq_comm]
    have hlast : (∃ used, ScopeStep.bind handle name v = .bind used other w ∧
        c.handles[used]? = some scope) ↔ (scope = id ∧ other = name) ∧ v = w := by
      constructor
      · rintro ⟨_, ⟨⟩, hscope⟩
        exact ⟨⟨Option.some_inj.1 (hscope.symm.trans hid), rfl⟩, rfl⟩
      · rintro ⟨⟨rfl, rfl⟩, rfl⟩
        exact ⟨handle, rfl, hid⟩
    rw [lastBound_concat_iff, ← h.bound_iff, Scopes.bindings_set, hbound, hlast]
    -- only that name in that scope has another value than before
    by_cases hscope : scope = id
    · subst hscope
      rw [if_pos ⟨rfl, hlt⟩, Bindings.find?_set]
      by_cases hname : other = name <;> simp [hname]
    · simp [hscope]
  · intro scope outer
    have hcreated : CreatedIn (steps ++ [.bind handle name v]) (c.handles ++ []) scope outer ↔ _ :=
      h.createdIn_concat (.bind handle name v) (by simp) []
    rw [List.append_nil] at hcreated
    rw [Scopes.outer?_set, hcreated]
  · intro scope
    rw [h.createdAlone_concat (.bind handle name v) (by simp), Scopes.size_set, Scopes.outer?_set]

theorem step (h : Records steps c) {st : ScopeStep} (hstep : c.step st = some d) :
    Records (steps ++ [st]) d := by
  cases st with
  | create =>
    cases hstep
    exact h.create
  | enclose handle =>
    obtain ⟨id, hid, rfl⟩ := Option.map_eq_some_iff.1 hstep
    exact h.enclose hid
  | share handle =>
    obtain ⟨id, hid, rfl⟩ := Option.map_eq_some_iff.1 hstep
    exact h.share hid
  | bind handle name v =>
    obtain ⟨id, hid, rfl⟩ := Option.map_eq_some_iff.1 hstep
    exact h.bind hid name v

theorem run (h : Records steps c) {more : List ScopeStep} (hrun : c.run more = some d) :
    Records (steps ++ more) d := by
  induction more generalizing steps c with
  | nil =>
    cases hrun
    rwa [List.append_nil]
  | cons st rest ih =>
    obtain ⟨e, hstep, hrun⟩ := Option.bind_eq_some_iff.1 hrun
    rw [List.append_cons]
    exact ih (h.step hstep) hrun

/-- The store agrees with the steps on every scope. -/
theorem of_run (hrun : HeldScopes.start.run steps = some c) : Records steps c := start.run hrun

/-- Every scope has a chain around it, of scopes that were created earlier and earlier. -/
theorem exists_chain (h : Records steps c) {id : Nat} (hid : id < c.scopes.size) :
    ∃ chain, ScopeChain steps c.handles id chain ∧ chain.Pairwise (· > ·) ∧
      ∀ scope ∈ chain, scope ≤ id := by
  induction id using Nat.strongRecOn with
  | _ id ih =>
    cases houter : c.scopes.outer? id with
    | none =>
      exact ⟨[id], .outermost (h.alone_iff.1 ⟨hid, houter⟩), List.pairwise_singleton _ _, by simp⟩
    | some outer =>
      -- a scope is younger than the one around it, so that the chain ends
      have hlt : outer < id := c.scopes.outer?_lt houter
      obtain ⟨chain, hchain, hsorted, hle⟩ := ih outer hlt (Nat.lt_trans hlt hid)
      refine ⟨id :: chain, .inside (h.outer_iff.1 houter) hchain, ?_, ?_⟩
      · have hearlier : ∀ scope ∈ chain, scope < id := fun scope hmem =>
          Nat.lt_of_le_of_lt (hle scope hmem) hlt
        exact List.pairwise_cons.2 ⟨hearlier, hsorted⟩
      · intro scope hmem
        rcases List.mem_cons.1 hmem with rfl | hmem
        · exact Nat.le_refl _
        · exact Nat.le_of_lt (Nat.lt_of_le_of_lt (hle scope hmem) hlt)

/-- The value that a name has in a scope is the one that the nearest scope of the chain binds it
to. -/
theorem find?_eq_findSome? (h : Records steps c) {id : Nat} {chain : List Nat}
    (hchain : ScopeChain steps c.handles id chain) (name : String) :
    c.scopes.find? id name = chain.findSome? fun scope => (c.scopes.bindings scope).find? name := by
  induction hchain with
  | outermost halone =>
    rw [Scopes.find?_eq_or, (h.alone_iff.2 halone).2, Option.bind_none, Option.or_none,
      List.findSome?_singleton]
  | inside hcreated _ ih =>
    rw [Scopes.find?_eq_or, h.outer_iff.2 hcreated, Option.bind_some, ih, List.findSome?_cons]
    cases (c.scopes.bindings _).find? name <;> rfl

/-- A name is unbound in a scope exactly if no step bound it there. -/
theorem unbound_iff (h : Records steps c) {id : Nat} {name : String} :
    (c.scopes.bindings id).find? name = none ↔ ¬BoundIn steps c.handles id name := by
  rw [boundIn_iff_exists_lastBound, not_exists, Option.eq_none_iff_forall_ne_some]
  exact forall_congr' fun v => not_congr h.bound_iff

/-- Looking a name up ends, after a round for each scope of the chain at most. -/
theorem lookup (h : Records steps c) {id : Nat} {chain : List Nat}
    (hchain : ScopeChain steps c.handles id chain) (name : String) :
    ∃ rounds ≤ chain.length, c.scopes.Lookup name id rounds (c.scopes.find? id name) := by
  induction hchain with
  | @outermost id halone =>
    refine ⟨1, Nat.le_refl _, ?_⟩
    have hnone := (h.alone_iff.2 halone).2
    rw [Scopes.find?_eq_or, hnone, Option.bind_none, Option.or_none]
    cases hbound : (c.scopes.bindings id).find? name with
    | some v => exact .found hbound
    | none => exact .nowhere hbound hnone
  | @inside id outer rest hcreated _ ih =>
    obtain ⟨rounds, hle, houtward⟩ := ih
    -- what is not bound here is looked up in the scope around
    have hinside := h.outer_iff.2 hcreated
    rw [Scopes.find?_eq_or, hinside, Option.bind_some]
    cases hbound : (c.scopes.bindings id).find? name with
    | some v => exact ⟨1, Nat.le_add_left 1 _, .found hbound⟩
    | none => exact ⟨rounds + 1, Nat.succ_le_succ hle, .outward hbound hinside houtward⟩

/-- A step keeps where the handles lead that were given out, and what lies around the scopes
there. -/
theorem kept_step (h : Records steps c) {st : ScopeStep} {d : HeldScopes}
    (hstep : c.step st = some d) {handle id : Nat} (hid : c.handles[handle]? = some id) :
    d.handles[handle]? = some id ∧ d.scopes.outer? id = c.scopes.outer? id := by
  have hne : id ≠ c.scopes.size := Nat.ne_of_lt (h.handles_lt hid)
  -- new handles come behind the old ones
  have hold : ∀ more, (c.handles ++ more)[handle]? = some id := fun more => by
    rw [List.getElem?_append_left (List.getElem?_eq_some_iff.1 hid).1, hid]
  cases st with
  | create =>
    cases hstep
    exact ⟨hold _, by rw [Scopes.outer?_add, if_neg hne]⟩
  | enclose =>
    obtain ⟨outer, -, rfl⟩ := Option.map_eq_some_iff.1 hstep
    exact ⟨hold _, by rw [Scopes.outer?_add, if_neg hne]⟩
  | share =>
    obtain ⟨shared, -, rfl⟩ := Option.map_eq_some_iff.1 hstep
    exact ⟨hold _, rfl⟩
  | bind =>
    obtain ⟨bound, -, rfl⟩ := Option.map_eq_some_iff.1 hstep
    exact ⟨hid, c.scopes.outer?_set ..⟩

theorem kept (h : Records steps c) {more : List ScopeStep} {d : HeldScopes}
    (hrun : c.run more = some d) {handle id : Nat} (hid : c.handles[handle]? = some id) :
    d.handles[handle]? = some id ∧ d.scopes.outer? id = c.scopes.outer? id := by
  induction more generalizing steps c with
  | nil =>
    cases hrun
    exact ⟨hid, rfl⟩
  | cons st rest ih =>
    obtain ⟨e, hstep, hrun⟩ := Option.bind_eq_some_iff.1 hrun
    obtain ⟨hhandle, houter⟩ := h.kept_step hstep hid
    rw [← houter]
    exact ih (h.step hstep) hrun hhandle

end Records

end HeldScopes

/-! ### Lexical scoping -/

/-- What lexical scoping says after some steps of a scope, given the chain around it. -/
structure LexicalAt (steps : List ScopeStep) (c : HeldScopes) (id : Nat) (chain : List Nat) :
    Prop where
  around : ScopeChain steps c.handles id chain
  /-- Every scope of the chain was created before the one inside it. -/
  created_earlier : chain.Pairwise (· > ·)
  lookup_ends : ∀ name, ∃ rounds ≤ chain.length,
    c.scopes.Lookup name id rounds (c.scopes.find? id name)
  find?_eq_some_iff : ∀ name v, c.scopes.find? id name = some v ↔
    ∃ inner scope outer, chain = inner ++ scope :: outer ∧
      (∀ nearer ∈ inner, ¬BoundIn steps c.handles nearer name) ∧
      LastBound steps c.handles scope name v
  find?_eq_none_iff : ∀ name, c.scopes.find? id name = none ↔
    ∀ scope ∈ chain, ¬BoundIn steps c.handles scope name
  bindsLocally_iff : ∀ name, c.scopes.bindsLocally id name ↔ BoundIn steps c.handles id name
  outer?_eq_some_iff : ∀ outer, c.scopes.outer? id = some outer ↔
    CreatedIn steps c.handles id outer
  outer?_eq_none_iff : c.scopes.outer? id = none ↔ CreatedAlone steps id

/-- The store answers as lexical scoping says for whatever scope a handle leads to; and whatever
steps follow, the handle leads there still, and the scope lies in the same one. -/
theorem scopes_are_lexical {steps : List ScopeStep} {c : HeldScopes}
    (hrun : HeldScopes.start.run steps = some c) {handle id : Nat}
    (hid : c.handles[handle]? = some id) :
    (∃ chain, LexicalAt steps c id chain) ∧
      ∀ more d, c.run more = some d →
        d.handles[handle]? = some id ∧ d.scopes.outer? id = c.scopes.outer? id := by
  have h := HeldScopes.Records.of_run hrun
  have hlt := h.handles_lt hid
  obtain ⟨chain, hchain, hsorted, -⟩ := h.exists_chain hlt
  -- each part is read off the record of the history
  refine ⟨⟨chain, ?_⟩, fun more d hmore => h.kept hmore hid⟩
  constructor
  case around => exact hchain
  case created_earlier => exact hsorted
  case lookup_ends => exact h.lookup hchain
  case find?_eq_some_iff =>
    intro name v
    rw [h.find?_eq_findSome? hchain, List.findSome?_eq_some_iff]
    simp only [h.bound_iff, h.unbound_iff, and_comm (a := LastBound _ _ _ _ _)]
  case find?_eq_none_iff =>
    intro name
    rw [h.find?_eq_findSome? hchain, List.findSome?_eq_none_iff]
    simp only [h.unbound_iff]
  case bindsLocally_iff =>
    intro name
    rw [Scopes.bindsLocally, Option.isSome_iff_ne_none, Ne, h.unbound_iff, not_not]
  case outer?_eq_some_iff => exact fun outer => h.outer_iff
  case outer?_eq_none_iff => rw [← h.alone_iff, and_iff_right hlt]

/-- Steps that bind a name in three scopes, two of them through several handles. -/
def sharedScopes : List ScopeStep :=
  [.create, .bind 0 "x" (.integer 1), .enclose 0, .share 0, .enclose 1, .bind 1 "x" (.integer 2),
    .bind 2 "y" (.integer 3), .share 1, .bind 4 "x" (.integer 4), .bind 0 "y" (.integer 5)]

theorem scopes_are_lexical_shared : ∃ c, HeldScopes.start.run sharedScopes = some c ∧
    c.handles[3]? = some 2 ∧ (∃ chain, LexicalAt sharedScopes c 2 chain) ∧
    (∀ more d, c.run more = some d →
      d.handles[3]? = some 2 ∧ d.scopes.outer? 2 = c.scopes.outer? 2) ∧
    c.scopes.find? 2 "x" = some (.integer 4) ∧ c.scopes.find? 2 "y" = some (.integer 5) := by
  obtain ⟨c, hrun, hid, hbound, hbound', hbound'', hinside, hinside'⟩ :
      ∃ c, HeldScopes.start.run sharedScopes = some c ∧ c.handles[3]? = some 2 ∧
        c.scopes.bindings 2 = [] ∧ c.scopes.bindings 1 = [("x", .integer 4)] ∧
        c.scopes.bindings 0 = [("x", .integer 1), ("y", .integer 5)] ∧
        c.scopes.outer? 2 = some 1 ∧ c.scopes.outer? 1 = some 0 :=
    ⟨_, rfl, rfl, rfl, rfl, rfl, rfl, rfl⟩
  obtain ⟨hlexical, hkept⟩ := scopes_are_lexical hrun hid
  refine ⟨c, hrun, hid, hlexical, hkept, ?_, ?_⟩
  · rw [Scopes.find?_eq_or, hbound, hinside, Option.bind_some, Scopes.find?_eq_or, hbound']
    rfl
  · rw [Scopes.find?_eq_or, hbound, hinside, Option.bind_some, Scopes.find?_eq_or, hbound',
      hinside', Option.bind_some, Scopes.find?_eq_or, hbound'']
    rfl

end Monkey
