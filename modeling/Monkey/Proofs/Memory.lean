import Monkey.Proofs.Expanding
import Monkey.Session

/-!
# One value at each address

An address is given out once, and at most one value is made of it.  So whatever turns up in a run
with that address is that value, with the same contents, and two values that are identical are the
same.  Of two arrays with one address the language need not look at the elements.

## Main definitions

* `Memory` — what was made at each address.
* `Value.LivesIn`, `State.LivesIn` — values and states in which every address stands for what was
  made there.
* `Ledger.memory` — the ledger in which it is written down.

## Main results

* `Value.LivesIn.eq_of_identical` — **identical values of one memory are the same.**
* `State.LivesIn.evaluate` — **evaluation adds to the memory**, and what it gives lives there.
* `evalSource_keeps`, `Session.livesIn_run` — **so does reading sources**, one after another.
-/

namespace Monkey

/-- For each address the value that was made there, if one was. -/
def Memory : Type := Nat → Option Value

namespace Memory

/-- Nothing was made. -/
def empty : Memory := fun _ => none

/-- A value was made at an address. -/
def record (m : Memory) (addr : Nat) (v : Value) : Memory :=
  fun other => if other = addr then some v else m other

/-- Whatever was made was made for good. -/
instance : Preorder Memory where
  le m m' := ∀ addr v, m addr = some v → m' addr = some v
  le_refl _ _ _ := id
  le_trans _ _ _ hmn hnk addr v h := hnk addr v (hmn addr v h)

variable {m m' : Memory} {addr : Nat} {v : Value}

theorem eq_some_of_le (hle : m ≤ m') (h : m addr = some v) : m' addr = some v := hle addr v h

theorem record_self (m : Memory) (addr : Nat) (v : Value) : m.record addr v addr = some v :=
  if_pos rfl

theorem record_of_ne (m : Memory) {addr other : Nat} (h : other ≠ addr) (v : Value) :
    m.record addr v other = m other :=
  if_neg h

/-- Nothing is lost, if nothing was made at the address before. -/
theorem le_record (h : m addr = none) (v : Value) : m ≤ m.record addr v := by
  intro other w hw
  have hne : other ≠ addr := by
    rintro rfl
    rw [h] at hw
    cases hw
  rwa [record_of_ne m hne]

end Memory

/-- The value is what was made at its address, if it has one, and so is everything inside it. -/
def Value.LivesIn (m : Memory) (v : Value) : Prop :=
  v.All fun w => ∀ addr, w.addr? = some addr → m addr = some w

/-- Whatever is stored lives in the memory, which has nothing yet at the addresses that are still
free.  The registry is one as it comes about. -/
structure State.LivesIn (m : Memory) (s : State) : Prop where
  registry : s.tasks.Valid
  free : ∀ addr, s.nextAddress ≤ addr → m addr = none
  stores : s.Stores (Value.LivesIn m)

/-- It is written down what is made at each address. -/
def Ledger.memory : Ledger where
  Record := Memory
  Counts m e := ∀ addr, e.addresses ≤ addr → m addr = none
  Knows _ _ := True
  Made m addr v := m addr = some v
  Own m v := ∀ addr, v.addr? = some addr → m addr = some v
  knows_mono _ _ := trivial
  own_mono hle hv addr haddr := Memory.eq_some_of_le hle (hv addr haddr)
  own_of_addr?_eq_none h addr haddr := by
    rw [h] at haddr
    cases haddr
  own_of_made hmade h _ addr haddr := by
    rw [h, Option.some.injEq] at haddr
    exact haddr ▸ hmade
  fresh {m e} v hcounts := by
    refine ⟨m.record e.addresses v, Memory.le_record (hcounts _ (Nat.le_refl _)) v,
      fun addr hle => ?_, m.record_self e.addresses v⟩
    rw [m.record_of_ne (Nat.ne_of_gt hle)]
    exact hcounts addr (Nat.le_of_succ_le hle)
  newScope {m _} h := ⟨m, le_refl m, h, trivial⟩
  registerTask {m _} h := ⟨m, le_refl m, h⟩

theorem State.livesIn_iff {m : Memory} {s : State} :
    s.LivesIn m ↔ Ledger.memory.Describes m s :=
  ⟨fun h => ⟨h.registry, h.free, h.stores⟩, fun h => ⟨h.registry, h.counts, h.stores⟩⟩

section

variable {m m' : Memory} {v w : Value}

theorem Value.LivesIn.mono (h : v.LivesIn m) (hle : m ≤ m') : v.LivesIn m' :=
  Ledger.Fits.mono (L := .memory) h hle

/-- Identical values have the same address, if they have one. -/
theorem Value.addr?_eq_of_identical (h : v.identical w = true) : v.addr? = w.addr? := by
  cases v <;> cases w <;> simp_all [Value.identical, Value.addr?]

/-- Of values without an address, identical ones are the same. -/
theorem Value.eq_of_identical_of_addr?_eq_none (h : v.identical w = true) (hv : v.addr? = none) :
    v = w := by
  cases v <;> cases w <;> simp_all [Value.identical, Value.addr?]

/-- **Identical values of one memory are the same.** -/
theorem Value.LivesIn.eq_of_identical (hv : v.LivesIn m) (hw : w.LivesIn m)
    (h : v.identical w = true) : v = w := by
  cases haddr : v.addr? with
  | none => exact eq_of_identical_of_addr?_eq_none h haddr
  | some addr =>
    -- both are what was made at the address
    have hva := hv v .self addr haddr
    have hwa := hw w .self addr ((addr?_eq_of_identical h).symm.trans haddr)
    exact Option.some.inj (hva.symm.trans hwa)

end

/-! ### Evaluation -/

namespace State.LivesIn

variable {m : Memory} {s t : State} {v : Value} {budget scope : Nat}

/-- **Evaluation adds to the memory**, and what it gives lives there. -/
theorem evaluate (hs : s.LivesIn m) {e : Expr}
    (hrun : Monkey.evaluate budget e scope s = some (v, t)) :
    ∃ m', m ≤ m' ∧ t.LivesIn m' ∧ v.LivesIn m' := by
  obtain ⟨-, m', hle, ht, hv⟩ := Ledger.memory.evaluate_keeps budget m e scope trivial
    m s v t (le_refl m) (livesIn_iff.1 hs) hrun
  exact ⟨m', hle, livesIn_iff.2 ht, hv⟩

end State.LivesIn

/-! ### Sources -/

/-- What reading a source gives is in order, if it is a value. -/
def Ledger.ReplyFits (L : Ledger) (r : L.Record) (reply : Except SessionError (Option Value)) :
    Prop :=
  ∀ v, reply = .ok (some v) → L.Fits r v

/-- **Reading a source keeps to every ledger.** -/
theorem evalSource_keeps {L : Ledger} {r : L.Record} {globals macros : Nat}
    (hglobals : L.Knows r globals) (hmacros : L.Knows r macros) (budget : Nat) (source : String) :
    L.Keeps r L.ReplyFits (evalSource budget globals macros source) := by
  have hnothing : ∀ {b : L.Record} {reply : Except SessionError (Option Value)},
      (∀ v, reply ≠ .ok (some v)) → L.Keeps b L.ReplyFits (pure reply) :=
    fun hreply => .pure fun _ _ v hv => absurd hv (hreply v)
  unfold evalSource evalSourceOn
  split
  · exact hnothing nofun
  · next p _ =>
    -- the macros are defined and expanded in later and later records
    have hdefine : L.Keeps r (fun _ _ => True) (defineMacros macros p) :=
      .bind (bindMacros_keeps _ hmacros) fun _ _ _ _ => .pure fun _ _ => trivial
    refine .bind hdefine fun b q hrb _ => ?_
    refine .bind (expandMacros_keeps (L.evaluate_keeps budget) q) fun c expanded hbc _ => ?_
    split
    · exact hnothing nofun
    · exact hnothing nofun
    · next program _ =>
      have hscope : L.Knows c globals := L.knows_mono (le_trans hrb hbc) hglobals
      have hprogram : L.Keeps c L.Fits (runProgram budget program globals) :=
        Ledger.evalProgram_keeps (L.evaluate_keeps budget) hscope program
      refine .bind hprogram fun d v _ hv => .pure fun e hde w hw => ?_
      cases hw
      exact hv.mono hde

namespace Session

/-- Nothing was made before anything was read. -/
theorem livesIn_start (maxCallDepth : Nat) (output : Output) :
    (start maxCallDepth output).state.LivesIn .empty :=
  ⟨Tasks.valid_empty, fun _ _ => rfl,
    ((State.stores_start _ maxCallDepth output).newScope none).newScope none⟩

/-- **Reading a source adds to the memory**, and the value that it gives lives there. -/
theorem livesIn_run {m : Memory} {σ τ : Session} {budget : Nat} {source : String}
    {reply : Except SessionError (Option Value)} (hσ : σ.state.LivesIn m)
    (hrun : σ.run budget source = some (reply, τ)) :
    ∃ m', m ≤ m' ∧ τ.state.LivesIn m' ∧ ∀ v, reply = .ok (some v) → v.LivesIn m' := by
  unfold run at hrun
  split at hrun
  · next reply' t heval =>
    cases hrun
    obtain ⟨-, m', hle, ht, hreply⟩ := evalSource_keeps (L := .memory) trivial trivial budget source
      m σ.state reply t (le_refl m) (State.livesIn_iff.1 hσ) heval
    exact ⟨m', hle, State.livesIn_iff.2 ht, hreply⟩
  · cases hrun

end Session

end Monkey
