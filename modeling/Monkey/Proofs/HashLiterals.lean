import Mathlib.Data.List.Induction
import Mathlib.Data.List.Nodup
import Monkey.Proofs.KeyOrder
import Monkey.Proofs.Runs

/-!
# Hash literals

The entries that a hash literal makes of its pairs are a finite map.  Every key among the pairs has
one entry, with the value of the last pair for it, and the entries stand in the order of keys.  That
determines them, so where no key occurs twice the order of the pairs makes no difference.

## Main definitions

* `Value.HasKey` — which values are keys.
* `Entries.ofPairs`, `Entries.Latest` — the entries made of pairs, and the last pair for a key.
* `YieldsPairs` — the expressions in a literal evaluate to keys and values.

## Main results

* `Entries.mem_ofPairs_iff` — the entries are the last pairs for each key.
* `Entries.Sorted.ext` — what is stored under each key determines the entries.
* `evaluate_hash` — a literal evaluates to the entries made of its pairs.
* `hash_literals_are_maps` — **hash literals are finite maps.**
-/

namespace Monkey

open Eval

/-! ### Entries as maps -/

namespace Entries

variable {α : Type} {key : HashKey} {value : α} {entries entries' pairs pairs' : Entries α}

/-- Keys in strictly increasing order are different from one another. -/
theorem Sorted.nodup_keys (h : Sorted entries) : (entries.map Prod.fst).Nodup := by
  rw [List.Nodup, List.pairwise_map]
  refine h.imp fun hbefore heq => ?_
  rw [heq, HashKey.before_irrefl] at hbefore
  cases hbefore

theorem Sorted.insert (h : Sorted entries) (key : HashKey) (value : α) :
    Sorted (insert key value entries) := by
  induction entries with
  | nil => exact List.pairwise_singleton _ _
  | cons entry rest ih =>
    obtain ⟨other, stored⟩ := entry
    obtain ⟨hfirst, hrest⟩ := List.pairwise_cons.1 h
    unfold Entries.insert
    split
    · next heq =>
      subst heq
      exact List.pairwise_cons.2 ⟨hfirst, hrest⟩
    · next hne =>
      split
      -- the new entry comes before the first one, and so before all of them
      · next hbefore =>
        refine List.pairwise_cons.2 ⟨fun e he => ?_, h⟩
        rcases List.mem_cons.1 he with rfl | he
        · exact hbefore
        · rw [HashKey.before_iff_precedes] at hbefore ⊢
          exact hbefore.trans (HashKey.before_iff_precedes.1 (hfirst e he))
      · next hnot =>
        refine List.pairwise_cons.2 ⟨fun e he => ?_, ih hrest⟩
        rcases mem_insert he with rfl | he
        · rw [HashKey.before_iff_precedes] at hnot ⊢
          -- a key that is neither that of the first entry nor before it comes after it
          rcases HashKey.precedes_trichotomy key other with hlt | heq | hgt
          · exact (hnot hlt).elim
          · exact (hne heq).elim
          · exact hgt
        · exact hfirst e he

theorem find?_eq_find? (key : HashKey) (entries : Entries α) :
    find? key entries = (List.find? (fun e => key = e.1) entries).map Prod.snd := by
  induction entries with
  | nil => rfl
  | cons entry rest ih =>
    obtain ⟨other, stored⟩ := entry
    by_cases heq : key = other
    · simp [find?, heq]
    · simp [find?, heq, ih]

/-- The value that is found is the first one under the key. -/
theorem find?_eq_some_iff : find? key entries = some value ↔
    ∃ before after, entries = before ++ (key, value) :: after ∧ key ∉ before.map Prod.fst := by
  rw [find?_eq_find?, Option.map_eq_some_iff]
  constructor
  · rintro ⟨⟨other, stored⟩, hfind, rfl⟩
    obtain ⟨hkey, before, after, hsplit, hbefore⟩ := List.find?_eq_some_iff_append.1 hfind
    obtain rfl : key = other := of_decide_eq_true hkey
    refine ⟨before, after, hsplit, fun hmem => ?_⟩
    obtain ⟨e, he, heq⟩ := List.mem_map.1 hmem
    simpa [heq] using hbefore e he
  · rintro ⟨before, after, hsplit, hbefore⟩
    refine ⟨(key, value), List.find?_eq_some_iff_append.2 ⟨by simp, before, after, hsplit, ?_⟩, rfl⟩
    intro e he
    have hne : key ≠ e.1 := fun heq => hbefore (heq ▸ List.mem_map_of_mem he)
    simpa using hne

theorem find?_eq_none_iff : find? key entries = none ↔ key ∉ entries.map Prod.fst := by
  rw [find?_eq_find?, Option.map_eq_none_iff, List.find?_eq_none]
  refine ⟨fun h hmem => ?_, fun h e he heq => ?_⟩
  · obtain ⟨e, he, rfl⟩ := List.mem_map.1 hmem
    exact h e he (decide_eq_true rfl)
  · exact h (of_decide_eq_true heq ▸ List.mem_map_of_mem he)

/-- Where no key occurs twice, the value that is found is the one that is there. -/
theorem find?_eq_some_iff_mem (h : (entries.map Prod.fst).Nodup) :
    find? key entries = some value ↔ (key, value) ∈ entries := by
  refine ⟨mem_of_find?, fun hmem => ?_⟩
  obtain ⟨before, after, rfl⟩ := List.append_of_mem hmem
  refine find?_eq_some_iff.2 ⟨before, after, rfl, fun hbefore => ?_⟩
  rw [List.map_append, List.map_cons] at h
  exact List.disjoint_of_nodup_append h hbefore List.mem_cons_self

/-- What is stored under each key determines the entries. -/
theorem Sorted.ext (h : Sorted entries) (h' : Sorted entries')
    (hfind : ∀ key, find? key entries = find? key entries') : entries = entries' := by
  have hperm : entries.Perm entries' := by
    refine (List.perm_ext_iff_of_nodup h.nodup_keys.of_map h'.nodup_keys.of_map).2 ?_
    rintro ⟨key, value⟩
    rw [← find?_eq_some_iff_mem h.nodup_keys, ← find?_eq_some_iff_mem h'.nodup_keys, hfind]
  refine hperm.eq_of_pairwise (fun a b _ _ hab hba => ?_) h h'
  rw [HashKey.before_iff_precedes] at hab hba
  exact (HashKey.precedes_irrefl _ (hab.trans hba)).elim

/-- The entries made of pairs, which are stored one after the other. -/
def ofPairs (pairs : Entries α) : Entries α :=
  pairs.foldl (fun entries pair => insert pair.1 pair.2 entries) []

/-- The last pair for a key has the value. -/
def Latest (pairs : Entries α) (key : HashKey) (value : α) : Prop :=
  ∃ before after, pairs = before ++ (key, value) :: after ∧ key ∉ after.map Prod.fst

theorem ofPairs_concat (pairs : Entries α) (pair : HashKey × α) :
    ofPairs (pairs ++ [pair]) = insert pair.1 pair.2 (ofPairs pairs) := by
  rw [ofPairs, List.foldl_concat]
  rfl

theorem sorted_ofPairs (pairs : Entries α) : Sorted (ofPairs pairs) := by
  induction pairs using List.reverseRecOn with
  | nil => exact .nil
  | append_singleton pairs pair ih =>
    rw [ofPairs_concat]
    exact ih.insert pair.1 pair.2

/-- Among the entries that pairs make, the last pair for a key is found. -/
theorem find?_ofPairs (key : HashKey) (pairs : Entries α) :
    find? key (ofPairs pairs) = find? key pairs.reverse := by
  induction pairs using List.reverseRecOn with
  | nil => rfl
  | append_singleton pairs pair ih =>
    rw [ofPairs_concat, find?_insert, ih, List.reverse_concat]
    rfl

theorem find?_ofPairs_eq_some_iff : find? key (ofPairs pairs) = some value ↔
    Latest pairs key value := by
  rw [find?_ofPairs, find?_eq_some_iff]
  constructor
  · rintro ⟨before, after, hsplit, hbefore⟩
    refine ⟨after.reverse, before.reverse, ?_, ?_⟩
    · rw [← List.reverse_reverse pairs, hsplit]
      simp
    · simpa using hbefore
  · rintro ⟨before, after, rfl, hafter⟩
    refine ⟨after.reverse, before.reverse, ?_, ?_⟩
    · simp
    · simpa using hafter

theorem find?_ofPairs_eq_none_iff : find? key (ofPairs pairs) = none ↔
    key ∉ pairs.map Prod.fst := by
  rw [find?_ofPairs, find?_eq_none_iff, List.map_reverse, List.mem_reverse]

/-- The entries are the last pairs for each key. -/
theorem mem_ofPairs_iff : (key, value) ∈ ofPairs pairs ↔ Latest pairs key value := by
  rw [← find?_eq_some_iff_mem (sorted_ofPairs pairs).nodup_keys, find?_ofPairs_eq_some_iff]

theorem mem_keys_ofPairs_iff : key ∈ (ofPairs pairs).map Prod.fst ↔ key ∈ pairs.map Prod.fst := by
  rw [← not_iff_not, ← find?_eq_none_iff, find?_ofPairs_eq_none_iff]

/-- Where no key occurs twice, the order of the pairs makes no difference. -/
theorem ofPairs_eq_of_perm (hperm : pairs.Perm pairs') (hkeys : (pairs.map Prod.fst).Nodup) :
    ofPairs pairs = ofPairs pairs' := by
  refine (sorted_ofPairs pairs).ext (sorted_ofPairs pairs') fun key => Option.ext fun value => ?_
  have hreverse : (pairs.reverse.map Prod.fst).Nodup := by
    rwa [List.map_reverse, List.nodup_reverse]
  have hreverse' : (pairs'.reverse.map Prod.fst).Nodup := by
    rw [List.map_reverse, List.nodup_reverse]
    exact (hperm.map Prod.fst).nodup_iff.1 hkeys
  rw [find?_ofPairs, find?_ofPairs, find?_eq_some_iff_mem hreverse, find?_eq_some_iff_mem hreverse',
    List.mem_reverse, List.mem_reverse, hperm.mem_iff]

end Entries

/-! ### Evaluation -/

/-- Integers, truth values and strings are keys. -/
inductive Value.HasKey : Value → HashKey → Prop
  | integer {n : Int64} : HasKey (.integer n) (.int n)
  | boolean {b : Bool} : HasKey (.boolean b) (.bool b)
  | string {addr : Nat} {text : String} : HasKey (.string addr text) (.str text)

theorem Value.HasKey.hashKey?_eq {v : Value} {k : HashKey} (h : v.HasKey k) :
    v.hashKey? = some k := by
  cases h <;> rfl

theorem Value.HasKey.isAbrupt_eq {v : Value} {k : HashKey} (h : v.HasKey k) :
    v.isAbrupt = false := by
  cases h <;> rfl

/-- Evaluated one after the other, and each key before its value, the expressions in the pairs yield
keys and values that are not abrupt. -/
inductive YieldsPairs (eval : Expr → Nat → Eval Value) (scope : Nat) :
    List (Expr × Expr) → State → Entries Value → State → Prop
  | nil {s : State} : YieldsPairs eval scope [] s [] s
  | cons {key value : Expr} {rest : List (Expr × Expr)} {s s₁ s₂ t : State} {k v : Value}
      {hashKey : HashKey} {pairs : Entries Value} :
    eval key scope s = some (k, s₁) → k.HasKey hashKey →
    eval value scope s₁ = some (v, s₂) → v.isAbrupt = false →
    YieldsPairs eval scope rest s₂ pairs t →
    YieldsPairs eval scope ((key, value) :: rest) s ((hashKey, v) :: pairs) t

section

variable {eval : Expr → Nat → Eval Value} {scope n : Nat} {literal : List (Expr × Expr)}
  {pairs : Entries Value} {s t : State}

/-- The pairs are stored one after the other. -/
theorem YieldsPairs.evalPairs_eq (h : YieldsPairs eval scope literal s pairs t)
    (entries : Entries Value) :
    evalPairs eval scope entries literal s =
      some (.ok (pairs.foldl (fun es pair => Entries.insert pair.1 pair.2 es) entries), t) := by
  induction h generalizing entries with
  | nil => rfl
  | cons hkey hk hvalue hv _ ih =>
    rw [evalPairs, bind_apply, hkey, Option.bind_some, hk.isAbrupt_eq, hk.hashKey?_eq]
    change (eval _ _ >>= _) _ = _
    rw [bind_apply, hvalue, Option.bind_some, hv]
    exact ih _

/-- A literal evaluates to the entries made of its pairs. -/
theorem evaluate_hash (h : YieldsPairs (evaluate n) scope literal s pairs t) :
    evaluate (n + 1) (.hash literal) scope s =
      some (.hash t.nextAddress (Entries.ofPairs pairs),
        { t with nextAddress := t.nextAddress + 1 }) := by
  rw [evaluate_succ, evalStep, bind_apply, h.evalPairs_eq]
  rfl

end

/-- Under a key an index finds the value of the last pair for it, or else `null`. -/
theorem at_hash_ofPairs {pairs : Entries Value} {w : Value} {k : HashKey} (hw : w.HasKey k)
    (addr fresh : Nat) :
    (∀ v, Entries.Latest pairs k v → (Value.hash addr (Entries.ofPairs pairs)).at w fresh = v) ∧
      (k ∉ pairs.map Prod.fst → (Value.hash addr (Entries.ofPairs pairs)).at w fresh = .null) := by
  simp only [Value.at, hw.hashKey?_eq]
  refine ⟨fun v hv => ?_, fun hk => ?_⟩
  · rw [Entries.find?_ofPairs_eq_some_iff.2 hv]
    rfl
  · rw [Entries.find?_ofPairs_eq_none_iff.2 hk]
    rfl

/-- **Hash literals are finite maps**, in which the last pair for a key counts.  A literal whose
keys evaluate to integers, truth values or strings, and whose values are not abrupt, evaluates to
the entries made of its pairs; values of different types have different keys.  The entries stand in
strictly increasing order: integers, then `false` and `true`, then strings by their bytes.  There is
one for every key among the pairs, with the value of the last pair for it.  An index finds that
value under every key among them, and `null` under all others.  Where no key occurs twice, pairs in
another order make the same entries and are written in the same way. -/
theorem hash_literals_are_maps :
    (∀ {n scope : Nat} {literal : List (Expr × Expr)} {pairs : Entries Value} {s t : State},
      YieldsPairs (evaluate n) scope literal s pairs t →
      evaluate (n + 1) (.hash literal) scope s = some (.hash t.nextAddress (Entries.ofPairs pairs),
        { t with nextAddress := t.nextAddress + 1 })) ∧
    (∀ {v w : Value} {k : HashKey}, v.HasKey k → w.HasKey k → v.type = w.type) ∧
    (∀ pairs : Entries Value,
      (Entries.ofPairs pairs).Pairwise (fun e f => e.1.Precedes f.1) ∧
      ((Entries.ofPairs pairs).map Prod.fst).Nodup ∧
      (∀ k, k ∈ (Entries.ofPairs pairs).map Prod.fst ↔ k ∈ pairs.map Prod.fst) ∧
      ∀ k v, (k, v) ∈ Entries.ofPairs pairs ↔ Entries.Latest pairs k v) ∧
    (∀ {n scope addr : Nat} {base position : Expr} {pairs : Entries Value} {s₀ s₁ s₂ : State}
      {w : Value} {k : HashKey},
      evaluate n base scope s₀ = some (.hash addr (Entries.ofPairs pairs), s₁) →
      evaluate n position scope s₁ = some (w, s₂) → w.HasKey k →
      ∃ r, evaluate (n + 1) (.index base position) scope s₀ =
          some (r, { s₂ with nextAddress := s₂.nextAddress + 1 }) ∧
        (∀ v, Entries.Latest pairs k v → r = v) ∧ (k ∉ pairs.map Prod.fst → r = .null)) ∧
    ∀ {pairs pairs' : Entries Value}, pairs.Perm pairs' → (pairs.map Prod.fst).Nodup →
      Entries.ofPairs pairs = Entries.ofPairs pairs' ∧
      ∀ addr addr', (Value.hash addr (Entries.ofPairs pairs)).inspect =
        (Value.hash addr' (Entries.ofPairs pairs')).inspect := by
  refine ⟨evaluate_hash, ?_, fun pairs => ⟨?_, ?_, ?_, ?_⟩, ?_, ?_⟩
  · intro v w k hv hw
    cases hv <;> cases hw <;> rfl
  · exact (Entries.sorted_ofPairs pairs).imp HashKey.before_iff_precedes.1
  · exact (Entries.sorted_ofPairs pairs).nodup_keys
  · exact fun k => Entries.mem_keys_ofPairs_iff
  · exact fun k v => Entries.mem_ofPairs_iff
  -- an index is evaluated after its base, and finds what the entries hold
  · intro n scope addr base position pairs s₀ s₁ s₂ w k hbase hposition hw
    exact ⟨_, evaluate_index hbase rfl hposition hw.isAbrupt_eq,
      at_hash_ofPairs hw addr s₂.nextAddress⟩
  · intro pairs pairs' hperm hkeys
    refine ⟨Entries.ofPairs_eq_of_perm hperm hkeys, fun addr addr' => ?_⟩
    rw [Entries.ofPairs_eq_of_perm hperm hkeys, Value.inspect, Value.inspect]

/-- A literal with keys of every type, one of which occurs twice, and the pairs of it that count in
another order. -/
theorem hash_literals_are_maps_mixed :
    let literal : List (Expr × Expr) :=
      [(.str "é", .int 1), (.int 2, .bool true), (.bool true, .int 3), (.str "z", .int 4),
        (.str "é", .int 5), (.binary .eq (.int 1) (.int 2), .int 6)]
    let counting : Entries Value :=
      [(.int 2, .boolean true), (.bool true, .integer 3), (.str "z", .integer 4),
        (.str "é", .integer 5), (.bool false, .integer 6)]
    let text := "\x7b2: true, false: 6, true: 3, z: 4, é: 5\x7d"
    ∃ v s, evaluate 3 (.hash literal) 0 (.start 10 .empty) = some (v, s) ∧ v.inspect = text ∧
      (Value.hash 0 (Entries.ofPairs counting.reverse)).inspect = text ∧
      (∃ t, evaluate 4 (.index (.hash literal) (.str "é")) 0 (.start 10 .empty) =
        some (.integer 5, t)) ∧
      ∃ t, evaluate 4 (.index (.hash literal) (.str "y")) 0 (.start 10 .empty) =
        some (.null, t) := by
  intro literal counting text
  obtain ⟨hliteral, -, -, hindex, hperm⟩ := hash_literals_are_maps
  let pairs : Entries Value := (.str "é", .integer 1) :: counting
  -- four of the keys are strings, and each of them takes an address
  have hyields : YieldsPairs (evaluate 2) 0 literal (.start 10 .empty) pairs
      { State.start 10 .empty with nextAddress := 4 } :=
    .cons rfl .string rfl rfl (.cons rfl .integer rfl rfl (.cons rfl .boolean rfl rfl
      (.cons rfl .string rfl rfl (.cons rfl .string rfl rfl (.cons rfl .boolean rfl rfl .nil)))))
  have hrun := hliteral hyields
  have hkey (text : String) (s : State) : evaluate 3 (.str text) 0 s =
      some (.string s.nextAddress text, { s with nextAddress := s.nextAddress + 1 }) := rfl
  refine ⟨_, _, hrun, by decide +kernel, ?_, ?_, ?_⟩
  · rw [← (hperm (List.reverse_perm counting).symm (by decide +kernel)).2 0 0]
    decide +kernel
  -- the fifth pair has the key of the first one again, and counts
  · obtain ⟨r, hr, hlatest, -⟩ := hindex hrun (hkey "é" _) .string
    have hlast : Entries.Latest pairs (.str "é") (.integer 5) :=
      ⟨pairs.take 4, pairs.drop 5, rfl, by decide +kernel⟩
    rw [hlatest _ hlast] at hr
    exact ⟨_, hr⟩
  · obtain ⟨r, hr, -, hnull⟩ := hindex hrun (hkey "y" _) .string
    rw [hnull (by decide +kernel)] at hr
    exact ⟨_, hr⟩

end Monkey
