/-!
# Hash keys and sorted entries

The keys of a hash are integers, booleans and strings.  They are ordered: integers come first, by
size, then `false` and `true`, and then strings, by their characters.  A hash is the list of its
entries in strictly increasing order of their keys, so each key occurs once.

## Main definitions

* `HashKey`, `HashKey.before` — the keys and their order.
* `Entries.insert`, `Entries.find?` — storing under a key and looking a key up.
-/

namespace Monkey

/-- What a hash entry is stored under. -/
inductive HashKey
  | int (value : Int64)
  | bool (value : Bool)
  | str (text : String)
  deriving DecidableEq, Repr, Inhabited

namespace HashKey

/-- The order of the keys. -/
def before : HashKey → HashKey → Bool
  | .int a, .int b => a < b
  | .int _, .bool _ => true
  | .int _, .str _ => true
  | .bool _, .int _ => false
  | .bool a, .bool b => !a && b
  | .bool _, .str _ => true
  | .str _, .int _ => false
  | .str _, .bool _ => false
  | .str a, .str b => a < b

/-- How a key is written inside a hash; a string has no quotes there. -/
def inspect : HashKey → String
  | .int value => toString value.toInt
  | .bool true => "true"
  | .bool false => "false"
  | .str text => text

theorem before_irrefl (k : HashKey) : k.before k = false := by
  cases k <;> simp [before]

end HashKey

/-- The entries of a hash. -/
abbrev Entries (α : Type) := List (HashKey × α)

namespace Entries

variable {α : Type}

/-- Stores a value under a key, in place of what was stored under it, or else where the order
puts the key. -/
def insert (key : HashKey) (value : α) : Entries α → Entries α
  | [] => [(key, value)]
  | (other, stored) :: rest =>
    if key = other then (key, value) :: rest
    else if key.before other then (key, value) :: (other, stored) :: rest
    else (other, stored) :: insert key value rest

/-- The value stored under a key. -/
def find? (key : HashKey) : Entries α → Option α
  | [] => none
  | (other, stored) :: rest => if key = other then some stored else find? key rest

/-- Whether the keys are in strictly increasing order. -/
def Sorted (entries : Entries α) : Prop :=
  entries.Pairwise fun a b => a.1.before b.1 = true

@[simp] theorem find?_nil (key : HashKey) : find? key ([] : Entries α) = none := rfl

theorem find?_insert (key other : HashKey) (value : α) (entries : Entries α) :
    find? other (insert key value entries) =
      if other = key then some value else find? other entries := by
  induction entries with
  | nil => simp [insert, find?]
  | cons entry rest ih =>
    obtain ⟨k, stored⟩ := entry
    by_cases hk : key = k
    · subst hk
      by_cases ho : other = key <;> simp [insert, find?, ho]
    · by_cases hb : key.before k = true
      · simp [insert, find?, hk, hb]
      · by_cases ho : other = k
        · subst ho
          simp [insert, find?, hk, hb, Ne.symm hk]
        · simp [insert, find?, hk, hb, ho, ih]

@[simp] theorem find?_insert_self (key : HashKey) (value : α) (entries : Entries α) :
    find? key (insert key value entries) = some value := by
  simp [find?_insert]

theorem mem_of_find? {key : HashKey} {value : α} {entries : Entries α}
    (h : find? key entries = some value) : (key, value) ∈ entries := by
  induction entries with
  | nil => cases h
  | cons entry rest ih =>
    obtain ⟨other, stored⟩ := entry
    unfold find? at h
    split at h
    · next heq =>
      cases h
      rw [heq]
      exact List.mem_cons_self
    · exact List.mem_cons_of_mem _ (ih h)

/-- Storing under a key adds one entry at most. -/
theorem mem_insert {key : HashKey} {value : α} {entry : HashKey × α} {entries : Entries α}
    (h : entry ∈ insert key value entries) : entry = (key, value) ∨ entry ∈ entries := by
  induction entries with
  | nil => exact Or.inl (List.mem_singleton.1 h)
  | cons first rest ih =>
    obtain ⟨other, stored⟩ := first
    unfold insert at h
    split at h
    · exact (List.mem_cons.1 h).imp id (List.mem_cons_of_mem _)
    · split at h
      · exact List.mem_cons.1 h
      · rcases List.mem_cons.1 h with rfl | h
        · exact Or.inr List.mem_cons_self
        · exact (ih h).imp id (List.mem_cons_of_mem _)

end Entries

end Monkey
