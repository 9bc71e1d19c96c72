import Mathlib.Data.List.Basic
import Monkey.HashKey

/-!
# The order of keys

Texts are ordered by their characters, and UTF-8 is made so that this is the order of their bytes:
of two characters the greater one has the greater encoding, whatever follows.  With that the order
of keys can be said without comparing characters, and it is strict and total.

## Main definitions

* `utf8Bytes` — the bytes of a text.
* `HashKey.Precedes` — integers by size, then `false` and `true`, then texts by their bytes.

## Main results

* `lt_iff_utf8Bytes_lt` — **texts are ordered by their bytes.**
* `HashKey.before_iff_precedes` — the order of the entries is the order of keys.
* `HashKey.Precedes.trans`, `HashKey.precedes_trichotomy` — it is strict and total.
-/

namespace Monkey

/-! ### Texts and bytes -/

/-- The bytes of a text in UTF-8. -/
def utf8Bytes (text : String) : List UInt8 := text.toUTF8.data.toList

theorem utf8Bytes_eq_flatMap (text : String) :
    utf8Bytes text = text.toList.flatMap String.utf8EncodeChar := by
  rw [utf8Bytes, String.toUTF8_eq_toByteArray, ← String.utf8Encode_toList]
  exact List.toList_data_toByteArray

theorem ofNat_cons_lt_iff {a b : Nat} {s t : List UInt8} (ha : a < 256) (hb : b < 256) :
    UInt8.ofNat a :: s < UInt8.ofNat b :: t ↔ a < b ∨ a = b ∧ s < t := by
  rw [List.cons_lt_cons_iff, UInt8.lt_iff_toNat_lt, ← UInt8.toNat_inj, UInt8.toNat_ofNat',
    UInt8.toNat_ofNat', Nat.mod_eq_of_lt ha, Nat.mod_eq_of_lt hb]

theorem char_toNat_lt (c : Char) : c.val.toNat < 0x110000 := by
  have h : c.val.toNat < 0xd800 ∨ 0xdfff < c.val.toNat ∧ c.val.toNat < 0x110000 := c.valid
  omega

/-- The greater character has the greater encoding, whatever follows. -/
theorem utf8EncodeChar_append_lt {c d : Char} (h : c < d) (s t : List UInt8) :
    String.utf8EncodeChar c ++ s < String.utf8EncodeChar d ++ t := by
  have hlt : c.val.toNat < d.val.toNat := h
  have hd := char_toNat_lt d
  unfold String.utf8EncodeChar
  dsimp only
  generalize c.val.toNat = m at hlt ⊢
  generalize d.val.toNat = n at hlt hd ⊢
  -- the digits to the base of 64 all come from dividing by 64
  have h4096 (k : Nat) : k / 4096 = k / 64 / 64 := by omega
  have h262144 (k : Nat) : k / 262144 = k / 64 / 64 / 64 := by omega
  simp only [h4096, h262144]
  -- the cases are the numbers of bytes that the two encodings have
  split_ifs
  all_goals
    simp (disch := omega) only [List.cons_append, ofNat_cons_lt_iff]
    omega

theorem flatMap_utf8EncodeChar_lt {cs ds : List Char} (h : cs < ds) :
    cs.flatMap String.utf8EncodeChar < ds.flatMap String.utf8EncodeChar := by
  induction h with
  | @nil d ds =>
    rw [List.flatMap_nil, List.flatMap_cons]
    obtain ⟨b, bs, hd⟩ := List.exists_cons_of_ne_nil (String.utf8EncodeChar_ne_nil (c := d))
    rw [hd]
    exact .nil
  | rel hcd => exact utf8EncodeChar_append_lt hcd _ _
  | cons _ ih => exact List.append_left_lt ih

/-- **Texts are ordered by their bytes.** -/
theorem lt_iff_utf8Bytes_lt (a b : String) : a < b ↔ utf8Bytes a < utf8Bytes b := by
  rw [utf8Bytes_eq_flatMap, utf8Bytes_eq_flatMap]
  constructor
  · exact fun h => flatMap_utf8EncodeChar_lt (String.lt_iff.1 h)
  · intro h
    by_contra hnot
    rcases eq_or_ne b a with rfl | hne
    · exact List.lt_irrefl _ h
    · have hba : b < a := by
        by_contra hnot'
        exact hne (String.le_antisymm (String.not_lt.1 hnot) (String.not_lt.1 hnot'))
      exact List.lt_asymm h (flatMap_utf8EncodeChar_lt (String.lt_iff.1 hba))

/-! ### Keys -/

namespace HashKey

/-- The order of keys: first integers, by size, then `false` and `true`, and then texts, by their
bytes. -/
inductive Precedes : HashKey → HashKey → Prop
  | int {a b : Int64} : a.toInt < b.toInt → Precedes (.int a) (.int b)
  | int_bool {a : Int64} {b : Bool} : Precedes (.int a) (.bool b)
  | int_str {a : Int64} {text : String} : Precedes (.int a) (.str text)
  | bool : Precedes (.bool false) (.bool true)
  | bool_str {a : Bool} {text : String} : Precedes (.bool a) (.str text)
  | str {a b : String} : utf8Bytes a < utf8Bytes b → Precedes (.str a) (.str b)

/-- The order of the entries of a hash is the order of keys. -/
theorem before_iff_precedes {k l : HashKey} : k.before l = true ↔ k.Precedes l := by
  constructor
  · intro h
    cases k with
    | int a =>
      cases l with
      | int b => exact .int (Int64.lt_iff_toInt_lt.1 (of_decide_eq_true h))
      | bool => exact .int_bool
      | str => exact .int_str
    | bool a =>
      cases l with
      | int => cases h
      | bool b =>
        obtain ⟨rfl, rfl⟩ : a = false ∧ b = true := by simpa [before] using h
        exact .bool
      | str => exact .bool_str
    | str a =>
      cases l with
      | int | bool => cases h
      -- strings are compared by characters here and by bytes there
      | str b => exact .str ((lt_iff_utf8Bytes_lt a b).1 (of_decide_eq_true h))
  · intro h
    cases h with
    | int hab => exact decide_eq_true (Int64.lt_iff_toInt_lt.2 hab)
    | str hab => exact decide_eq_true ((lt_iff_utf8Bytes_lt _ _).2 hab)
    | _ => rfl

/-- No key comes before itself. -/
theorem precedes_irrefl (k : HashKey) : ¬k.Precedes k := by
  rw [← before_iff_precedes, before_irrefl]
  exact nofun

theorem Precedes.trans {k l m : HashKey} (hkl : k.Precedes l) (hlm : l.Precedes m) :
    k.Precedes m := by
  cases hkl with
  | int hab =>
    cases hlm with
    | int hbc => exact .int (Int.lt_trans hab hbc)
    | int_bool => exact .int_bool
    | int_str => exact .int_str
  | int_bool =>
    cases hlm with
    | bool => exact .int_bool
    | bool_str => exact .int_str
  | int_str => cases hlm; exact .int_str
  | bool => cases hlm; exact .bool_str
  | bool_str => cases hlm; exact .bool_str
  | str hab =>
    cases hlm with
    | str hbc => exact .str (List.lt_trans hab hbc)

/-- Of two different keys one comes before the other one. -/
theorem precedes_trichotomy (k l : HashKey) : k.Precedes l ∨ k = l ∨ l.Precedes k := by
  cases k with
  | int a =>
    cases l with
    | int b =>
      rcases Int.lt_trichotomy a.toInt b.toInt with h | h | h
      · exact .inl (.int h)
      · exact .inr (.inl (congrArg int (Int64.toInt_inj.1 h)))
      · exact .inr (.inr (.int h))
    | bool => exact .inl .int_bool
    | str => exact .inl .int_str
  | bool a =>
    cases l with
    | int => exact .inr (.inr .int_bool)
    | bool b =>
      cases a <;> cases b
      · exact .inr (.inl rfl)
      · exact .inl .bool
      · exact .inr (.inr .bool)
      · exact .inr (.inl rfl)
    | str => exact .inl .bool_str
  | str a =>
    cases l with
    | int => exact .inr (.inr .int_str)
    | bool => exact .inr (.inr .bool_str)
    -- strings compare by their bytes as they do by their characters
    | str b =>
      by_cases hab : a < b
      · exact .inl (.str ((lt_iff_utf8Bytes_lt a b).1 hab))
      · by_cases hba : b < a
        · exact .inr (.inr (.str ((lt_iff_utf8Bytes_lt b a).1 hba)))
        · exact .inr (.inl (congrArg str
            (String.le_antisymm (String.not_lt.1 hba) (String.not_lt.1 hab))))

end HashKey

end Monkey
