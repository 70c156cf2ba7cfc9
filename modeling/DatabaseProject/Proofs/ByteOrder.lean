import Mathlib.Data.String.Basic
import DatabaseProject.FileTree

/-!
# The order of names by their bytes

Texts are compared character by character. In UTF-8 a greater character has greater bytes: more of them
and then a greater first byte, or as many and a greater byte at the first difference. So the order of
texts is that of their bytes, and the order in which a tree lists what is below a folder is the
lexicographic one of names as bytes.
-/

namespace DatabaseProject

namespace Text

/-- The UTF-8 bytes of a text. -/
def bytes (text : String) : List UInt8 := text.toUTF8.data.toList

theorem bytes_eq_flatMap (text : String) : bytes text = text.toList.flatMap String.utf8EncodeChar := by
  rw [bytes, String.toUTF8_eq_toByteArray, ← String.utf8Encode_toList, List.utf8Encode,
    List.toList_data_toByteArray]

variable {c d : Char} {xs ys : List UInt8} {v w : Nat}

theorem ofNat_lt_ofNat (h : v < w) (hw : w < 256) : UInt8.ofNat v < UInt8.ofNat w := by
  rw [UInt8.lt_iff_toNat_lt, UInt8.toNat_ofNat_of_lt' (lt_trans h hw), UInt8.toNat_ofNat_of_lt' hw]
  exact h

/-- The bytes that carry the last digits of a number to the base 64. -/
def continuation : Nat → Nat → List UInt8
  | 0, _ => []
  | k + 1, v => UInt8.ofNat (v / 64 ^ k % 64 + 128) :: continuation k v

/-- What the first byte adds to the digits in front of the others. -/
def mark : Nat → Nat
  | 0 => 0
  | 1 => 192
  | 2 => 224
  | _ => 240

/-- A character is written with as many further bytes as its digits need. -/
theorem utf8EncodeChar_cases (c : Char) : ∃ k,
    (k = 0 ∧ c.toNat < 0x80 ∨ k = 1 ∧ 0x80 ≤ c.toNat ∧ c.toNat < 0x800 ∨
      k = 2 ∧ 0x800 ≤ c.toNat ∧ c.toNat < 0x10000 ∨ k = 3 ∧ 0x10000 ≤ c.toNat ∧ c.toNat < 0x110000) ∧
    String.utf8EncodeChar c = UInt8.ofNat (c.toNat / 64 ^ k + mark k) :: continuation k c.toNat := by
  have hvalid : c.toNat < 0xD800 ∨ 0xDFFF < c.toNat ∧ c.toNat < 0x110000 := c.valid
  have hval : c.val.toNat = c.toNat := rfl
  simp only [String.utf8EncodeChar, hval]
  generalize c.toNat = v at hvalid ⊢
  by_cases hone : v ≤ 127
  · refine ⟨0, by omega, ?_⟩
    rw [if_pos hone, Nat.pow_zero, Nat.div_one]
    rfl
  by_cases htwo : v ≤ 2047
  · refine ⟨1, by omega, ?_⟩
    rw [if_neg hone, if_pos htwo, Nat.mod_eq_of_lt (by omega)]
    simp [continuation, mark]
  by_cases hthree : v ≤ 65535
  · refine ⟨2, by omega, ?_⟩
    rw [if_neg hone, if_neg htwo, if_pos hthree, Nat.mod_eq_of_lt (by omega)]
    simp [continuation, mark]
  · refine ⟨3, by omega, ?_⟩
    rw [if_neg hone, if_neg htwo, if_neg hthree, Nat.mod_eq_of_lt (by omega)]
    simp [continuation, mark]

/-- Numbers with the same digits in front are told apart by the others. -/
theorem continuation_lt (k : Nat) (h : v < w) (hfront : v / 64 ^ k = w / 64 ^ k) :
    continuation k v ++ xs < continuation k w ++ ys := by
  induction k with
  | zero =>
    rw [Nat.pow_zero, Nat.div_one, Nat.div_one] at hfront
    omega
  | succ k ih =>
    have hdigit : v / 64 ^ k ≤ w / 64 ^ k := Nat.div_le_div_right h.le
    rw [Nat.pow_succ, ← Nat.div_div_eq_div_mul, ← Nat.div_div_eq_div_mul] at hfront
    rw [continuation, continuation, List.cons_append, List.cons_append]
    obtain hlt | heq := Nat.lt_or_eq_of_le hdigit
    · exact .rel (ofNat_lt_ofNat (by omega) (by omega))
    · rw [heq]
      exact .cons (ih heq)

theorem utf8EncodeChar_lt (h : c < d) :
    String.utf8EncodeChar c ++ xs < String.utf8EncodeChar d ++ ys := by
  have hlt : c.toNat < d.toNat := h
  obtain ⟨k, hk, hc⟩ := utf8EncodeChar_cases c
  obtain ⟨j, hj, hd⟩ := utf8EncodeChar_cases d
  rw [hc, hd, List.cons_append, List.cons_append]
  by_cases hsame : k = j
  · subst hsame
    have hfirst : c.toNat / 64 ^ k ≤ d.toNat / 64 ^ k := Nat.div_le_div_right hlt.le
    obtain hless | heq := Nat.lt_or_eq_of_le hfirst
    · refine .rel (ofNat_lt_ofNat (Nat.add_lt_add_right hless _) ?_)
      obtain ⟨rfl, hd⟩ | ⟨rfl, hd⟩ | ⟨rfl, hd⟩ | ⟨rfl, hd⟩ := hj <;> simp only [mark] <;> omega
    · rw [heq]
      exact .cons (continuation_lt k hlt heq)
  · refine .rel (ofNat_lt_ofNat ?_ ?_)
    · obtain ⟨rfl, hc⟩ | ⟨rfl, hc⟩ | ⟨rfl, hc⟩ | ⟨rfl, hc⟩ := hk <;>
        obtain ⟨rfl, hd⟩ | ⟨rfl, hd⟩ | ⟨rfl, hd⟩ | ⟨rfl, hd⟩ := hj <;> simp only [mark] <;> omega
    · obtain ⟨rfl, hd⟩ | ⟨rfl, hd⟩ | ⟨rfl, hd⟩ | ⟨rfl, hd⟩ := hj <;> simp only [mark] <;> omega

theorem flatMap_utf8EncodeChar_lt {cs ds : List Char} (h : cs < ds) :
    cs.flatMap String.utf8EncodeChar < ds.flatMap String.utf8EncodeChar := by
  induction h with
  | nil =>
    rename_i d rest
    obtain ⟨k, -, hd⟩ := utf8EncodeChar_cases d
    rw [List.flatMap_nil, List.flatMap_cons, hd]
    exact List.nil_lt_cons _ _
  | rel hcd =>
    rw [List.flatMap_cons, List.flatMap_cons]
    exact utf8EncodeChar_lt hcd
  | cons _ ih =>
    rw [List.flatMap_cons, List.flatMap_cons]
    exact List.append_left_lt ih

theorem bytes_lt_bytes {text other : String} (h : text < other) : bytes text < bytes other := by
  rw [bytes_eq_flatMap, bytes_eq_flatMap]
  exact flatMap_utf8EncodeChar_lt (String.lt_iff_toList_lt.1 h)

end Text

open Text

/-- Different locations in order are in the lexicographic order of their names as bytes. -/
theorem FileTree.map_bytes_lt_of_inOrder {place other : Location} (h : inOrder place other = true)
    (hne : place ≠ other) : place.map bytes < other.map bytes := by
  induction place generalizing other with
  | nil =>
    obtain ⟨name, rest, rfl⟩ := List.exists_cons_of_ne_nil hne.symm
    exact List.nil_lt_cons _ _
  | cons name rest ih =>
    cases other with
    | nil => cases h
    | cons further others =>
      rw [inOrder] at h
      rw [List.map_cons, List.map_cons]
      by_cases hsame : name = further
      · subst hsame
        rw [if_pos rfl] at h
        exact .cons (ih h fun he => hne (congrArg _ he))
      · rw [if_neg hsame, decide_eq_true_eq] at h
        exact .rel (bytes_lt_bytes h)

end DatabaseProject
