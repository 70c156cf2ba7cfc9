import DatabaseProject.Identifier
import DatabaseProject.Proofs.Decimal

/-!
# The characters of a shortened identifier

Decoding a part of the code units of a text gives characters of the text, but for the surrogates that
lose their partner at the cut. A shortened identifier therefore holds no other character below the
surrogates than the identifier itself, an underscore, digits and a closing bracket.
-/

namespace DatabaseProject

namespace Text.Utf16

variable {c : Char} {u v : UInt16}

theorem toNat_ofNat_of_isValidChar {n : Nat} (h : n.isValidChar) : (Char.ofNat n).toNat = n := by
  rw [Char.ofNat, dif_pos h]
  rfl

theorem toNat_lt (c : Char) : c.toNat < 0x110000 := by
  have h := c.valid
  simp only [UInt32.isValidChar, Nat.isValidChar] at h
  show c.val.toNat < _
  omega

theorem isHighSurrogate_iff : isHighSurrogate u = true ↔ 0xD800 ≤ u.toNat ∧ u.toNat < 0xDC00 := by
  simp [isHighSurrogate, UInt16.le_iff_toNat_le, UInt16.lt_iff_toNat_lt]

theorem isLowSurrogate_iff : isLowSurrogate u = true ↔ 0xDC00 ≤ u.toNat ∧ u.toNat < 0xE000 := by
  simp [isLowSurrogate, UInt16.le_iff_toNat_le, UInt16.lt_iff_toNat_lt]

/-- A unit that is in no pair stands for the replacement or for the character of its number. -/
theorem toNat_charOfUnit (u : UInt16) : charOfUnit u = replacement ∨ (charOfUnit u).toNat = u.toNat := by
  unfold charOfUnit
  split
  · exact .inl rfl
  · rename_i h
    right
    rw [Bool.or_eq_true, isHighSurrogate_iff, isLowSurrogate_iff] at h
    have hlt := u.toNat_lt
    apply toNat_ofNat_of_isValidChar
    unfold Nat.isValidChar
    omega

/-- The character of a pair is beyond all characters of one unit. -/
theorem le_toNat_charOfPair (hu : isHighSurrogate u = true) (hv : isLowSurrogate v = true) :
    0x10000 ≤ (charOfPair u v).toNat := by
  rw [isHighSurrogate_iff] at hu
  rw [isLowSurrogate_iff] at hv
  unfold charOfPair
  rw [toNat_ofNat_of_isValidChar]
  · omega
  · unfold Nat.isValidChar
    omega

/-- A character below the surrogates is decoded from the unit of its number only. -/
theorem exists_unit_of_mem_decode {units : List UInt16} (h : c ∈ decode units) (hc : c.toNat < 0xD800) :
    ∃ u ∈ units, u.toNat = c.toNat := by
  have hsingle : ∀ u, c = charOfUnit u → u.toNat = c.toNat := by
    intro u he
    rcases toNat_charOfUnit u with hr | hn
    · have hreplacement : replacement.toNat = 0xFFFD := rfl
      rw [he, hr, hreplacement] at hc
      omega
    · rw [he, hn]
  induction units using decode.induct with
  | case1 => cases h
  | case2 u =>
    rw [decode, List.mem_singleton] at h
    exact ⟨u, List.mem_singleton_self u, hsingle u h⟩
  | case3 u v rest hpair ih =>
    rw [decode, if_pos hpair] at h
    obtain ⟨hu, hv⟩ := Bool.and_eq_true_iff.1 hpair
    rcases List.mem_cons.1 h with he | h
    · rw [he] at hc
      have hle := le_toNat_charOfPair hu hv
      omega
    · obtain ⟨w, hw, he⟩ := ih h
      exact ⟨w, List.mem_cons_of_mem _ (List.mem_cons_of_mem _ hw), he⟩
  | case4 u v rest hpair ih =>
    rw [decode, if_neg hpair] at h
    rcases List.mem_cons.1 h with he | h
    · exact ⟨u, List.mem_cons_self, hsingle u he⟩
    · obtain ⟨w, hw, he⟩ := ih h
      exact ⟨w, List.mem_cons_of_mem _ hw, he⟩

/-- A unit below the surrogates belongs to the character of its number. -/
theorem toNat_of_mem_unitsOfChar (h : u ∈ unitsOfChar c) (hu : u.toNat < 0xD800) :
    c.toNat = u.toNat := by
  have hvalid := toNat_lt c
  unfold unitsOfChar at h
  split at h
  · rename_i hsmall
    rw [List.mem_singleton] at h
    rw [h, UInt16.toNat_ofNat_of_lt' hsmall]
  · simp only [List.mem_cons, List.not_mem_nil, or_false] at h
    have hhigh : (0xD800 + (c.toNat - 0x10000) / 0x400).toUInt16.toNat =
        0xD800 + (c.toNat - 0x10000) / 0x400 :=
      UInt16.toNat_ofNat_of_lt' (by rw [UInt16.size]; omega)
    have hlow : (0xDC00 + (c.toNat - 0x10000) % 0x400).toUInt16.toNat =
        0xDC00 + (c.toNat - 0x10000) % 0x400 :=
      UInt16.toNat_ofNat_of_lt' (by rw [UInt16.size]; omega)
    rcases h with rfl | rfl
    · omega
    · omega

/-- What is decoded from units of a text is in the text, up to the surrogates. -/
theorem mem_of_mem_decode {units : List UInt16} {text : String} (hs : units ⊆ Utf16.units text)
    (h : c ∈ decode units) (hc : c.toNat < 0xD800) : c ∈ text.toList := by
  obtain ⟨u, hu, he⟩ := exists_unit_of_mem_decode h hc
  obtain ⟨d, hd, hm⟩ := List.mem_flatMap.1 (hs hu)
  have hsame : c = d := by
    rw [← Char.toNat_inj, toNat_of_mem_unitsOfChar hm (he ▸ hc), he]
  rwa [hsame]

end Text.Utf16

open Text

/-- What a shortened identifier can hold, up to the surrogates. -/
theorem Identifier.mem_shorten {identifier : String} {c : Char}
    (h : c ∈ (shorten identifier).toList) (hc : c.toNat < 0xD800) :
    c ∈ identifier.toList ∨ c = '_' ∨ c.isDigit = true ∨ c = ']' := by
  unfold shorten at h
  dsimp only at h
  split at h
  · exact .inl h
  · simp only [String.toList_append, String.toList_ofList, List.mem_append] at h
    rcases h with ((h | h) | h) | h
    · exact .inl (Utf16.mem_of_mem_decode (List.take_subset _ _) h hc)
    · exact .inr (.inl (by simpa using h))
    · exact .inr (.inr (.inl ((Decimal.ofDigitChars_repr _).2.1 c h)))
    · exact .inr (.inr (.inr (by simpa using h)))

end DatabaseProject
