import DatabaseProject.Proofs.IdentifierLength

/-!
# Shortened identifiers

What is left of an identifier that is too long, unit by unit. The cut may fall into a surrogate pair;
its first half is replaced then, and no other unit that is kept changes. Shortening keeps the brackets
of an identifier and does nothing to one that it has shortened, and the units that are kept and the
digits of the hash can be read off the result.
-/

namespace DatabaseProject

namespace Text.Utf16

variable {c : Char} {u : UInt16} {k : Nat} {text : String}

/-- A character is one unit that is no surrogate, or a surrogate pair. -/
theorem unitsOfChar_cases (c : Char) :
    (∃ u, unitsOfChar c = [u] ∧ isHighSurrogate u = false ∧ charOfUnit u = c) ∨
    (0x10000 ≤ c.toNat ∧ ∃ high low, unitsOfChar c = [high, low] ∧ isHighSurrogate high = true ∧
      isLowSurrogate low = true ∧ charOfPair high low = c) := by
  have hvalid : c.toNat < 0xD800 ∨ 0xDFFF < c.toNat ∧ c.toNat < 0x110000 := c.valid
  by_cases hsmall : c.toNat < 0x10000
  · left
    have hu : c.toNat.toUInt16.toNat = c.toNat := UInt16.toNat_ofNat_of_lt' hsmall
    have hhigh : isHighSurrogate c.toNat.toUInt16 = false := by
      rw [← Bool.not_eq_true, isHighSurrogate_iff, hu]
      omega
    have hlow : isLowSurrogate c.toNat.toUInt16 = false := by
      rw [← Bool.not_eq_true, isLowSurrogate_iff, hu]
      omega
    refine ⟨c.toNat.toUInt16, by simp [unitsOfChar, hsmall], hhigh, ?_⟩
    rw [charOfUnit, hhigh, hlow, if_neg (by decide), hu, Char.ofNat_toNat]
  · right
    have hhigh : (0xD800 + (c.toNat - 0x10000) / 0x400).toUInt16.toNat =
        0xD800 + (c.toNat - 0x10000) / 0x400 :=
      UInt16.toNat_ofNat_of_lt' (by rw [UInt16.size]; omega)
    have hlow : (0xDC00 + (c.toNat - 0x10000) % 0x400).toUInt16.toNat =
        0xDC00 + (c.toNat - 0x10000) % 0x400 :=
      UInt16.toNat_ofNat_of_lt' (by rw [UInt16.size]; omega)
    refine ⟨Nat.le_of_not_lt hsmall, _, _, by rw [unitsOfChar, if_neg hsmall], ?_, ?_, ?_⟩
    · rw [isHighSurrogate_iff, hhigh]
      omega
    · rw [isLowSurrogate_iff, hlow]
      omega
    · have hsum : 0x10000 + (0xD800 + (c.toNat - 0x10000) / 0x400 - 0xD800) * 0x400 +
          (0xDC00 + (c.toNat - 0x10000) % 0x400 - 0xDC00) = c.toNat := by
        omega
      rw [charOfPair, hhigh, hlow, hsum, Char.ofNat_toNat]

theorem isHighSurrogate_of_isLowSurrogate (h : isLowSurrogate u = true) : isHighSurrogate u = false := by
  rw [isLowSurrogate_iff] at h
  rw [← Bool.not_eq_true, isHighSurrogate_iff]
  omega

theorem decode_cons (h : isHighSurrogate u = false) (us : List UInt16) :
    decode (u :: us) = charOfUnit u :: decode us := by
  cases us with
  | nil => rfl
  | cons v rest => rw [decode, h, Bool.false_and, if_neg (by decide)]

theorem decode_unitsOfChar (c : Char) (us : List UInt16) :
    decode (unitsOfChar c ++ us) = c :: decode us := by
  obtain ⟨u, hc, hhigh, hchar⟩ | ⟨-, high, low, hc, hhigh, hlow, hchar⟩ := unitsOfChar_cases c
  · rw [hc, List.singleton_append, decode_cons hhigh, hchar]
  · rw [hc, List.cons_append, List.singleton_append, decode, hhigh, hlow, if_pos (by decide), hchar]

theorem decode_flatMap (chars : List Char) (us : List UInt16) :
    decode (chars.flatMap unitsOfChar ++ us) = chars ++ decode us := by
  induction chars with
  | nil => rfl
  | cons c rest ih =>
    rw [List.flatMap_cons, List.append_assoc, decode_unitsOfChar, ih, List.cons_append]

/-- The units of a text are decoded to the text. -/
theorem decode_units (text : String) : decode (units text) = text.toList := by
  have h := decode_flatMap text.toList []
  rw [List.append_nil, decode, List.append_nil] at h
  exact h

theorem units_injective : Function.Injective units := by
  intro text other h
  rw [← String.toList_inj, ← decode_units, h, decode_units]

/-- A surrogate pair of the text has its first half at a position. -/
def StartsPair (text : String) (k : Nat) : Prop :=
  ∃ before c after, text.toList = before ++ c :: after ∧ 0x10000 ≤ c.toNat ∧
    (before.flatMap unitsOfChar).length = k

/-- A cut behind a unit is between characters, or between the halves of a pair. -/
inductive CutBehind (chars : List Char) (k : Nat) (u : UInt16) : Prop
  | between (before after : List Char) (hu : isHighSurrogate u = false) (hc : chars = before ++ after)
    (hl : (before.flatMap unitsOfChar).length = k + 1)
  | inPair (before : List Char) (c : Char) (after : List Char) (hu : isHighSurrogate u = true)
    (hc : chars = before ++ c :: after) (hbig : 0x10000 ≤ c.toNat)
    (hl : (before.flatMap unitsOfChar).length = k)

theorem CutBehind.cons {chars : List Char} (c : Char) (h : CutBehind chars k u) :
    CutBehind (c :: chars) ((unitsOfChar c).length + k) u := by
  cases h with
  | between before after hu hc hl =>
    refine .between (c :: before) after hu (by rw [hc, List.cons_append]) ?_
    rw [List.flatMap_cons, List.length_append, hl, Nat.add_assoc]
  | inPair before d after hu hc hbig hl =>
    refine .inPair (c :: before) d after hu (by rw [hc, List.cons_append]) hbig ?_
    rw [List.flatMap_cons, List.length_append, hl]

theorem cutBehind_of_getElem? {chars : List Char} (h : (chars.flatMap unitsOfChar)[k]? = some u) :
    CutBehind chars k u := by
  induction chars generalizing k with
  | nil => simp at h
  | cons c rest ih =>
    rw [List.flatMap_cons] at h
    by_cases hk : (unitsOfChar c).length ≤ k
    · rw [List.getElem?_append_right hk] at h
      have hcut := (ih h).cons c
      rwa [Nat.add_sub_cancel' hk] at hcut
    -- The unit is one of the first character.
    rw [List.getElem?_append_left (Nat.lt_of_not_le hk)] at h
    obtain ⟨v, hc, hhigh, -⟩ | ⟨hbig, high, low, hc, hhigh, hlow, -⟩ := unitsOfChar_cases c
    · rw [hc] at h hk
      match k with
      | 0 =>
        cases h
        exact .between [c] rest hhigh rfl (by rw [List.flatMap_singleton, hc]; rfl)
      | _ + 1 => exact absurd (Nat.le_add_left _ _) hk
    · rw [hc] at h hk
      match k with
      | 0 =>
        cases h
        exact .inPair [] c rest hhigh rfl hbig rfl
      | 1 =>
        cases h
        exact .between [c] rest (isHighSurrogate_of_isLowSurrogate hlow) rfl
          (by rw [List.flatMap_singleton, hc]; rfl)
      | _ + 2 => exact absurd (Nat.le_add_left _ _) hk

theorem isHighSurrogate_iff_startsPair (h : (units text)[k]? = some u) :
    isHighSurrogate u = true ↔ StartsPair text k := by
  constructor
  · intro hu
    cases cutBehind_of_getElem? h with
    | between _ _ hlow _ _ =>
      rw [hu] at hlow
      cases hlow
    | inPair before c after _ hc hbig hl => exact ⟨before, c, after, hc, hbig, hl⟩
  · rintro ⟨before, c, after, ht, hbig, rfl⟩
    obtain ⟨v, hc, -, hchar⟩ | ⟨-, high, low, hc, hhigh, -, -⟩ := unitsOfChar_cases c
    · have hone := length_unitsOfChar_of_le hbig
      rw [hc] at hone
      cases hone
    · rw [units, ht, List.flatMap_append, List.flatMap_cons, hc, List.getElem?_append_right le_rfl,
        Nat.sub_self] at h
      cases h
      exact hhigh

/-- What is left of the unit before a cut. -/
def lastKept (u : UInt16) : UInt16 := if isHighSurrogate u then 0xFFFD else u

/-- The units before a cut are kept, only the first half of a pair is replaced. -/
theorem units_decode_take (h : (units text)[k]? = some u) :
    units (String.ofList (decode ((units text).take (k + 1)))) = (units text).take k ++ [lastKept u] := by
  rw [units, String.toList_ofList]
  cases cutBehind_of_getElem? h with
  | between before after hu ht hl =>
    have htake : (units text).take (k + 1) = before.flatMap unitsOfChar := by
      rw [units, ht, List.flatMap_append, ← hl, List.take_left]
    have hwhole : decode ((units text).take (k + 1)) = before := by
      rw [htake, ← List.append_nil (before.flatMap _), decode_flatMap, decode, List.append_nil]
    rw [hwhole, ← htake, List.take_add_one, h, lastKept, hu]
    rfl
  | inPair before c after hu ht _ hl =>
    have htake : (units text).take k = before.flatMap unitsOfChar := by
      rw [units, ht, List.flatMap_append, ← hl, List.take_left]
    have hhalf : decode ((units text).take (k + 1)) = before ++ [replacement] := by
      rw [List.take_add_one, h, htake, Option.toList_some, decode_flatMap, decode, charOfUnit, hu]
      rfl
    rw [hhalf, List.flatMap_append, htake, lastKept, hu]
    rfl

end Text.Utf16

open Text Utf16

namespace Identifier

variable {identifier other : String}

theorem shorten_of_le (h : (units identifier).length ≤ maxUnits) : shorten identifier = identifier :=
  if_pos h

/-- What a shortened identifier ends with: the absolute value of the hash in decimal digits. -/
def hashEnding (identifier : String) : String := "_" ++ toString (hash identifier).toInt.natAbs ++ "]"

theorem shorten_of_lt (h : maxUnits < (units identifier).length) :
    shorten identifier =
      String.ofList (decode ((units identifier).take keptUnits)) ++ hashEnding identifier := by
  unfold shorten
  dsimp only
  rw [if_neg (Nat.not_le.2 h), hashEnding, String.append_assoc, String.append_assoc, String.append_assoc]

/-- The units of an identifier that is too long, when it is shortened. -/
theorem units_shorten (h : maxUnits < (units identifier).length) :
    ∃ u, (units identifier)[115]? = some u ∧
      units (shorten identifier) =
        (units identifier).take 115 ++ lastKept u :: units (hashEnding identifier) := by
  have hlast : 115 < (units identifier).length := lt_trans (by decide) h
  refine ⟨_, List.getElem?_eq_getElem hlast, ?_⟩
  have hkept : keptUnits = 115 + 1 := rfl
  rw [shorten_of_lt h, units_append, hkept, units_decode_take (List.getElem?_eq_getElem hlast),
    List.append_assoc, List.singleton_append]

theorem shorten_shorten (identifier : String) : shorten (shorten identifier) = shorten identifier :=
  shorten_of_le (length_units_shorten_le identifier)

theorem toList_shorten_brackets (hs : identifier.toList.head? = some '[')
    (he : identifier.toList.getLast? = some ']') :
    (shorten identifier).toList.head? = some '[' ∧ (shorten identifier).toList.getLast? = some ']' := by
  by_cases h : (units identifier).length ≤ maxUnits
  · rw [shorten_of_le h]
    exact ⟨hs, he⟩
  · obtain ⟨rest, hrest⟩ : ∃ rest, identifier.toList = '[' :: rest := List.head?_eq_some_iff.1 hs
    have hunits : units identifier = unitsOfChar '[' ++ rest.flatMap unitsOfChar := by
      rw [units, hrest, List.flatMap_cons]
    have hkept : (units identifier).take keptUnits =
        unitsOfChar '[' ++ (rest.flatMap unitsOfChar).take 115 := by
      rw [hunits]
      rfl
    rw [shorten_of_lt (Nat.lt_of_not_le h), String.toList_append, String.toList_ofList, hkept,
      decode_unitsOfChar]
    refine ⟨rfl, ?_⟩
    rw [hashEnding, String.toList_append, ← List.append_assoc]
    exact List.getLast?_concat

/-- The digits tell the absolute value of the hash. -/
theorem natAbs_eq_of_hashEnding (h : hashEnding identifier = hashEnding other) :
    (hash identifier).toInt.natAbs = (hash other).toInt.natAbs := by
  have hlists := congrArg String.toList h
  simp only [hashEnding, String.toList_append, List.append_cancel_left_eq,
    List.append_cancel_right_eq] at hlists
  have hread : ∀ n : Nat, Nat.ofDigitChars 10 (toString n).toList 0 = n :=
    fun n => (Decimal.ofDigitChars_repr n).2.2
  rw [← hread (hash identifier).toInt.natAbs, hlists, hread]

/-- What can be read off a shortened identifier. -/
theorem kept_of_shorten_eq (hi : maxUnits < (units identifier).length)
    (ho : maxUnits < (units other).length) (h : shorten identifier = shorten other) :
    (units identifier).take 115 = (units other).take 115 ∧
      (hash identifier).toInt.natAbs = (hash other).toInt.natAbs := by
  obtain ⟨u, -, hu⟩ := units_shorten hi
  obtain ⟨v, -, hv⟩ := units_shorten ho
  have hlength : ((units identifier).take 115).length = ((units other).take 115).length := by
    have hmax : maxUnits = 128 := rfl
    rw [List.length_take, List.length_take]
    omega
  rw [h, hv] at hu
  obtain ⟨hkept, hrest⟩ := List.append_inj hu.symm hlength
  exact ⟨hkept, natAbs_eq_of_hashEnding (units_injective (List.cons.inj hrest).2)⟩

/-- An identifier of at most 128 units stays as it is. Of a longer one, the first 116 units are kept,
where the last of them is replaced exactly if a surrogate pair is cut in half, and the digits of the
hash follow. So the result always fits, is not shortened any further and keeps brackets around it; the
first 115 units and the absolute value of the hash can be read off it. -/
theorem shorten_keeps_front_and_hash (identifier : String) :
    ((units identifier).length ≤ 128 → shorten identifier = identifier) ∧
    (128 < (units identifier).length → ∃ u, (units identifier)[115]? = some u ∧
      units (shorten identifier) = (units identifier).take 115 ++ lastKept u ::
        units ("_" ++ toString (hash identifier).toInt.natAbs ++ "]") ∧
      (StartsPair identifier 115 → lastKept u = 0xFFFD) ∧ (¬StartsPair identifier 115 → lastKept u = u) ∧
      (hash identifier = Int32.minValue →
        toString (hash identifier).toInt.natAbs = "2147483648")) ∧
    (units (shorten identifier)).length ≤ 128 ∧
    shorten (shorten identifier) = shorten identifier ∧
    (identifier.toList.head? = some '[' → identifier.toList.getLast? = some ']' →
      (shorten identifier).toList.head? = some '[' ∧ (shorten identifier).toList.getLast? = some ']') ∧
    ∀ other, 128 < (units identifier).length → 128 < (units other).length →
      shorten identifier = shorten other →
      (units identifier).take 115 = (units other).take 115 ∧
        (hash identifier).toInt.natAbs = (hash other).toInt.natAbs := by
  refine ⟨shorten_of_le, ?_, length_units_shorten_le identifier, shorten_shorten identifier,
    toList_shorten_brackets, fun other => kept_of_shorten_eq⟩
  intro h
  obtain ⟨u, hu, hs⟩ := units_shorten h
  refine ⟨u, hu, hs, ?_, ?_, ?_⟩
  · intro hpair
    rw [lastKept, if_pos ((isHighSurrogate_iff_startsPair hu).2 hpair)]
  · intro hpair
    rw [lastKept, if_neg (mt (isHighSurrogate_iff_startsPair hu).1 hpair)]
  · intro hleast
    rw [hleast]
    rfl

/-- A name in brackets, with a picture where it is cut. -/
def picturedName : String :=
  "[" ++ String.ofList (List.replicate 114 'a') ++ "😀" ++ String.ofList (List.replicate 20 'a') ++ "]"

theorem pictured_name_cut : 128 < (units picturedName).length ∧ StartsPair picturedName 115 ∧
    units (shorten picturedName) = (units picturedName).take 115 ++ 0xFFFD :: units "_1465650989]" ∧
    (shorten picturedName).toList.getLast? = some ']' := by
  have hlong : 128 < (units picturedName).length := by decide +kernel
  have hpair : StartsPair picturedName 115 :=
    ⟨'[' :: List.replicate 114 'a', '😀', List.replicate 20 'a' ++ [']'], by decide +kernel, by decide,
      by decide +kernel⟩
  have hhash : (hash picturedName).toInt.natAbs = 1465650989 := by decide +kernel
  obtain ⟨-, hunits, -, -, hbrackets, -⟩ := shorten_keeps_front_and_hash picturedName
  obtain ⟨u, -, hkept, hcut, -⟩ := hunits hlong
  rw [hcut hpair, hhash] at hkept
  exact ⟨hlong, hpair, hkept, (hbrackets (by decide +kernel) (by decide +kernel)).2⟩

end Identifier

end DatabaseProject
