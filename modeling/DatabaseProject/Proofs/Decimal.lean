import Mathlib.Data.List.TakeWhile
import DatabaseProject.Text.Decimal

/-!
# Written integers

Which texts write a 32-bit integer, and which one: an optional sign and digits, between white space.
The decimal text of an integer writes the integer.
-/

namespace DatabaseProject.Text

theorem trimmed_between {before word after : List Char} (hne : word ≠ [])
    (hb : ∀ c ∈ before, isBlank c = true) (ha : ∀ c ∈ after, isBlank c = true)
    (hw : ∀ c ∈ word, isBlank c = false) : trimmed (before ++ word ++ after) = word := by
  have hstop : ∀ (cs rest : List Char), cs ≠ [] → (∀ c ∈ cs, isBlank c = false) →
      (cs ++ rest).dropWhile isBlank = cs ++ rest := by
    intro cs rest hcs hclear
    obtain ⟨c, cs, rfl⟩ := List.exists_cons_of_ne_nil hcs
    rw [List.cons_append, List.dropWhile_cons_of_neg (by simp [hclear c])]
  rw [trimmed, List.append_assoc, List.dropWhile_append_of_pos hb, hstop word after hne hw,
    List.reverse_append, List.dropWhile_append_of_pos fun c hc => ha c (List.mem_reverse.1 hc)]
  have hreverse := hstop word.reverse [] (by simpa using hne) fun c hc => hw c (List.mem_reverse.1 hc)
  rw [List.append_nil] at hreverse
  rw [hreverse, List.reverse_reverse]

theorem exists_around_trimmed (cs : List Char) : ∃ before after, cs = before ++ trimmed cs ++ after ∧
    (∀ c ∈ before, isBlank c = true) ∧ ∀ c ∈ after, isBlank c = true := by
  refine ⟨cs.takeWhile isBlank, ((cs.dropWhile isBlank).reverse.takeWhile isBlank).reverse, ?_,
    fun c => List.mem_takeWhile_imp, fun c hc => List.mem_takeWhile_imp (List.mem_reverse.1 hc)⟩
  rw [trimmed, List.append_assoc, ← List.reverse_append, List.takeWhile_append_dropWhile,
    List.reverse_reverse, List.takeWhile_append_dropWhile]

namespace Decimal

variable {cs : List Char} {z : Int} {n : Int32}

/-- Digits behind an optional sign, and the integer that they write. -/
inductive Numeral : List Char → Int → Prop
  | plain {digits : List Char} (hne : digits ≠ []) (hd : ∀ c ∈ digits, c.isDigit = true) :
    Numeral digits (Nat.ofDigitChars 10 digits 0)
  | plus {digits : List Char} (hne : digits ≠ []) (hd : ∀ c ∈ digits, c.isDigit = true) :
    Numeral ('+' :: digits) (Nat.ofDigitChars 10 digits 0)
  | minus {digits : List Char} (hne : digits ≠ []) (hd : ∀ c ∈ digits, c.isDigit = true) :
    Numeral ('-' :: digits) (-(Nat.ofDigitChars 10 digits 0))

/-- A text with a 32-bit integer between white space. -/
def Writes (text : String) (n : Int32) : Prop :=
  ∃ before word after, text.toList = before ++ word ++ after ∧ (∀ c ∈ before, isBlank c = true) ∧
    (∀ c ∈ after, isBlank c = true) ∧ Numeral word n.toInt

theorem digit?_eq_some {c : Char} {d : Nat} :
    digit? c = some d ↔ c.isDigit = true ∧ d = c.toNat - '0'.toNat := by
  have hdigit : c.isDigit = true ↔ '0' ≤ c ∧ c ≤ '9' := by
    rw [Char.isDigit, Bool.and_eq_true, decide_eq_true_eq, decide_eq_true_eq]
    rfl
  rw [hdigit, digit?]
  split
  · rename_i hc
    rw [Option.some.injEq]
    exact ⟨fun hd => ⟨hc, hd.symm⟩, fun hd => hd.2.symm⟩
  · rename_i hc
    exact iff_of_false (by simp) fun hd => hc hd.1

theorem natFrom?_eq_some {value m : Nat} : natFrom? value cs = some m ↔
    (∀ c ∈ cs, c.isDigit = true) ∧ m = Nat.ofDigitChars 10 cs value := by
  induction cs generalizing value with
  | nil =>
    rw [natFrom?, Option.some.injEq, Nat.ofDigitChars_nil]
    exact ⟨fun h => ⟨fun c hc => (List.not_mem_nil hc).elim, h.symm⟩, fun h => h.2.symm⟩
  | cons c cs ih =>
    simp only [natFrom?, Option.bind_eq_some_iff, digit?_eq_some, ih, List.forall_mem_cons]
    constructor
    · rintro ⟨_, ⟨hc, rfl⟩, hcs, rfl⟩
      exact ⟨⟨hc, hcs⟩, rfl⟩
    · rintro ⟨⟨hc, hcs⟩, rfl⟩
      exact ⟨_, ⟨hc, rfl⟩, hcs, rfl⟩

theorem nat?_eq_some {m : Nat} : nat? cs = some m ↔
    cs ≠ [] ∧ (∀ c ∈ cs, c.isDigit = true) ∧ m = Nat.ofDigitChars 10 cs 0 := by
  cases cs with
  | nil => simp [nat?]
  | cons c cs =>
    rw [nat?.eq_2 _ (by simp), natFrom?_eq_some]
    simp

theorem signed_eq_some {sign : Int → Int} :
    (do let m ← nat? cs; pure (m : Int)).map sign = some z ↔
      cs ≠ [] ∧ (∀ c ∈ cs, c.isDigit = true) ∧ z = sign (Nat.ofDigitChars 10 cs 0) := by
  simp only [Option.map_eq_some_iff, Option.bind_eq_bind, Option.bind_eq_some_iff, Option.pure_def,
    Option.some.injEq, nat?_eq_some]
  constructor
  · rintro ⟨_, ⟨_, ⟨hne, hd, rfl⟩, rfl⟩, rfl⟩
    exact ⟨hne, hd, rfl⟩
  · rintro ⟨hne, hd, rfl⟩
    exact ⟨_, ⟨_, ⟨hne, hd, rfl⟩, rfl⟩, rfl⟩

theorem int?_eq_some : int? cs = some z ↔ Numeral cs z := by
  constructor
  · intro h
    unfold int? at h
    split at h <;> obtain ⟨hne, hd, rfl⟩ := signed_eq_some.1 h
    · exact .minus hne hd
    · exact .plus hne hd
    · exact .plain hne hd
  · rintro (⟨hne, hd⟩ | ⟨hne, hd⟩ | ⟨hne, hd⟩)
    · have hsign : ∀ sign, sign.isDigit = false → ∀ rest, cs ≠ sign :: rest := by
        rintro sign hs rest rfl
        rw [hd sign List.mem_cons_self] at hs
        cases hs
      unfold int?
      split
      · exact (hsign '-' rfl _ rfl).elim
      · exact (hsign '+' rfl _ rfl).elim
      · exact signed_eq_some.2 ⟨hne, hd, rfl⟩
    · exact signed_eq_some.2 ⟨hne, hd, rfl⟩
    · exact signed_eq_some.2 ⟨hne, hd, rfl⟩

theorem Numeral.ne_nil (h : Numeral cs z) : cs ≠ [] := by
  cases h with
  | plain hne _ => exact hne
  | plus _ _ => exact List.cons_ne_nil _ _
  | minus _ _ => exact List.cons_ne_nil _ _

theorem isBlank_of_isDigit {c : Char} (h : c.isDigit = true) : isBlank c = false := by
  rw [Bool.eq_false_iff, isBlank, Ne, List.contains_iff_mem]
  intro hc
  have hall : blanks.all (fun blank => !blank.isDigit) = true := by decide
  have hblank := List.all_eq_true.1 hall c hc
  rw [h] at hblank
  cases hblank

theorem Numeral.isBlank (h : Numeral cs z) : ∀ c ∈ cs, isBlank c = false := by
  cases h with
  | plain _ hd => exact fun c hc => isBlank_of_isDigit (hd c hc)
  | plus _ hd => exact List.forall_mem_cons.2 ⟨by decide, fun c hc => isBlank_of_isDigit (hd c hc)⟩
  | minus _ hd => exact List.forall_mem_cons.2 ⟨by decide, fun c hc => isBlank_of_isDigit (hd c hc)⟩

theorem int32OfInt?_eq_some : int32OfInt? z = some n ↔ z = n.toInt := by
  unfold int32OfInt?
  split
  · rename_i hrange
    have hz : (Int32.ofInt z).toInt = z := Int32.toInt_ofInt_of_le hrange.1 (Int.lt_add_one_of_le hrange.2)
    rw [Option.some.injEq]
    constructor
    · rintro rfl
      exact hz.symm
    · rintro rfl
      exact Int32.ofInt_toInt n
  · rename_i hrange
    refine iff_of_false (by simp) ?_
    rintro rfl
    exact hrange ⟨n.minValue_le_toInt, n.toInt_le⟩

/-- What is read of a text is the integer that it writes. -/
theorem int32?_eq_some {text : String} : int32? text = some n ↔ Writes text n := by
  unfold int32?
  rw [Option.bind_eq_some_iff]
  simp only [int?_eq_some, int32OfInt?_eq_some, exists_eq_right]
  constructor
  · intro h
    obtain ⟨before, after, he, hb, ha⟩ := exists_around_trimmed text.toList
    exact ⟨before, _, after, he, hb, ha, h⟩
  · rintro ⟨before, word, after, he, hb, ha, h⟩
    rwa [he, trimmed_between h.ne_nil hb ha h.isBlank]

/-- The digits of a number write it. -/
theorem ofDigitChars_repr (m : Nat) : m.repr.toList ≠ [] ∧ (∀ c ∈ m.repr.toList, c.isDigit = true) ∧
    Nat.ofDigitChars 10 m.repr.toList 0 = m := by
  rw [Nat.toList_repr]
  exact ⟨Nat.toDigits_ne_nil, fun c => Nat.isDigit_of_mem_toDigits (by decide) le_rfl,
    Nat.ofDigitChars_ten_toDigits⟩

theorem numeral_repr (z : Int) : Numeral z.repr.toList z := by
  cases z with
  | ofNat m =>
    obtain ⟨hne, hd, hm⟩ := ofDigitChars_repr m
    have hplain := Numeral.plain hne hd
    rwa [hm] at hplain
  | negSucc m =>
    obtain ⟨hne, hd, hm⟩ := ofDigitChars_repr (m + 1)
    have hminus := Numeral.minus hne hd
    rw [hm] at hminus
    change Numeral ("-" ++ (m + 1).repr).toList _
    rwa [String.toList_append]

/-- The decimal text of an integer writes it. -/
theorem int32?_toString (n : Int32) : int32? (toString n) = some n :=
  int32?_eq_some.2 ⟨[], (toString n).toList, [], by simp, by simp, by simp, numeral_repr n.toInt⟩

end Decimal

end DatabaseProject.Text
