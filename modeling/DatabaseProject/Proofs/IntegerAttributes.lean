import DatabaseProject.Proofs.Attributes

/-!
# Integer attributes

An integer attribute is read as the integer that its text spells between white space, if that integer has
32 bits; every other text is a fault of the definition. The reader looks at the range once, behind all
digits. A reader in words of 32 bits, which counts up or down from zero and stops at the first word that
does not fit, finds the same: a number that has left the range with its first digits does not come back
with later ones, and counting down reaches the least integer, which has no positive counterpart.
-/

namespace DatabaseProject

namespace Text.Decimal

variable {cs : List Char} {z sign : Int} {word : Int32} {value m : Nat} {text : String}

theorem int32OfInt?_eq_none : int32OfInt? z = none ↔ z < -2147483648 ∨ 2147483647 < z := by
  have hleast : Int32.minValue.toInt = -2147483648 := rfl
  have hgreatest : Int32.maxValue.toInt = 2147483647 := rfl
  unfold int32OfInt?
  split
  · exact iff_of_false (by simp) (by omega)
  · exact iff_of_true rfl (by omega)

theorem exists_toInt_eq : (∃ n : Int32, n.toInt = z) ↔ -2147483648 ≤ z ∧ z ≤ 2147483647 := by
  constructor
  · rintro ⟨n, rfl⟩
    have hlow := n.le_toInt
    have hhigh := n.toInt_lt
    omega
  · rintro ⟨hlow, hhigh⟩
    exact ⟨Int32.ofInt z, Int32.toInt_ofInt_of_le hlow (by omega)⟩

/-- The word of a number with one more digit, counted up or down; none when ten times the number or the
result does not fit. -/
def nextWord? (sign : Int) (word : Int32) (c : Char) : Option Int32 := do
  let d ← digit? c
  let tens ← int32OfInt? (10 * word.toInt)
  int32OfInt? (tens.toInt + sign * d)

/-- The word of one or more digits, counted up or down. -/
def digitsWord? (sign : Int) : List Char → Option Int32
  | [] => none
  | cs => cs.foldlM (nextWord? sign) 0

/-- The word of an optional sign and digits. -/
def word? : List Char → Option Int32
  | '-' :: cs => digitsWord? (-1) cs
  | '+' :: cs => digitsWord? 1 cs
  | cs => digitsWord? 1 cs

/-- More digits make no number smaller. -/
theorem le_of_natFrom? (h : natFrom? value cs = some m) : value ≤ m := by
  induction cs generalizing value with
  | nil => exact (Option.some.inj h).le
  | cons c cs ih =>
    obtain ⟨d, -, hrest⟩ := Option.bind_eq_some_iff.1 h
    have hle := ih hrest
    omega

/-- What has left the range does not come back to it. -/
theorem int32OfInt?_none_of_le (hs : sign = 1 ∨ sign = -1) (h : int32OfInt? (sign * value) = none)
    (hle : value ≤ m) : int32OfInt? (sign * m) = none := by
  have hout := int32OfInt?_eq_none.1 h
  exact int32OfInt?_eq_none.2 (by rcases hs with rfl | rfl <;> omega)

/-- A step in words is the step in integers, if the result fits. -/
theorem nextWord?_eq (hs : sign = 1 ∨ sign = -1) (hw : word.toInt = sign * value) (c : Char) :
    nextWord? sign word c = (digit? c).bind fun d => int32OfInt? (sign * (10 * value + d : Nat)) := by
  unfold nextWord?
  cases digit? c with
  | none => rfl
  | some d =>
    have htens : 10 * word.toInt = sign * (10 * value : Nat) := by
      rcases hs with rfl | rfl <;> omega
    change (int32OfInt? (10 * word.toInt)).bind (fun tens => int32OfInt? (tens.toInt + sign * d)) =
      int32OfInt? (sign * (10 * value + d : Nat))
    rw [htens]
    cases hfit : int32OfInt? (sign * (10 * value : Nat)) with
    | none => exact (int32OfInt?_none_of_le hs hfit (Nat.le_add_right _ d)).symm
    | some tens =>
      have hexact := int32OfInt?_eq_some.1 hfit
      change int32OfInt? (tens.toInt + sign * d) = _
      rw [← hexact, ← Int.mul_add, ← Int.natCast_add]

/-- All digits in words are all digits in integers, if the result fits: then every step before it fits,
because the number only grows. -/
theorem foldlM_nextWord? (hs : sign = 1 ∨ sign = -1) (hw : word.toInt = sign * value) :
    cs.foldlM (nextWord? sign) word = (natFrom? value cs).bind fun m => int32OfInt? (sign * m) := by
  induction cs generalizing word value with
  | nil => exact (int32OfInt?_eq_some.2 hw.symm).symm
  | cons c cs ih =>
    rw [List.foldlM_cons, nextWord?_eq hs hw, natFrom?]
    cases digit? c with
    | none => rfl
    | some d =>
      change (int32OfInt? (sign * (10 * value + d : Nat))).bind (List.foldlM (nextWord? sign) · cs) =
        (natFrom? (10 * value + d) cs).bind fun m => int32OfInt? (sign * m)
      cases hnext : int32OfInt? (sign * (10 * value + d : Nat)) with
      | none =>
        symm
        rw [Option.bind_none, Option.bind_eq_none_iff]
        exact fun m hm => int32OfInt?_none_of_le hs hnext (le_of_natFrom? hm)
      | some next => exact ih (int32OfInt?_eq_some.1 hnext).symm

theorem digitsWord?_eq (hs : sign = 1 ∨ sign = -1) :
    digitsWord? sign cs = (nat? cs).bind fun m => int32OfInt? (sign * m) := by
  cases cs with
  | nil => rfl
  | cons c cs => exact foldlM_nextWord? hs (by simp)

/-- Reading in words finds the integer, if it fits. -/
theorem word?_eq : word? cs = (int? cs).bind int32OfInt? := by
  unfold word? int?
  split <;> simp [digitsWord?_eq, Option.bind_assoc]

/-- A text that is an integer of any size, but for white space before and behind it. -/
def Spells (text : String) (z : Int) : Prop :=
  ∃ before word after, text.toList = before ++ word ++ after ∧ (∀ c ∈ before, isBlank c = true) ∧
    (∀ c ∈ after, isBlank c = true) ∧ Numeral word z

theorem exists_int32?_eq_some : (∃ n, int32? text = some n ∧ n.toInt = z) ↔
    Spells text z ∧ -2147483648 ≤ z ∧ z ≤ 2147483647 := by
  rw [← exists_toInt_eq]
  constructor
  · rintro ⟨n, hread, rfl⟩
    exact ⟨int32?_eq_some.1 hread, n, rfl⟩
  · rintro ⟨hspells, n, rfl⟩
    exact ⟨n, int32?_eq_some.2 hspells, rfl⟩

theorem int32?_eq_none : int32? text = none ↔
    ∀ z, Spells text z → z < -2147483648 ∨ 2147483647 < z := by
  constructor
  · intro hnone z hspells
    by_contra hin
    obtain ⟨n, hread, -⟩ := exists_int32?_eq_some.2 ⟨hspells, by omega, by omega⟩
    rw [hnone] at hread
    cases hread
  · intro hout
    rw [Option.eq_none_iff_forall_ne_some]
    intro n hread
    obtain ⟨hspells, hlow, hhigh⟩ := exists_int32?_eq_some.1 ⟨n, hread, rfl⟩
    have hbeyond := hout n.toInt hspells
    omega

/-- The decimal text of a word spells it, whatever white space is around. -/
theorem int32?_between {n : Int32} {before after : List Char} (hb : ∀ c ∈ before, isBlank c = true)
    (ha : ∀ c ∈ after, isBlank c = true) (he : text.toList = before ++ (toString n).toList ++ after) :
    int32? text = some n :=
  int32?_eq_some.2 ⟨before, (toString n).toList, after, he, hb, ha, numeral_repr n.toInt⟩

example : int32? "-0000000000002147483648" = some (-2147483648) ∧ int32? "2147483648" = none ∧
    int32? "-" = none ∧ int32? "+-1" = none := by decide

end Text.Decimal

namespace Xml.Element

open Text Text.Decimal

variable {e : Element} {name text : String} {default n : Int32}

theorem int32_eq_ok_of_text (h : e.attribute? name = some text) :
    e.int32 name default = .ok n ↔ int32? text = some n := by
  rw [int32_eq_ok, int32?_eq_some, HasInt32, h]

theorem int32_eq_error_of_text (h : e.attribute? name = some text) {fault : DefinitionFault} :
    e.int32 name default = .error fault ↔
      fault = .notInteger name e.name text ∧ int32? text = none := by
  rw [int32, h]
  dsimp only
  cases int32? text <;> simp [eq_comm]

/-- As an error of a run, the fault names the attribute and shows its text. -/
theorem mapError_int32_eq_error (h : e.attribute? name = some text) {error : GenerationError} :
    (e.int32 name default).mapError .invalidDefinition = .error error ↔
      error = .invalidDefinition (.notInteger name e.name text) ∧ int32? text = none := by
  cases hread : e.int32 name default with
  | ok n =>
    have hsome := (int32_eq_ok_of_text h).1 hread
    exact iff_of_false (by simp [Except.mapError]) (by simp [hsome])
  | error fault =>
    obtain ⟨rfl, hnone⟩ := (int32_eq_error_of_text h).1 hread
    simp [Except.mapError, hnone, eq_comm]

/-- An integer attribute is read as the integer that its text spells, if that is one of 32 bits, and is
refused with its name and text otherwise. Reading in words gives the same, so no step wraps around. The
decimal text of every word is read as that word. -/
theorem int32_reads_exactly (default : Int32) (h : e.attribute? name = some text) :
    (∀ z, (∃ n, e.int32 name default = .ok n ∧ n.toInt = z) ↔
      Spells text z ∧ -2147483648 ≤ z ∧ z ≤ 2147483647) ∧
    (∀ error, (e.int32 name default).mapError GenerationError.invalidDefinition = .error error ↔
      error = .invalidDefinition (.notInteger name e.name text) ∧
        ∀ z, Spells text z → z < -2147483648 ∨ 2147483647 < z) ∧
    (∀ n, e.int32 name default = .ok n ↔ word? (trimmed text.toList) = some n) ∧
    ∀ (n : Int32) (before after : List Char), (∀ c ∈ before, isBlank c = true) →
      (∀ c ∈ after, isBlank c = true) → text.toList = before ++ (toString n).toList ++ after →
      e.int32 name default = .ok n := by
  refine ⟨fun z => ?_, fun error => ?_, fun n => ?_, fun n before after hb ha he => ?_⟩
  · simp only [int32_eq_ok_of_text h]
    exact exists_int32?_eq_some
  · rw [← int32?_eq_none]
    exact mapError_int32_eq_error h
  · rw [int32_eq_ok_of_text h, word?_eq]
    rfl
  · exact (int32_eq_ok_of_text h).2 (int32?_between hb ha he)

/-- A text column with a length as it is written. -/
def columnOfLength (length : String) : Element :=
  ⟨"TableColumn", [⟨none, "Name", "Label"⟩, ⟨none, "DataType", "String"⟩, ⟨none, "Length", length⟩], []⟩

theorem least_length_read :
    (columnOfLength "\u00A0-2147483648\n").attribute? "Length" = some "\u00A0-2147483648\n" ∧
    (columnOfLength "\u00A0-2147483648\n").int32 "Length" 0 = .ok (-2147483648) ∧
    word? "-2147483648".toList = some (-2147483648) ∧
    (columnOfLength "+002147483648").attribute? "Length" = some "+002147483648" ∧
    ((columnOfLength "+002147483648").int32 "Length" 0).mapError GenerationError.invalidDefinition =
      .error (.invalidDefinition (.notInteger "Length" "TableColumn" "+002147483648")) ∧
    ∀ z, Spells "+002147483648" z → z < -2147483648 ∨ 2147483647 < z := by
  have hleast : (columnOfLength "\u00A0-2147483648\n").attribute? "Length" =
    some "\u00A0-2147483648\n" := rfl
  have hread := (int32_reads_exactly 0 hleast).2.2.2 (-2147483648) ['\u00A0'] ['\n']
    (List.forall_mem_singleton.2 rfl) (List.forall_mem_singleton.2 rfl) (by decide)
  have hword := ((int32_reads_exactly 0 hleast).2.2.1 (-2147483648)).1 hread
  have hbeyond : (columnOfLength "+002147483648").attribute? "Length" = some "+002147483648" := rfl
  have hrefused : ((columnOfLength "+002147483648").int32 "Length" 0).mapError
    GenerationError.invalidDefinition =
      .error (.invalidDefinition (.notInteger "Length" "TableColumn" "+002147483648")) := rfl
  have hout := (((int32_reads_exactly 0 hbeyond).2.1 _).1 hrefused).2
  exact ⟨hleast, hread, hword, hbeyond, hrefused, hout⟩

end Xml.Element

end DatabaseProject
