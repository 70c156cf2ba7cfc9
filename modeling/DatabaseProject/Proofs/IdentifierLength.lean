import Mathlib.Data.Nat.Digits.Defs
import DatabaseProject.Proofs.CodeUnits
import DatabaseProject.Proofs.ScriptText

/-!
# The length of coined names

The script of a table holds names that nobody declared: those of its foreign keys, and that of the
index that makes it a columnstore. Lengths count UTF-16 code units. A surrogate that loses its partner
where a name is cut still counts as one unit, so that a shortened name fits; the name of the index is
not shortened, and fits as long as six more units do behind the name of the table.
-/

namespace DatabaseProject

namespace Text.Utf16

theorem units_append (text rest : String) : units (text ++ rest) = units text ++ units rest := by
  simp [units]

theorem length_unitsOfChar_of_lt {c : Char} (h : c.toNat < 0x10000) : (unitsOfChar c).length = 1 := by
  simp [unitsOfChar, h]

theorem length_unitsOfChar_of_le {c : Char} (h : 0x10000 ≤ c.toNat) : (unitsOfChar c).length = 2 := by
  simp [unitsOfChar, Nat.not_lt.2 h]

theorem length_units_of_lt {text : String} (h : ∀ c ∈ text.toList, c.toNat < 0x10000) :
    (units text).length = text.length := by
  have hone : ∀ chars : List Char, (∀ c ∈ chars, c.toNat < 0x10000) →
      (chars.flatMap unitsOfChar).length = chars.length := by
    intro chars hchars
    induction chars with
    | nil => rfl
    | cons c rest ih =>
      rw [List.forall_mem_cons] at hchars
      rw [List.flatMap_cons, List.length_append, length_unitsOfChar_of_lt hchars.1, ih hchars.2,
        List.length_cons]
      omega
  rw [units, hone _ h, String.length_toList]

theorem length_unitsOfChar_charOfUnit (u : UInt16) : (unitsOfChar (charOfUnit u)).length = 1 := by
  apply length_unitsOfChar_of_lt
  have hreplacement : replacement.toNat = 0xFFFD := rfl
  have hu := u.toNat_lt
  obtain h | h := toNat_charOfUnit u
  · rw [h, hreplacement]
    omega
  · rw [h]
    omega

/-- Units are decoded to a text of as many units, whatever surrogates have lost their partners. -/
theorem length_units_decode (us : List UInt16) : (units (String.ofList (decode us))).length = us.length := by
  rw [units, String.toList_ofList]
  induction us using decode.induct with
  | case1 => rfl
  | case2 u => rw [decode, List.flatMap_singleton, length_unitsOfChar_charOfUnit, List.length_singleton]
  | case3 u v rest hpair ih =>
    obtain ⟨hu, hv⟩ := Bool.and_eq_true_iff.1 hpair
    rw [decode, if_pos hpair, List.flatMap_cons, List.length_append, ih,
      length_unitsOfChar_of_le (le_toNat_charOfPair hu hv), List.length_cons, List.length_cons]
    omega
  | case4 u v rest hpair ih =>
    rw [decode, if_neg hpair, List.flatMap_cons, List.length_append, ih, length_unitsOfChar_charOfUnit,
      List.length_cons (a := u)]
    omega

end Text.Utf16

open Text

namespace Identifier

theorem natAbs_toInt_lt (n : Int32) : n.toInt.natAbs < 10 ^ 10 := by
  have hleast : Int32.minValue.toInt = -2147483648 := rfl
  have hgreatest : Int32.maxValue.toInt = 2147483647 := rfl
  have hlow := n.minValue_le_toInt
  have hhigh := n.toInt_le
  omega

/-- The absolute value of a 32-bit integer has at most ten digits. -/
theorem length_units_natAbs_le (n : Int32) : (Utf16.units (toString n.toInt.natAbs)).length ≤ 10 := by
  have hdigits : ∀ c ∈ (toString n.toInt.natAbs).toList, c.toNat < 0x10000 := by
    intro c hc
    have hdigit : c.isDigit = true := (Decimal.ofDigitChars_repr _).2.1 c hc
    simp only [Char.isDigit, Bool.and_eq_true, decide_eq_true_eq, UInt32.le_iff_toNat_le] at hdigit
    have hnine := hdigit.2
    change c.toNat ≤ 57 at hnine
    omega
  rw [Utf16.length_units_of_lt hdigits]
  exact Nat.repr_length _ _ (by decide) (natAbs_toInt_lt n)

theorem length_units_shorten_le (identifier : String) :
    (Utf16.units (shorten identifier)).length ≤ maxUnits := by
  unfold shorten
  dsimp only
  by_cases h : (Utf16.units identifier).length ≤ maxUnits
  · rw [if_pos h]
    exact h
  · have hkept : (Utf16.units (String.ofList (Utf16.decode
        ((Utf16.units identifier).take keptUnits)))).length ≤ keptUnits := by
      rw [Utf16.length_units_decode]
      exact List.length_take_le _ _
    have hdigits := length_units_natAbs_le (hash identifier)
    have hunderscore : (Utf16.units "_").length = 1 := by decide
    have hbracket : (Utf16.units "]").length = 1 := by decide
    have hmax : maxUnits = keptUnits + 12 := rfl
    rw [if_neg h, Utf16.units_append, Utf16.units_append, Utf16.units_append]
    simp only [List.length_append]
    omega

end Identifier

namespace Table

open Identifier

variable {table : Table} {text : String}

/-- The names in a table's script that are not declared: what its foreign keys are called, in both
statements of each, and what the index of a columnstore is called. -/
def coinedNames (table : Table) : List String :=
  table.foreignKeys.map (fun key => shorten key.name)
    ++ if table.compression.isColumnStore then ["CCSIX_" ++ table.name] else []

theorem length_units_indexName (table : Table) :
    (Utf16.units ("CCSIX_" ++ table.name)).length = 6 + (Utf16.units table.name).length := by
  have hprefix : (Utf16.units "CCSIX_").length = 6 := by decide
  rw [Utf16.units_append, List.length_append, hprefix]

theorem mem_coinedNames {name : String} : name ∈ table.coinedNames ↔
    (∃ key ∈ table.foreignKeys, shorten key.name = name) ∨
      (table.compression.isColumnStore = true ∧ name = "CCSIX_" ++ table.name) := by
  unfold coinedNames
  by_cases hs : table.compression.isColumnStore = true
  · simp [hs]
  · simp [hs]

/-- The names of foreign keys always fit. All coined names fit exactly when the table is no columnstore
or its own name leaves room for six more units; none is longer than that. -/
theorem coined_names_fit_iff (h : table.script = .ok text) :
    text = table.written ∧
    (∀ key ∈ table.foreignKeys, (Utf16.units (shorten key.name)).length ≤ maxUnits) ∧
    ((∀ name ∈ table.coinedNames, (Utf16.units name).length ≤ maxUnits) ↔
      (table.compression.isColumnStore = true → (Utf16.units table.name).length + 6 ≤ maxUnits)) ∧
    ((Utf16.units table.name).length ≤ maxUnits →
      ∀ name ∈ table.coinedNames, (Utf16.units name).length ≤ maxUnits + 6) := by
  have hindex := table.length_units_indexName
  refine ⟨written_of_script h, fun key _ => length_units_shorten_le key.name, ⟨?_, ?_⟩, ?_⟩
  · intro hall hs
    have hname := hall _ (mem_coinedNames.2 (.inr ⟨hs, rfl⟩))
    omega
  · intro hfits name hn
    obtain ⟨key, -, rfl⟩ | ⟨hs, rfl⟩ := mem_coinedNames.1 hn
    · exact length_units_shorten_le key.name
    · have hroom := hfits hs
      omega
  · intro hname name hn
    obtain ⟨key, -, rfl⟩ | ⟨hs, rfl⟩ := mem_coinedNames.1 hn
    · exact (length_units_shorten_le key.name).trans (Nat.le_add_right _ _)
    · omega

/-- Readings in a columnstore with a name of some length, below a table with a name of the greatest. -/
def longNamedReadings (length : Nat) : TableDecl where
  name := String.ofList (List.replicate length 'R')
  schema := "dbo"
  compression := .columnStore
  columns := [.plain ⟨"Id", .int32, -1, -1, -1, false⟩,
    .foreignKey ⟨"SensorId", "dbo", String.ofList (List.replicate maxUnits 'S'), "Id", false⟩]
  primaryKey := none
  indexes := []
  triggers := []

theorem length_units_replicate {c : Char} (hc : c.toNat < 0x10000) (length : Nat) :
    (Utf16.units (String.ofList (List.replicate length c))).length = length := by
  rw [Utf16.length_units_of_lt, String.length_ofList, List.length_replicate]
  intro d hd
  rw [String.toList_ofList] at hd
  rw [List.eq_of_mem_replicate hd]
  exact hc

/-- What is built of the readings, where every reference leads to a number. -/
theorem longNamedReadings_built (length : Nat) : ∃ table,
    build "Shop" (fun _ => .ok ⟨"Id", "int", false, -1, -1, -1, none⟩) (longNamedReadings length) =
      .ok table ∧ table.script = .ok table.written ∧ table.compression = .columnStore ∧
      table.name = String.ofList (List.replicate length 'R') := by
  obtain ⟨table, hb, hnames, hs, hn⟩ : ∃ table,
      build "Shop" (fun _ => .ok ⟨"Id", "int", false, -1, -1, -1, none⟩) (longNamedReadings length) =
        .ok table ∧ table.scriptNames = ["Id", "SensorId", "SensorId", "Id"] ∧
        table.compression = .columnStore ∧ table.name = String.ofList (List.replicate length 'R') :=
    ⟨_, rfl, rfl, rfl, rfl⟩
  have hw : Writable table.scriptNames := by
    rw [hnames]
    decide
  exact ⟨table, hb, script_eq hw, hs, hn⟩

theorem readings_coined_names_fit : ∃ table text,
    build "Shop" (fun _ => .ok ⟨"Id", "int", false, -1, -1, -1, none⟩) (longNamedReadings 122) =
      .ok table ∧ table.script = .ok text ∧ table.compression = .columnStore ∧
      ∀ name ∈ table.coinedNames, (Utf16.units name).length ≤ maxUnits := by
  obtain ⟨table, hb, hscript, hs, hn⟩ := longNamedReadings_built 122
  obtain ⟨-, -, hfit, -⟩ := coined_names_fit_iff hscript
  refine ⟨table, _, hb, hscript, hs, hfit.2 fun _ => ?_⟩
  rw [hn, length_units_replicate (by decide)]
  decide

/-- No declared name is too long, but the name of the columnstore index is. -/
theorem columnstore_index_name_too_long : ∃ table text,
    build "Shop" (fun _ => .ok ⟨"Id", "int", false, -1, -1, -1, none⟩) (longNamedReadings 123) =
      .ok table ∧ (∀ name ∈ (longNamedReadings 123).names, (Utf16.units name).length ≤ maxUnits) ∧
      table.script = .ok text ∧
      ∃ name ∈ table.coinedNames, (Utf16.units name).length = maxUnits + 1 := by
  obtain ⟨table, hb, hscript, hs, hn⟩ := longNamedReadings_built 123
  refine ⟨table, _, hb, ?_, hscript, "CCSIX_" ++ table.name, ?_, ?_⟩
  · have hown := length_units_replicate (c := 'R') (by decide) 123
    have hsensors := length_units_replicate (c := 'S') (by decide) maxUnits
    simp only [TableDecl.names, longNamedReadings, ColumnDecl.names, List.flatMap_cons,
      List.flatMap_nil, Option.toList_none, List.append_nil, List.cons_append, List.nil_append,
      List.forall_mem_cons, List.not_mem_nil, false_imp_iff, implies_true, and_true, hown, hsensors]
    decide
  · rw [mem_coinedNames, hs]
    exact .inr ⟨rfl, rfl⟩
  · rw [length_units_indexName, hn, length_units_replicate (by decide)]
    rfl

end Table

end DatabaseProject
