import DatabaseProject.Proofs.Batches
import DatabaseProject.Proofs.ConstraintNames

/-!
# Types of the columns of a database

From every column of a constructed database the references lead to a column with a type of its own, and
each column on the way has the type of the next one. So every type in a database is the type of some
declared column, as the server writes it: in small letters, digits, brackets, commas and blanks, to which
scripts only add `MAX`.
-/

namespace DatabaseProject

open Outcome Text

/-- The type of a column is one that some declaration makes. -/
def Column.HasServerType (column : Column) : Prop :=
  ∃ (type : LogicalType) (length precision scale : Int32),
    type.sqlType? length precision scale = some column.dataType

namespace Database

variable {decl : DatabaseDecl} {db : Database} {resolve : ColumnResolver}

/-- A column that refers to no other one has the type of its declaration. -/
theorem Realises.type_of_plain (h : db.Realises resolve decl) {ref : ColumnRef} {column : Column}
    (hc : db.column? ref = some column) (hown : column.references = none) : column.HasServerType := by
  obtain ⟨table, htable, hget⟩ := Option.bind_eq_some_iff.1 hc
  obtain ⟨schema, hs, ho⟩ := stored_of_table? htable
  have hmem : table ∈ db.tables := mem_tables.2 ⟨_, schema, _, hs, ho⟩
  obtain ⟨owner, -, hbuild⟩ := h.build_of_mem hmem
  have hvalue : column ∈ table.columns.values :=
    OrderedMap.mem_values.2 ⟨_, OrderedMap.get?_eq_some.1 hget⟩
  obtain ⟨declared, -, hdeclared⟩ := Table.column_of_build hbuild hvalue
  have htarget := (ColumnDecl.references_of_column hdeclared).symm.trans hown
  obtain ⟨plain, rfl⟩ := ColumnDecl.plain_of_no_target htarget
  obtain ⟨dataType, htype, rfl⟩ := ColumnDecl.ofDecl_eq_ok.1 hdeclared
  exact ⟨_, _, _, _, htype⟩

/-- A column takes its type from where its references end. -/
theorem Realises.type_of_grounded (h : db.Realises resolve decl) {ref : ColumnRef}
    (hg : Grounded (Entry.resolve (some db)) ref) {column : Column}
    (hc : db.column? ref = some column) : column.HasServerType := by
  induction hg generalizing column with
  | plain found own =>
    obtain ⟨_, ⟨⟩, hfound⟩ := Entry.resolve_eq_ok.1 found
    obtain rfl := Option.some.inj (hc.symm.trans hfound)
    exact h.type_of_plain hc own
  | next found refers database reached type _ ih =>
    obtain ⟨_, ⟨⟩, hfound⟩ := Entry.resolve_eq_ok.1 found
    obtain ⟨_, ⟨⟩, hreached⟩ := Entry.resolve_eq_ok.1 reached
    obtain rfl := Option.some.inj (hc.symm.trans hfound)
    unfold Column.HasServerType
    rw [type.1]
    exact ih hreached

theorem hasServerType_of_mem (hc : db.Constructed decl) (h : db.Realises resolve decl) {table : Table}
    (ht : table ∈ db.tables) {column : Column} (hm : column ∈ table.columns.values) :
    column.HasServerType := by
  obtain ⟨hdatabase, hfound⟩ := table?_of_mem hc.coherent ht
  obtain ⟨name, hname⟩ := OrderedMap.mem_values.1 hm
  have hcolumn : db.column? (table.ref.column name) = some column :=
    Option.bind_eq_some_iff.2 ⟨table, hfound, OrderedMap.get?_eq_some.2 hname⟩
  have hsound := hc.filled.sound
  exact h.type_of_grounded (hsound.grounded _ column (hdatabase.trans hsound.named) hcolumn) hcolumn

end Database

/-- The characters that types are written with. -/
def IsTypeChar (c : Char) : Prop := c.isLower = true ∨ c.isDigit = true ∨ c ∈ ['(', ')', ',', ' ', '-']

instance (c : Char) : Decidable (IsTypeChar c) :=
  inferInstanceAs (Decidable (c.isLower = true ∨ c.isDigit = true ∨ c ∈ ['(', ')', ',', ' ', '-']))

/-- Text of the characters of types. -/
def IsTypeText (text : String) : Prop := ∀ c ∈ text.toList, IsTypeChar c

instance (text : String) : Decidable (IsTypeText text) := List.decidableBAll IsTypeChar text.toList

theorem isTypeText_append {text rest : String} :
    IsTypeText (text ++ rest) ↔ IsTypeText text ∧ IsTypeText rest := by
  unfold IsTypeText
  rw [String.toList_append, List.forall_mem_append]

theorem isTypeText_repr (m : Nat) : IsTypeText m.repr :=
  fun c hc => .inr (.inl ((Decimal.ofDigitChars_repr m).2.1 c hc))

theorem isTypeText_toString (n : Int32) : IsTypeText (toString n) := by
  change IsTypeText n.toInt.repr
  cases n.toInt with
  | ofNat m => exact isTypeText_repr m
  | negSucc m => exact isTypeText_append.2 ⟨by decide, isTypeText_repr (m + 1)⟩

theorem isTypeText_sqlType? {type : LogicalType} {length precision scale : Int32} {text : String}
    (h : type.sqlType? length precision scale = some text) : IsTypeText text := by
  cases type <;> cases h <;> simp +decide [isTypeText_append, isTypeText_toString]

namespace Column.HasServerType

variable {column : Column}

theorem isTypeText (h : column.HasServerType) : IsTypeText column.dataType := by
  obtain ⟨type, length, precision, scale, htype⟩ := h
  exact isTypeText_sqlType? htype

/-- A script adds no other letters to a type than those of `MAX`. -/
theorem mem_sqlType (h : column.HasServerType) {c : Char} (hc : c ∈ column.sqlType.toList) :
    IsTypeChar c ∨ c ∈ ['M', 'A', 'X'] := by
  rw [sqlType, String.toList_ofList] at hc
  exact (mem_maxLengths hc).imp_left (h.isTypeText c)

end Column.HasServerType

end DatabaseProject
