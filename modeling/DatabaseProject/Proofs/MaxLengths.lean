import DatabaseProject.Proofs.Attributes
import DatabaseProject.Proofs.ColumnTypes
import DatabaseProject.Proofs.Delimited

/-!
# The longest length of a type

A column with a length of `-1` is as long as the server allows. Its type keeps the number, and a script
has `MAX` there, by a replacement in finished text. The replacement does what the form of the type says:
only a length can stand alone in the brackets and be `-1`, because a declared precision or scale of `-1`
gives way to a default and a precision is followed by a comma.
-/

namespace DatabaseProject

open Text

/-- What a type has in brackets behind its name. -/
inductive TypeForm where
  | sized (name : String)
  | scaled (name : String)
  | decimal
  | plain (name : String)

/-- A declared number, where `-1` stands for another one. -/
def declaredOr (fallback number : Int32) : Int32 := if number = -1 then fallback else number

theorem declaredOr_ne {fallback : Int32} (h : fallback ≠ -1) (number : Int32) :
    declaredOr fallback number ≠ -1 := by
  unfold declaredOr
  split
  · exact h
  · assumption

namespace TypeForm

def name : TypeForm → String
  | sized name => name
  | scaled name => name
  | decimal => "decimal"
  | plain name => name

def isSized : TypeForm → Bool
  | sized _ => true
  | _ => false

/-- The type with this text for its length. -/
def text (length : String) (precision scale : Int32) : TypeForm → String
  | sized name => name ++ "(" ++ length ++ ")"
  | scaled name => name ++ "(" ++ toString (declaredOr 0 scale) ++ ")"
  | decimal => "decimal" ++ "(" ++ toString (declaredOr 18 precision) ++ ", " ++
      toString (declaredOr 0 scale) ++ ")"
  | plain name => name

end TypeForm

/-- The forms of the types that the server has. -/
def LogicalType.form? : LogicalType → Option TypeForm
  | ansiString => some (.sized "varchar")
  | string => some (.sized "nvarchar")
  | ansiStringFixedLength => some (.sized "char")
  | stringFixedLength => some (.sized "nchar")
  | binary => some (.sized "binary")
  | dateTime2 => some (.scaled "datetime2")
  | dateTimeOffset => some (.scaled "datetimeoffset")
  | time => some (.scaled "time")
  | decimal => some .decimal
  | boolean => some (.plain "bit")
  | byte => some (.plain "tinyint")
  | currency => some (.plain "money")
  | date => some (.plain "date")
  | dateTime => some (.plain "datetime")
  | double => some (.plain "float")
  | int16 | uInt16 => some (.plain "smallint")
  | int32 | uInt32 => some (.plain "int")
  | int64 | uInt64 => some (.plain "bigint")
  | single => some (.plain "real")
  | guid => some (.plain "uniqueidentifier")
  | object | sByte | varNumeric | xml => none

/-- The types that the server has. -/
def LogicalType.mapped : List LogicalType := all.filter fun type => type.form?.isSome

theorem LogicalType.mem_mapped (type : LogicalType) : type ∈ mapped ↔ ∃ form, type.form? = some form := by
  have hall : type ∈ all := LawfulKeyword.mem_all type
  rw [mapped, List.mem_filter, Option.isSome_iff_exists, and_iff_right hall]

/-- The text of a type is that of its form. -/
theorem LogicalType.sqlType?_eq (type : LogicalType) (length precision scale : Int32) :
    type.sqlType? length precision scale =
      type.form?.map (TypeForm.text (toString length) precision scale) := by
  cases type <;> rfl

theorem LogicalType.not_mem_name {type : LogicalType} {form : TypeForm} (h : type.form? = some form) :
    '(' ∉ form.name.toList := by
  cases type <;> cases h <;> decide

theorem toString_inj {m n : Int32} (h : toString m = toString n) : m = n := by
  have hread := Decimal.int32?_toString m
  rw [h, Decimal.int32?_toString n] at hread
  exact (Option.some.inj hread).symm

/-- What can stand in a number. -/
def IsNumberChar (c : Char) : Prop := c.isDigit = true ∨ c ∈ ['+', '-']

instance (c : Char) : Decidable (IsNumberChar c) :=
  inferInstanceAs (Decidable (c.isDigit = true ∨ c ∈ ['+', '-']))

theorem Text.Decimal.Numeral.isNumberChar {cs : List Char} {z : Int} (h : Decimal.Numeral cs z) :
    ∀ c ∈ cs, IsNumberChar c := by
  cases h with
  | plain _ hd => exact fun c hc => .inl (hd c hc)
  | plus _ hd => exact List.forall_mem_cons.2 ⟨by decide, fun c hc => .inl (hd c hc)⟩
  | minus _ hd => exact List.forall_mem_cons.2 ⟨by decide, fun c hc => .inl (hd c hc)⟩

theorem isNumberChar_of_mem {number : Int32} : ∀ c ∈ (toString number).toList, IsNumberChar c :=
  (Decimal.numeral_repr number.toInt).isNumberChar

theorem not_mem_toString {c : Char} (hc : ¬ IsNumberChar c) (number : Int32) :
    c ∉ (toString number).toList := fun hm => hc (isNumberChar_of_mem c hm)

theorem toList_minusOne : (toString (-1 : Int32)).toList = ['-', '1'] := by decide

/-- A length in a script. -/
def scriptLength (length : Int32) : String := if length = -1 then "MAX" else toString length

theorem scriptLength_eq_iff {length : Int32} : scriptLength length = toString length ↔ length ≠ -1 := by
  unfold scriptLength
  split
  · rename_i h
    simp [h, ← String.toList_inj, toList_minusOne]
  · rename_i h
    exact iff_of_true rfl h

namespace Column

variable {front : List Char} {c : Char}

theorem maxLengths_append (h : '(' ∉ front) (rest : List Char) :
    maxLengths (front ++ rest) = front ++ maxLengths rest := by
  induction front with
  | nil => rfl
  | cons c front ih =>
    rw [List.mem_cons, not_or] at h
    rw [List.cons_append, maxLengths.eq_2 _ _ fun _ hc _ => h.1 hc.symm, ih h.2, List.cons_append]

theorem maxLengths_eq_self (h : '(' ∉ front) : maxLengths front = front := by
  have happend := maxLengths_append h []
  rwa [List.append_nil, maxLengths, List.append_nil] at happend

/-- A number in brackets is replaced if it is all that stands there and if it is `-1`. -/
theorem maxLengths_number (number : Int32) (rest : List Char) (hf : '(' ∉ front) (hc : ¬ IsNumberChar c)
    (hr : '(' ∉ c :: rest) :
    maxLengths (front ++ '(' :: ((toString number).toList ++ c :: rest)) =
      front ++ '(' :: ((if number = -1 ∧ c = ')' then "MAX" else toString number).toList ++ c :: rest) := by
  rw [maxLengths_append hf, List.append_cancel_left_eq]
  split
  · rename_i h
    obtain ⟨rfl, rfl⟩ := h
    rw [List.mem_cons, not_or] at hr
    change '(' :: 'M' :: 'A' :: 'X' :: ')' :: maxLengths rest = _
    rw [maxLengths_eq_self hr.2]
    rfl
  · rename_i h
    -- The number ends at `c`, and so does `-1` at the bracket: no other number looks like it from there on.
    have hother : ∀ tail, (toString number).toList ++ c :: rest ≠ '-' :: '1' :: ')' :: tail := by
      intro tail he
      change _ = ['-', '1'] ++ ')' :: tail at he
      rw [← toList_minusOne] at he
      obtain ⟨hnumber, hrest⟩ := append_inj_of_forall isNumberChar_of_mem isNumberChar_of_mem
        (by simpa using hc) (by simp +decide) he
      rw [List.cons.injEq] at hrest
      exact h ⟨toString_inj (String.toList_inj.1 hnumber), hrest.1⟩
    have hrest : '(' ∉ (toString number).toList ++ c :: rest := by
      rw [List.mem_append, not_or]
      exact ⟨not_mem_toString (by decide) number, hr⟩
    rw [maxLengths.eq_2 _ _ fun tail _ he => hother tail he, maxLengths_eq_self hrest]

end Column

namespace TypeForm

variable {form : TypeForm} {length precision scale : Int32}

/-- Only a length is replaced in the text of a type. -/
theorem maxLengths_text (hn : '(' ∉ form.name.toList) :
    Column.maxLengths (form.text (toString length) precision scale).toList =
      (form.text (scriptLength length) precision scale).toList := by
  have hclosing : ¬ IsNumberChar ')' := by decide
  cases form with
  | sized name =>
    have hnumber := Column.maxLengths_number length [] hn hclosing (by decide)
    simp only [and_true] at hnumber
    simp only [text, String.toList_append, List.append_assoc]
    exact hnumber
  | scaled name =>
    have hnumber := Column.maxLengths_number (declaredOr 0 scale) [] hn hclosing (by decide)
    rw [if_neg fun h => declaredOr_ne (by decide) scale h.1] at hnumber
    simp only [text, String.toList_append, List.append_assoc]
    exact hnumber
  | decimal =>
    have hscale : '(' ∉ ',' :: ' ' :: ((toString (declaredOr 0 scale)).toList ++ [')']) := by
      simp [not_mem_toString (by decide : ¬ IsNumberChar '(')]
    have hnumber := Column.maxLengths_number (declaredOr 18 precision) _ hn (by decide) hscale
    rw [if_neg fun h => declaredOr_ne (by decide) precision h.1] at hnumber
    simp only [text, String.toList_append, List.append_assoc]
    exact hnumber
  | plain name => exact Column.maxLengths_eq_self hn

theorem text_eq_iff {first second : String} :
    form.text first precision scale = form.text second precision scale ↔
      form.isSized = false ∨ first = second := by
  cases form <;> simp [text, isSized]

end TypeForm

namespace Column

variable {table : TableRef} {decl : PlainColumnDecl} {column copy : Column} {form : TypeForm}

/-- A column of a foreign key that has the type of the column it refers to. -/
def ReferredBy (referenced column : Column) : Prop :=
  ∃ name nullable target, column = referring name nullable target referenced

/-- Along a chain of references the type in a script stays the same. -/
theorem sqlType_of_chain (h : Relation.ReflTransGen ReferredBy column copy) :
    copy.sqlType = column.sqlType := by
  induction h with
  | refl => rfl
  | tail _ hlast ih =>
    obtain ⟨name, nullable, target, rfl⟩ := hlast
    exact ih

theorem SameType.referredBy {referenced : Column} {target : ColumnRef} (h : column.SameType referenced)
    (ht : column.references = some target) : ReferredBy referenced column := by
  obtain ⟨htype, hlength, hprecision, hscale⟩ := h
  refine ⟨column.name, column.nullable, target, ?_⟩
  rw [referring, ← htype, ← hlength, ← hprecision, ← hscale, ← ht]

theorem ofDecl_eq_ok_iff_form : ofDecl table decl = .ok column ↔ ∃ form, decl.type.form? = some form ∧
    column = ⟨decl.name, form.text (toString decl.length) decl.precision decl.scale, decl.nullable,
      decl.length, decl.precision, decl.scale, none⟩ := by
  rw [ColumnDecl.ofDecl_eq_ok, LogicalType.sqlType?_eq]
  simp only [Option.map_eq_some_iff, exists_exists_and_eq_and]

theorem sqlType_of_form (hform : decl.type.form? = some form)
    (hcolumn : column.dataType = form.text (toString decl.length) decl.precision decl.scale) :
    column.sqlType = form.text (scriptLength decl.length) decl.precision decl.scale := by
  rw [sqlType, hcolumn, TypeForm.maxLengths_text (LogicalType.not_mem_name hform), String.ofList_toList]

end Column

namespace Registry

variable {registry : Registry}

/-- What refers to a column over others has its type from there. -/
theorem chain_of_refers (hs : ∀ name, ∀ db ∈ registry.entry name, db.Sound name) {ref origin : ColumnRef}
    (h : Relation.ReflTransGen registry.Refers ref origin) {column copy : Column}
    (ho : registry.resolve origin = .ok column) (hr : registry.resolve ref = .ok copy) :
    Relation.ReflTransGen Column.ReferredBy column copy := by
  induction h using Relation.ReflTransGen.head_induction_on generalizing copy with
  | refl =>
    rw [ho] at hr
    cases hr
    exact .refl
  | head hfirst _ ih =>
    obtain ⟨found, hfound, href⟩ := hfirst
    rw [hr] at hfound
    cases hfound
    obtain ⟨referenced, hreferenced, hsame, -⟩ := (grounded_of_resolve hs hr).target_of_references hr href
    exact (ih hreferenced).tail (hsame.referredBy href)

end Registry

/-- A column can be built with each type that the server has and with no other, and then its type is what its
form makes of the declared numbers. In a script it is the same text, but for `MAX` in place of a length of
`-1`; and so it is for every column that refers to this one, directly or over others, in whatever is
constructed. -/
theorem Column.sqlType_follows_form (table : TableRef) (decl : PlainColumnDecl) :
    ((∃ column, Column.ofDecl table decl = .ok column) ↔ decl.type ∈ LogicalType.mapped) ∧
    (LogicalType.mapped.Nodup ∧ LogicalType.mapped.length = 23) ∧
    ∀ column, Column.ofDecl table decl = .ok column → ∃ form, decl.type.form? = some form ∧
      column.dataType = form.text (toString decl.length) decl.precision decl.scale ∧
      column.sqlType = (if form.isSized = true ∧ decl.length = -1 then
        form.text "MAX" decl.precision decl.scale else column.dataType) ∧
      (column.sqlType ≠ column.dataType ↔ form.isSized = true ∧ decl.length = -1) ∧
      (∀ copy, Relation.ReflTransGen Column.ReferredBy column copy → copy.sqlType = column.sqlType) ∧
      ∀ (calls : List Call) (origin ref : ColumnRef) (copy : Column),
        (Registry.empty.run calls).resolve origin = .ok column →
        Relation.ReflTransGen (Registry.empty.run calls).Refers ref origin →
        (Registry.empty.run calls).resolve ref = .ok copy → copy.sqlType = column.sqlType := by
  refine ⟨?_, by decide, fun column hcolumn => ?_⟩
  · rw [LogicalType.mem_mapped]
    constructor
    · rintro ⟨column, h⟩
      obtain ⟨form, hform, -⟩ := Column.ofDecl_eq_ok_iff_form.1 h
      exact ⟨form, hform⟩
    · rintro ⟨form, hform⟩
      exact ⟨_, Column.ofDecl_eq_ok_iff_form.2 ⟨form, hform, rfl⟩⟩
  · obtain ⟨form, hform, hmake⟩ := Column.ofDecl_eq_ok_iff_form.1 hcolumn
    have htype : column.dataType = form.text (toString decl.length) decl.precision decl.scale := by
      rw [hmake]
    have hscript := Column.sqlType_of_form hform htype
    have hchanged : column.sqlType ≠ column.dataType ↔ form.isSized = true ∧ decl.length = -1 := by
      rw [hscript, htype, Ne, TypeForm.text_eq_iff, scriptLength_eq_iff, not_or, Bool.not_eq_false, not_not]
    refine ⟨form, hform, htype, ?_, hchanged, fun copy => Column.sqlType_of_chain,
      fun calls origin ref copy ho hr hc => Column.sqlType_of_chain (Registry.chain_of_refers ?_ hr ho hc)⟩
    · split
      · rename_i hmax
        rw [hscript, scriptLength, if_pos hmax.2]
      · rename_i hmax
        exact not_not.1 (mt hchanged.1 hmax)
    · apply Registry.sound_run
      rintro name db ⟨⟩

/-- A text of any length, and a column of a foreign key that takes its type. -/
theorem Column.longest_text_rendered :
    ∃ column, Column.ofDecl ⟨"Shop", "dbo", "Order"⟩ ⟨"Notes", .string, -1, -1, -1, true⟩ = .ok column ∧
      column.dataType = "nvarchar(-1)" ∧ column.sqlType = "nvarchar(MAX)" ∧
      ∀ name nullable target, (Column.referring name nullable target column).sqlType = "nvarchar(MAX)" := by
  obtain ⟨hbuilt, -, hall⟩ := Column.sqlType_follows_form ⟨"Shop", "dbo", "Order"⟩
    ⟨"Notes", .string, -1, -1, -1, true⟩
  obtain ⟨column, hcolumn⟩ := hbuilt.2 (by decide)
  obtain ⟨form, hform, htype, hscript, -, hchain, -⟩ := hall column hcolumn
  cases hform
  refine ⟨column, hcolumn, htype, hscript, fun name nullable target => ?_⟩
  exact (hchain _ (.single ⟨name, nullable, target, rfl⟩)).trans hscript

end DatabaseProject
