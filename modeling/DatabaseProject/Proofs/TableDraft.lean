import DatabaseProject.Table
import DatabaseProject.Proofs.Outcome
import DatabaseProject.Proofs.OrderedMap

/-!
# Columns and foreign keys in the making

Building a column splits into what the resolver decides (the column) and what the declarations
alone decide (the foreign keys). A draft then says, for any list of declarations, which columns
stand in it and which table each foreign-key group is bound to.
-/

namespace DatabaseProject

open Outcome

/-- The column that a declared column refers to, when it is no plain one. -/
def ColumnDecl.target? (database : String) : ColumnDecl → Option ColumnRef
  | .plain _ => none
  | .foreignKey decl => some (TableRef.column ⟨database, decl.schema, decl.table⟩ decl.column)
  | .grouped decl => some (TableRef.column ⟨database, decl.schema, decl.table⟩ decl.column)

/-- The table that a declared column binds a foreign-key group to. -/
def ColumnDecl.bind? (database group : String) : ColumnDecl → Option TableRef
  | .grouped decl => if decl.group = group then some ⟨database, decl.schema, decl.table⟩ else none
  | _ => none

/-- Whether a declared column may be null. -/
def ColumnDecl.nullable : ColumnDecl → Bool
  | .plain decl => decl.nullable
  | .foreignKey decl => decl.nullable
  | .grouped decl => decl.nullable

/-- The column alone, without its part in the foreign keys. -/
def ColumnDecl.column (table : TableRef) (resolve : ColumnResolver) :
    ColumnDecl → Except GenerationError Column
  | .plain decl => Column.ofDecl table decl
  | .foreignKey decl =>
    let target := TableRef.column ⟨table.database, decl.schema, decl.table⟩ decl.column
    (resolve target).map (Column.referring decl.name decl.nullable target)
  | .grouped decl =>
    let target := TableRef.column ⟨table.database, decl.schema, decl.table⟩ decl.column
    (resolve target).map (Column.referring decl.name decl.nullable target)

/-- The foreign keys with the part of one more column in them. -/
def ColumnDecl.joinKeys (table : TableRef) (keys : List ForeignKeyDraft) :
    ColumnDecl → Except GenerationError (List ForeignKeyDraft)
  | .plain _ => .ok keys
  | .foreignKey decl =>
    .ok (keys ++ [⟨none, ForeignKey.nameFor table.table decl.table decl.name, [decl.name],
      ⟨table.database, decl.schema, decl.table⟩, [decl.column]⟩])
  | .grouped decl => TableDraft.joinGroup table ⟨table.database, decl.schema, decl.table⟩ decl keys

namespace ColumnDecl

variable {table : TableRef} {resolve other : ColumnResolver} {decl : ColumnDecl} {column : Column}
  {target : ColumnRef}

/-- A column that refers to another one is that other column under its own name. -/
theorem column_of_target (h : decl.target? table.database = some target) :
    decl.column table resolve =
      (resolve target).map (Column.referring decl.name decl.nullable target) := by
  cases decl with
  | plain decl => cases h
  | foreignKey decl => cases h; rfl
  | grouped decl => cases h; rfl

theorem plain_of_no_target (h : decl.target? table.database = none) :
    ∃ plain, decl = .plain plain := by
  cases decl with
  | plain decl => exact ⟨decl, rfl⟩
  | foreignKey decl => cases h
  | grouped decl => cases h

theorem database_of_target? {database : String} (h : decl.target? database = some target) :
    target.table.database = database := by
  cases decl with
  | plain decl => cases h
  | foreignKey decl => cases h; rfl
  | grouped decl => cases h; rfl

theorem ofDecl_eq_ok {plain : PlainColumnDecl} : Column.ofDecl table plain = .ok column ↔
    ∃ dataType, plain.type.sqlType? plain.length plain.precision plain.scale = some dataType ∧
      column = ⟨plain.name, dataType, plain.nullable, plain.length, plain.precision, plain.scale,
        none⟩ := by
  unfold Column.ofDecl
  split
  · rename_i h
    simp [h]
  · rename_i dataType h
    simp [h, eq_comm]

theorem name_of_column (h : decl.column table resolve = .ok column) : column.name = decl.name := by
  cases ht : decl.target? table.database with
  | none =>
    obtain ⟨plain, rfl⟩ := plain_of_no_target ht
    obtain ⟨dataType, -, rfl⟩ := ofDecl_eq_ok.1 h
    rfl
  | some target =>
    rw [column_of_target ht, map_eq_ok] at h
    obtain ⟨referenced, -, rfl⟩ := h
    rfl

theorem references_of_column (h : decl.column table resolve = .ok column) :
    column.references = decl.target? table.database := by
  cases ht : decl.target? table.database with
  | none =>
    obtain ⟨plain, rfl⟩ := plain_of_no_target ht
    obtain ⟨dataType, -, rfl⟩ := ofDecl_eq_ok.1 h
    rfl
  | some target =>
    rw [column_of_target ht, map_eq_ok] at h
    obtain ⟨referenced, -, rfl⟩ := h
    rfl

/-- Only the reference of the column itself is ever resolved. -/
theorem column_congr (h : ∀ target, decl.target? table.database = some target →
    resolve target = other target) : decl.column table resolve = decl.column table other := by
  cases ht : decl.target? table.database with
  | none =>
    obtain ⟨plain, rfl⟩ := plain_of_no_target ht
    rfl
  | some target => rw [column_of_target ht, column_of_target ht, h target ht]

theorem column_mono (h : ∀ ref found, resolve ref = .ok found → other ref = .ok found)
    (hc : decl.column table resolve = .ok column) : decl.column table other = .ok column := by
  cases ht : decl.target? table.database with
  | none =>
    obtain ⟨plain, rfl⟩ := plain_of_no_target ht
    exact hc
  | some target =>
    rw [column_of_target ht, map_eq_ok] at hc ⊢
    obtain ⟨referenced, hr, he⟩ := hc
    exact ⟨referenced, h target referenced hr, he⟩

end ColumnDecl

namespace TableDraft

variable {table : TableRef} {resolve other : ColumnResolver} {keys keys' : List ForeignKeyDraft}
  {decl : ColumnDecl} {draft draft' : TableDraft}

theorem build_eq : build table resolve keys decl = (do
    let column ← decl.column table resolve
    let keys ← decl.joinKeys table keys
    return (column, keys)) := by
  cases decl with
  | plain decl =>
    simp only [build, ColumnDecl.column, ColumnDecl.joinKeys]
    cases Column.ofDecl table decl <;> rfl
  | foreignKey decl =>
    simp only [build, ColumnDecl.column, ColumnDecl.joinKeys]
    cases resolve (TableRef.column ⟨table.database, decl.schema, decl.table⟩ decl.column) <;> rfl
  | grouped decl =>
    simp only [build, ColumnDecl.column, ColumnDecl.joinKeys]
    cases resolve (TableRef.column ⟨table.database, decl.schema, decl.table⟩ decl.column) <;> rfl

/-- What one more column needs, and what it leaves behind. -/
theorem addColumn_eq_ok : addColumn table resolve draft decl = .ok draft' ↔
    ∃ column, decl.column table resolve = .ok column ∧
      decl.joinKeys table draft.foreignKeys = .ok draft'.foreignKeys ∧
      decl.name ∉ draft.columns.keys ∧
      draft'.columns.entries = draft.columns.entries ++ [(decl.name, column)] := by
  unfold addColumn
  simp only [build_eq, bind_eq_ok, bind_assoc, pure_eq_ok]
  constructor
  · rintro ⟨column, hc, keys, hk, _, rfl, h⟩
    have hn := ColumnDecl.name_of_column hc
    split at h
    · cases h
    · rename_i columns hadd
      cases h
      rw [hn] at hadd
      exact ⟨column, hc, hk, OrderedMap.add?_eq_some.1 hadd⟩
  · rintro ⟨column, hc, hk, hadd⟩
    refine ⟨column, hc, draft'.foreignKeys, hk, (column, draft'.foreignKeys), rfl, ?_⟩
    have hn := ColumnDecl.name_of_column hc
    simp only [hn, OrderedMap.add?_eq_some.2 hadd]
    rfl

theorem addColumn_congr (h : ∀ target, decl.target? table.database = some target →
    resolve target = other target) :
    addColumn table resolve draft decl = addColumn table other draft decl := by
  unfold addColumn
  rw [build_eq, build_eq, ColumnDecl.column_congr h]

theorem addColumn_mono (h : ∀ ref found, resolve ref = .ok found → other ref = .ok found)
    (ha : addColumn table resolve draft decl = .ok draft') :
    addColumn table other draft decl = .ok draft' := by
  obtain ⟨column, hc, hrest⟩ := addColumn_eq_ok.1 ha
  exact addColumn_eq_ok.2 ⟨column, ColumnDecl.column_mono h hc, hrest⟩

/-- The table that a foreign-key group is bound to by the keys made so far. -/
def bound? (group : String) (keys : List ForeignKeyDraft) : Option TableRef :=
  (keys.find? fun key => key.group = some group).map (·.key.referencedTable)

@[simp] theorem group_extendGroup (group name referenced : String) (key : ForeignKeyDraft) :
    (extendGroup group name referenced key).group = key.group := by
  unfold extendGroup
  split <;> rfl

@[simp] theorem table_extendGroup (group name referenced : String) (key : ForeignKeyDraft) :
    (extendGroup group name referenced key).key.referencedTable = key.key.referencedTable := by
  unfold extendGroup
  split <;> rfl

theorem bound?_extendGroup (group extended name referenced : String) :
    bound? group (keys.map (extendGroup extended name referenced)) = bound? group keys := by
  unfold bound?
  rw [List.find?_map, Option.map_map]
  congr 1
  · funext key
    exact table_extendGroup extended name referenced key
  · congr 1
    funext key
    simp only [Function.comp_apply, group_extendGroup]

theorem bound?_concat (group : String) (key : ForeignKeyDraft) : bound? group (keys ++ [key]) =
    (bound? group keys).or (if key.group = some group then some key.key.referencedTable else none) := by
  unfold bound?
  rw [List.find?_append, Option.map_or]
  congr 1
  by_cases h : key.group = some group <;> simp [h]

/-- A group that is bound stays bound to its table; a new one is bound by its first member. -/
theorem bound?_joinKeys (h : decl.joinKeys table keys = .ok keys') (group : String) :
    bound? group keys' = (bound? group keys).or (decl.bind? table.database group) := by
  cases decl with
  | plain decl =>
    cases h
    simp [ColumnDecl.bind?]
  | foreignKey decl =>
    cases h
    simp [bound?_concat, ColumnDecl.bind?]
  | grouped decl =>
    simp only [ColumnDecl.joinKeys, joinGroup] at h
    split at h
    · cases h
      simp [bound?_concat, ColumnDecl.bind?]
    · rename_i key hfind
      split at h
      · cases h
        rw [bound?_extendGroup]
        simp only [ColumnDecl.bind?]
        split
        · rename_i hg
          subst hg
          simp [bound?, hfind]
        · simp
      · cases h

/-- A column makes no key, a key of its own, or the key of its group longer. -/
theorem joinKeys_cases (h : decl.joinKeys table keys = .ok keys') :
    (decl.target? table.database = none ∧ keys' = keys) ∨
    ∃ target, decl.target? table.database = some target ∧
      ((∃ group name, (∀ g, group = some g → bound? g keys = none) ∧
          keys' = keys ++ [⟨group, name, [decl.name], target.table, [target.column]⟩]) ∨
        ∃ group, bound? group keys = some target.table ∧
          keys' = keys.map (extendGroup group decl.name target.column)) := by
  cases decl with
  | plain decl =>
    cases h
    exact .inl ⟨rfl, rfl⟩
  | foreignKey decl =>
    cases h
    exact .inr ⟨_, rfl, .inl ⟨none, _, by simp, rfl⟩⟩
  | grouped decl =>
    refine .inr ⟨_, rfl, ?_⟩
    simp only [ColumnDecl.joinKeys, joinGroup] at h
    split at h
    · rename_i hfind
      cases h
      refine .inl ⟨some decl.group, _, ?_, rfl⟩
      rintro g ⟨⟩
      simp only [bound?, hfind, Option.map_none]
    · rename_i key hfind
      split at h
      · rename_i ht
        cases h
        exact .inr ⟨decl.group, by simp only [bound?, hfind, Option.map_some, ht]; rfl, rfl⟩
      · cases h

/-- A member of a group is refused exactly when the group is bound to another table. -/
theorem joinKeys_isOk : (∃ keys', decl.joinKeys table keys = .ok keys') ↔
    ∀ group target, decl.bind? table.database group = some target →
      ∀ earlier, bound? group keys = some earlier → earlier = target := by
  cases decl with
  | plain decl => simp [ColumnDecl.joinKeys, ColumnDecl.bind?]
  | foreignKey decl => simp [ColumnDecl.joinKeys, ColumnDecl.bind?]
  | grouped decl =>
    simp only [ColumnDecl.joinKeys, joinGroup, ColumnDecl.bind?, bound?]
    split
    · rename_i hfind
      simp [hfind]
    · rename_i key hfind
      by_cases ht : key.key.referencedTable = ⟨table.database, decl.schema, decl.table⟩ <;>
        simp [hfind, ht]

end TableDraft

end DatabaseProject
