import DatabaseProject.Proofs.TableDraft
import Mathlib.Data.List.Forall2

/-!
# Built tables

What a table is built from, exactly when it is built, and what holds of every built table: keys
and indexes name its columns, and each foreign key lists its columns beside the columns that they
refer to.
-/

namespace DatabaseProject

open Outcome

/-- Names of key columns and of included columns. -/
def Index.names (index : Index) : List String := index.columns.map (·.name) ++ index.includes

def TableDecl.ref (database : String) (decl : TableDecl) : TableRef :=
  ⟨database, decl.schema, decl.name⟩

/-- Columns that refer to one key's table column by column. -/
structure ForeignKey.Aligned (database : String) (columns : NameMap Column) (key : ForeignKey) :
    Prop where
  nonempty : key.columns ≠ []
  database : key.referencedTable.database = database
  pairs : List.Forall₂ (fun name referenced => ∃ column, columns.get? name = some column ∧
    column.references = some (key.referencedTable.column referenced))
    key.columns key.referencedColumns

theorem ForeignKey.Aligned.mono {database : String} {columns columns' : NameMap Column}
    {key : ForeignKey} (h : key.Aligned database columns)
    (hc : ∀ name column, columns.get? name = some column → columns'.get? name = some column) :
    key.Aligned database columns' := by
  refine ⟨h.nonempty, h.database, h.pairs.imp ?_⟩
  rintro name referenced ⟨column, hget, href⟩
  exact ⟨column, hc name column hget, href⟩

namespace TableDraft

variable {table : TableRef} {resolve other : ColumnResolver} {decls : List ColumnDecl}
  {decl : ColumnDecl} {draft draft' : TableDraft}

/-- Columns stand under their own names; all keys of a group refer to the table that the group is
bound to; every key is aligned. -/
structure Sound (database : String) (draft : TableDraft) : Prop where
  names : ∀ entry ∈ draft.columns.entries, entry.2.name = entry.1
  groups : ∀ key ∈ draft.foreignKeys, ∀ group, key.group = some group →
    bound? group draft.foreignKeys = some key.key.referencedTable
  keys : ∀ key ∈ draft.foreignKeys, key.key.Aligned database draft.columns

theorem sound_empty (database : String) : Sound database .empty :=
  ⟨by simp [empty], by simp [empty], by simp [empty]⟩

theorem get?_of_concat {columns columns' : NameMap Column} {name : String} {column : Column}
    (hn : name ∉ columns.keys) (he : columns'.entries = columns.entries ++ [(name, column)])
    (other : String) :
    columns'.get? other = if other = name then some column else columns.get? other :=
  OrderedMap.get?_of_add? (OrderedMap.add?_eq_some.2 ⟨hn, he⟩)

/-- The group binding survives the next column. -/
theorem groups_joinKeys {keys keys' : List ForeignKeyDraft}
    (hk : decl.joinKeys table keys = .ok keys')
    (hs : ∀ key ∈ keys, ∀ group, key.group = some group →
      bound? group keys = some key.key.referencedTable) :
    ∀ key ∈ keys', ∀ group, key.group = some group →
      bound? group keys' = some key.key.referencedTable := by
  rcases joinKeys_cases hk with ⟨-, rfl⟩ | ⟨target, -, ⟨group, name, hnew, rfl⟩ | ⟨group, hb, rfl⟩⟩
  · exact hs
  · intro key hkey g hg
    rw [bound?_concat]
    rw [List.mem_append, List.mem_singleton] at hkey
    rcases hkey with hkey | rfl
    · rw [hs key hkey g hg, Option.some_or]
    · rw [hnew g hg, Option.none_or, if_pos hg]
  · intro key hkey g hg
    obtain ⟨old, hold, rfl⟩ := List.mem_map.1 hkey
    rw [group_extendGroup] at hg
    rw [bound?_extendGroup, table_extendGroup]
    exact hs old hold g hg

/-- A key that takes the next column stays aligned, once the column stands in the table. -/
theorem aligned_extendGroup {key : ForeignKeyDraft} {database group : String}
    {columns : NameMap Column} {column : Column} {target : ColumnRef}
    (ha : key.key.Aligned database columns) (hc : columns.get? column.name = some column)
    (href : column.references = some target)
    (hg : key.group = some group → key.key.referencedTable = target.table) :
    (extendGroup group column.name target.column key).key.Aligned database columns := by
  unfold extendGroup
  split
  · rename_i h
    refine ⟨by simp, ha.database, ?_⟩
    refine List.rel_append ha.pairs (.cons ⟨column, hc, ?_⟩ .nil)
    rw [href, hg h]
    rfl
  · exact ha

theorem sound_addColumn (hs : draft.Sound table.database)
    (h : addColumn table resolve draft decl = .ok draft') : draft'.Sound table.database := by
  obtain ⟨column, hc, hk, hn, he⟩ := addColumn_eq_ok.1 h
  have hname := ColumnDecl.name_of_column hc
  have href := ColumnDecl.references_of_column hc
  have hget := get?_of_concat hn he
  have hself : draft'.columns.get? column.name = some column := by rw [hname, hget, if_pos rfl]
  have hold : ∀ key ∈ draft.foreignKeys, key.key.Aligned table.database draft'.columns := by
    intro key hkey
    apply (hs.keys key hkey).mono
    intro name found hf
    rw [hget, if_neg, hf]
    rintro rfl
    exact hn (OrderedMap.mem_keys_iff_get?.2 ⟨found, hf⟩)
  refine ⟨?_, groups_joinKeys hk hs.groups, ?_⟩
  · intro entry hentry
    rw [he, List.mem_append, List.mem_singleton] at hentry
    rcases hentry with hentry | rfl
    · exact hs.names entry hentry
    · exact hname
  · rcases joinKeys_cases hk with ⟨-, hkeys⟩ | ⟨target, ht, ⟨group, name, -, hkeys⟩ | ⟨group, hb, hkeys⟩⟩
    · rw [hkeys]
      exact hold
    · intro key hkey
      rw [hkeys, List.mem_append, List.mem_singleton] at hkey
      rcases hkey with hkey | rfl
      · exact hold key hkey
      · refine ⟨by simp, ColumnDecl.database_of_target? ht, ?_⟩
        rw [← hname]
        exact .cons ⟨column, hself, href.trans ht⟩ .nil
    · intro key hkey
      rw [hkeys] at hkey
      obtain ⟨old, hmem, rfl⟩ := List.mem_map.1 hkey
      rw [← hname]
      apply aligned_extendGroup (hold old hmem) hself (href.trans ht)
      intro hg
      exact Option.some.inj ((hs.groups old hmem group hg).symm.trans hb)

theorem sound_of_columns (h : decls.foldlM (addColumn table resolve) .empty = .ok draft) :
    draft.Sound table.database :=
  foldlM_induction (motive := fun _ state => state.Sound table.database)
    (sound_empty table.database) (fun _ _ _ _ hs hstep => sound_addColumn hs hstep) h

/-- The columns of a draft are the declared ones, in order, each as its declaration says. -/
structure Holds (table : TableRef) (resolve : ColumnResolver) (decls : List ColumnDecl)
    (draft : TableDraft) : Prop where
  keys : draft.columns.keys = decls.map (·.name)
  values : draft.columns.values.map .ok = decls.map (·.column table resolve)
  bound : ∀ group, bound? group draft.foreignKeys = decls.findSome? (·.bind? table.database group)

theorem holds_addColumn (hh : Holds table resolve decls draft)
    (h : addColumn table resolve draft decl = .ok draft') :
    Holds table resolve (decls ++ [decl]) draft' := by
  obtain ⟨column, hc, hk, -, he⟩ := addColumn_eq_ok.1 h
  constructor
  · rw [List.map_append, ← hh.keys]
    simp [OrderedMap.keys, he]
  · rw [List.map_append, ← hh.values]
    simp [OrderedMap.values, he, hc]
  · intro group
    rw [bound?_joinKeys hk, hh.bound, List.findSome?_append]
    simp

theorem holds_of_columns (h : decls.foldlM (addColumn table resolve) .empty = .ok draft) :
    Holds table resolve decls draft :=
  foldlM_induction (motive := fun done state => Holds table resolve done state)
    ⟨rfl, rfl, fun _ => rfl⟩ (fun _ _ _ _ hh hstep => holds_addColumn hh hstep) h

/-- Members of one group refer to one table. -/
def GroupsAgree (database : String) (decls : List ColumnDecl) : Prop :=
  ∀ first ∈ decls, ∀ second ∈ decls, ∀ group target target',
    first.bind? database group = some target → second.bind? database group = some target' →
      target = target'

theorem groupsAgree_concat {database : String} :
    GroupsAgree database (decls ++ [decl]) ↔ GroupsAgree database decls ∧
      ∀ group target, decl.bind? database group = some target →
        ∀ earlier, decls.findSome? (·.bind? database group) = some earlier → earlier = target := by
  constructor
  · intro h
    refine ⟨fun first hf second hs => h first (by simp [hf]) second (by simp [hs]), ?_⟩
    intro group target ht earlier he
    obtain ⟨first, hmem, hb⟩ := List.exists_of_findSome?_eq_some he
    exact h first (by simp [hmem]) decl (by simp) group earlier target hb ht
  · rintro ⟨hall, hlast⟩
    -- A group bound among the first ones is bound to what its first member says.
    have hnew : ∀ first ∈ decls, ∀ group target target', first.bind? database group = some target →
        decl.bind? database group = some target' → target = target' := by
      intro first hf group target target' hb ht
      cases hfind : decls.findSome? (·.bind? database group) with
      | none =>
        have hn := List.findSome?_eq_none_iff.1 hfind first hf
        rw [hb] at hn
        cases hn
      | some earlier =>
        obtain ⟨witness, hw, hwb⟩ := List.exists_of_findSome?_eq_some hfind
        rw [hall first hf witness hw group target earlier hb hwb]
        exact hlast group target' ht earlier hfind
    intro first hf second hs group target target' hb hb'
    rw [List.mem_append, List.mem_singleton] at hf hs
    rcases hf with hf | rfl
    · rcases hs with hs | rfl
      · exact hall first hf second hs group target target' hb hb'
      · exact hnew first hf group target target' hb hb'
    · rcases hs with hs | rfl
      · exact (hnew second hs group target' target hb' hb).symm
      · exact Option.some.inj (hb.symm.trans hb')

/-- Columns are accepted exactly when each can be built, names are new and groups agree. -/
theorem columns_isOk (table : TableRef) (resolve : ColumnResolver) (decls : List ColumnDecl) :
    (∃ draft, decls.foldlM (addColumn table resolve) .empty = .ok draft) ↔
      (∀ decl ∈ decls, ∃ column, decl.column table resolve = .ok column) ∧
        (decls.map (·.name)).Nodup ∧ GroupsAgree table.database decls := by
  induction decls using List.reverseRecOn with
  | nil => simp [GroupsAgree, pure, Except.pure]
  | append_singleton decls decl ih =>
    rw [groupsAgree_concat, List.map_append, List.map_singleton, List.nodup_middle,
      List.append_nil, List.nodup_cons, List.forall_mem_append, List.forall_mem_singleton]
    simp only [foldlM_concat_eq_ok]
    constructor
    · rintro ⟨draft', draft, hd, hstep⟩
      obtain ⟨hcol, hnodup, hagree⟩ := ih.1 ⟨draft, hd⟩
      obtain ⟨column, hc, hk, hn, -⟩ := addColumn_eq_ok.1 hstep
      have hh := holds_of_columns hd
      have hbound := joinKeys_isOk.1 ⟨_, hk⟩
      simp only [hh.bound] at hbound
      rw [hh.keys] at hn
      exact ⟨⟨hcol, column, hc⟩, ⟨hn, hnodup⟩, hagree, hbound⟩
    · rintro ⟨⟨hcol, column, hc⟩, ⟨hn, hnodup⟩, hagree, hbound⟩
      obtain ⟨draft, hd⟩ := ih.2 ⟨hcol, hnodup, hagree⟩
      have hh := holds_of_columns hd
      simp only [← hh.bound] at hbound
      obtain ⟨keys, hk⟩ := joinKeys_isOk.2 hbound
      rw [← hh.keys] at hn
      have hadd : ∃ columns, draft.columns.add? decl.name column = some columns := by
        cases ha : draft.columns.add? decl.name column with
        | none => exact absurd (OrderedMap.add?_eq_none.1 ha) hn
        | some columns => exact ⟨columns, rfl⟩
      obtain ⟨columns, ha⟩ := hadd
      exact ⟨⟨columns, keys⟩, draft, hd,
        addColumn_eq_ok.2 ⟨column, hc, hk, OrderedMap.add?_eq_some.1 ha⟩⟩

theorem checkColumns_eq_ok (table : TableRef) {names : List String} :
    draft.checkColumns table names = .ok () ↔ ∀ name ∈ names, name ∈ draft.columns.keys := by
  unfold checkColumns
  split
  · rename_i h
    simpa [← OrderedMap.contains_iff] using h
  · rename_i name h
    have hm := List.mem_of_find?_eq_some h
    have hn := List.find?_some h
    simp only [OrderedMap.contains, Bool.not_eq_true', decide_eq_false_iff_not] at hn
    simp only [reduceCtorEq, false_iff, not_forall]
    exact ⟨name, hm, hn⟩

theorem checkIndex_eq_ok {index : Index} : draft.checkIndex table index = .ok () ↔
    ∀ name ∈ index.names, name ∈ draft.columns.keys := checkColumns_eq_ok table

theorem primaryKey_eq_ok {compression : Compression} {decl : PrimaryKeyDecl} {key : PrimaryKey} :
    draft.primaryKey table compression decl = .ok key ↔
      (∀ name ∈ decl.columns, name ∈ draft.columns.keys) ∧
        key = ⟨decl.name, decl.clustered, keyCompression compression decl, decl.columns⟩ := by
  unfold primaryKey
  rw [bind_eq_ok]
  simp only [pure_eq_ok, ← checkColumns_eq_ok table]
  constructor
  · rintro ⟨⟨⟩, hcheck, rfl⟩
    exact ⟨hcheck, rfl⟩
  · rintro ⟨hcheck, rfl⟩
    exact ⟨(), hcheck, rfl⟩

end TableDraft

namespace Table

variable {database : String} {resolve other : ColumnResolver} {decl : TableDecl} {table : Table}

/-- What a table is built from: its columns, then keys and indexes over them. -/
theorem build_eq_ok : build database resolve decl = .ok table ↔
    ∃ draft, decl.columns.foldlM (TableDraft.addColumn (decl.ref database) resolve) .empty = .ok draft ∧
      (∀ key ∈ decl.primaryKey, ∀ name ∈ key.columns, name ∈ draft.columns.keys) ∧
      (∀ index ∈ decl.indexes, ∀ name ∈ index.names, name ∈ draft.columns.keys) ∧
      table = ⟨database, decl.schema, decl.name, decl.compression, draft.columns,
        decl.primaryKey.map fun key => ⟨key.name, key.clustered,
          TableDraft.keyCompression decl.compression key, key.columns⟩,
        draft.foreignKeys.map (·.key), decl.indexes, decl.triggers⟩ := by
  have hkey : ∀ (draft : TableDraft) (built : Option PrimaryKey),
      decl.primaryKey.mapM (draft.primaryKey (decl.ref database) decl.compression) = .ok built ↔
        (∀ key ∈ decl.primaryKey, ∀ name ∈ key.columns, name ∈ draft.columns.keys) ∧
          built = decl.primaryKey.map fun key => ⟨key.name, key.clustered,
            TableDraft.keyCompression decl.compression key, key.columns⟩ := by
    intro draft built
    cases decl.primaryKey with
    | none => simp [pure, Except.pure, eq_comm]
    | some key =>
      change (draft.primaryKey _ _ key).map some = .ok built ↔ _
      rw [map_eq_ok]
      simp only [TableDraft.primaryKey_eq_ok, Option.mem_some_iff, forall_eq']
      constructor
      · rintro ⟨_, ⟨hnames, rfl⟩, rfl⟩
        exact ⟨hnames, rfl⟩
      · rintro ⟨hnames, rfl⟩
        exact ⟨_, ⟨hnames, rfl⟩, rfl⟩
  unfold build
  simp only [bind_eq_ok, pure_eq_ok]
  constructor
  · rintro ⟨draft, hd, built, hk, ⟨⟩, hi, rfl⟩
    obtain ⟨hkeys, rfl⟩ := (hkey draft built).1 hk
    refine ⟨draft, hd, hkeys, ?_, rfl⟩
    intro index hindex
    exact TableDraft.checkIndex_eq_ok.1 (forM_eq_ok.1 hi index hindex)
  · rintro ⟨draft, hd, hkeys, hi, rfl⟩
    refine ⟨draft, hd, _, (hkey draft _).2 ⟨hkeys, rfl⟩, (), ?_, rfl⟩
    exact forM_eq_ok.2 fun index hindex => TableDraft.checkIndex_eq_ok.2 (hi index hindex)

/-- Only what the table's own columns refer to bears on the outcome. -/
theorem build_congr_targets (h : ∀ column ∈ decl.columns, ∀ target,
    column.target? database = some target → resolve target = other target) :
    build database resolve decl = build database other decl := by
  have hcolumns : decl.columns.foldlM (TableDraft.addColumn (decl.ref database) resolve) .empty =
      decl.columns.foldlM (TableDraft.addColumn (decl.ref database) other) .empty :=
    foldlM_congr (fun column hc _ => TableDraft.addColumn_congr (h column hc)) _
  unfold TableDecl.ref at hcolumns
  simp only [build, hcolumns]

/-- Only references into the table's own database bear on the outcome. -/
theorem build_congr (h : ∀ ref : ColumnRef, ref.table.database = database →
    resolve ref = other ref) : build database resolve decl = build database other decl :=
  build_congr_targets fun _ _ target ht => h target (ColumnDecl.database_of_target? ht)

/-- A resolver that finds all that another one finds builds the same tables. -/
theorem build_mono (h : ∀ ref found, resolve ref = .ok found → other ref = .ok found)
    (hb : build database resolve decl = .ok table) : build database other decl = .ok table := by
  obtain ⟨draft, hd, hrest⟩ := build_eq_ok.1 hb
  refine build_eq_ok.2 ⟨draft, ?_, hrest⟩
  exact foldlM_induction
    (motive := fun done state =>
      done.foldlM (TableDraft.addColumn (decl.ref database) other) .empty = .ok state)
    rfl
    (fun _ state _ _ hm hstep =>
      foldlM_concat_eq_ok.2 ⟨state, hm, TableDraft.addColumn_mono h hstep⟩) hd

theorem keys_of_build (h : build database resolve decl = .ok table) :
    table.columns.keys = decl.columns.map (·.name) := by
  obtain ⟨draft, hd, -, -, rfl⟩ := build_eq_ok.1 h
  exact (TableDraft.holds_of_columns hd).keys

theorem ref_of_build (h : build database resolve decl = .ok table) :
    table.ref = decl.ref database := by
  obtain ⟨draft, -, -, -, rfl⟩ := build_eq_ok.1 h
  rfl

/-- Every column of a built table is one of the declared columns. -/
theorem column_of_build (h : build database resolve decl = .ok table) {column : Column}
    (hc : column ∈ table.columns.values) :
    ∃ declared ∈ decl.columns, declared.column (decl.ref database) resolve = .ok column := by
  obtain ⟨draft, hd, -, -, rfl⟩ := build_eq_ok.1 h
  have hvalues := (TableDraft.holds_of_columns hd).values
  have hm : Except.ok column ∈ draft.columns.values.map (Except.ok (ε := GenerationError)) :=
    List.mem_map_of_mem hc
  rw [hvalues] at hm
  obtain ⟨declared, hdecl, he⟩ := List.mem_map.1 hm
  exact ⟨declared, hdecl, he⟩

/-- A column that refers to another one has that one's type, and it was found by the resolver. -/
theorem reference_of_build (h : build database resolve decl = .ok table) {column : Column}
    (hc : column ∈ table.columns.values) {target : ColumnRef}
    (href : column.references = some target) :
    target.table.database = database ∧ ∃ referenced, resolve target = .ok referenced ∧
      column = Column.referring column.name column.nullable target referenced := by
  obtain ⟨declared, -, hd⟩ := column_of_build h hc
  have ht : declared.target? (decl.ref database).database = some target :=
    (ColumnDecl.references_of_column hd).symm.trans href
  refine ⟨ColumnDecl.database_of_target? ht, ?_⟩
  rw [ColumnDecl.column_of_target ht, map_eq_ok] at hd
  obtain ⟨referenced, hr, rfl⟩ := hd
  exact ⟨referenced, hr, rfl⟩

/-- A table is built exactly when its columns can be, under distinct names, in groups that agree,
and its keys and indexes name them. -/
theorem build_isOk : (∃ table, build database resolve decl = .ok table) ↔
    (∀ column ∈ decl.columns, ∃ built, column.column (decl.ref database) resolve = .ok built) ∧
      (decl.columns.map (·.name)).Nodup ∧ TableDraft.GroupsAgree database decl.columns ∧
      (∀ key ∈ decl.primaryKey, ∀ name ∈ key.columns, name ∈ decl.columns.map (·.name)) ∧
      (∀ index ∈ decl.indexes, ∀ name ∈ index.names, name ∈ decl.columns.map (·.name)) := by
  have hcolumns := TableDraft.columns_isOk (decl.ref database) resolve decl.columns
  constructor
  · rintro ⟨table, h⟩
    obtain ⟨draft, hd, hkeys, hindexes, -⟩ := build_eq_ok.1 h
    obtain ⟨hbuilt, hnodup, hagree⟩ := hcolumns.1 ⟨draft, hd⟩
    rw [(TableDraft.holds_of_columns hd).keys] at hkeys hindexes
    exact ⟨hbuilt, hnodup, hagree, hkeys, hindexes⟩
  · rintro ⟨hbuilt, hnodup, hagree, hkeys, hindexes⟩
    obtain ⟨draft, hd⟩ := hcolumns.2 ⟨hbuilt, hnodup, hagree⟩
    rw [← (TableDraft.holds_of_columns hd).keys] at hkeys hindexes
    exact ⟨_, build_eq_ok.2 ⟨draft, hd, hkeys, hindexes, rfl⟩⟩

end Table

end DatabaseProject
