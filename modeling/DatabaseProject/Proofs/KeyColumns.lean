import DatabaseProject.Proofs.ConstraintNames

/-!
# The columns of foreign keys

The foreign keys of a built table share its referring columns out: a foreign-key column has a key to
itself, the members of a group have one in common, and no column is in two keys. The keys stand in
the order of their first columns. Each of the columns has the type of the column that stands beside
it in its key.
-/

namespace DatabaseProject

open Outcome

/-- What the foreign key of a declared column is called after. -/
def ColumnDecl.label? (column : ColumnDecl) : Option KeyLabel := column.key?.map (·.label)

def ColumnDecl.isPlain : ColumnDecl → Bool
  | .plain _ => true
  | .foreignKey _ | .grouped _ => false

/-- The declaration of a member of a group. -/
def ColumnDecl.member? (group : String) : ColumnDecl → Option GroupedColumnDecl
  | .grouped decl => if decl.group = group then some decl else none
  | _ => none

/-- A foreign key holds what the declared columns of its label say, in their order. -/
inductive ForeignKey.Holds (database : String) (columns : List ColumnDecl) (key : ForeignKey) :
    KeyLabel → Prop
  /-- The key of a foreign-key column. -/
  | column (decl : ForeignKeyColumnDecl) (declared : .foreignKey decl ∈ columns)
      (names : key.columns = [decl.name]) (referenced : key.referencedColumns = [decl.column])
      (table : key.referencedTable = ⟨database, decl.schema, decl.table⟩) :
      Holds database columns key (.column decl.name)
  /-- The key of a group; all of its members refer to one table. -/
  | group (name : String)
      (names : key.columns = (columns.filterMap (·.member? name)).map (·.name))
      (referenced : key.referencedColumns = (columns.filterMap (·.member? name)).map (·.column))
      (tables : ∀ member ∈ columns.filterMap (·.member? name),
        key.referencedTable = ⟨database, member.schema, member.table⟩) :
      Holds database columns key (.group name)

/-- A column with the name and nullability of its declaration and the type of another column. -/
structure Column.TakesType (column : Column) (declared : ColumnDecl) (found : Column) : Prop where
  name : column.name = declared.name
  nullable : column.nullable = declared.nullable
  dataType : column.dataType = found.dataType
  length : column.length = found.length
  precision : column.precision = found.precision
  scale : column.scale = found.scale

section

variable {columns : List ColumnDecl} {column : ColumnDecl} {key : KeyDecl} {group : String}
  {member : GroupedColumnDecl}

theorem findIdx_congr {α : Type} {p q : α → Bool} {xs : List α} (h : ∀ x ∈ xs, p x = q x) :
    xs.findIdx p = xs.findIdx q := by
  induction xs with
  | nil => rfl
  | cons x xs ih =>
    rw [List.forall_mem_cons] at h
    rw [List.findIdx_cons, List.findIdx_cons, h.1, ih h.2]

theorem member?_eq_some :
    column.member? group = some member ↔ column = .grouped member ∧ member.group = group := by
  cases column with
  | plain decl => simp [ColumnDecl.member?]
  | foreignKey decl => simp [ColumnDecl.member?]
  | grouped decl =>
    simp only [ColumnDecl.member?, Option.ite_none_right_eq_some, Option.some.injEq,
      ColumnDecl.grouped.injEq]
    constructor
    · rintro ⟨hg, rfl⟩
      exact ⟨rfl, hg⟩
    · rintro ⟨rfl, hg⟩
      exact ⟨hg, rfl⟩

/-- Declared keys stand in the order in which their first columns are declared. -/
theorem declaredKeys_in_order (columns : List ColumnDecl) :
    (declaredKeys columns).Pairwise fun first second =>
      columns.findIdx (·.key? = some first) < columns.findIdx (·.key? = some second) := by
  induction columns using List.reverseRecOn with
  | nil => exact .nil
  | append_singleton columns column ih =>
    have hfound : ∀ key ∈ declaredKeys columns,
        columns.findIdx (·.key? = some key) < columns.length := by
      intro key hm
      obtain ⟨first, hf, hk⟩ := mem_declaredKeys.1 hm
      exact List.findIdx_lt_length_of_exists ⟨first, hf, decide_eq_true hk⟩
    have hsame : ∀ key ∈ declaredKeys columns,
        (columns ++ [column]).findIdx (·.key? = some key) = columns.findIdx (·.key? = some key) := by
      intro key hm
      rw [List.findIdx_append, if_pos (hfound key hm)]
    have hold : (declaredKeys columns).Pairwise fun first second =>
        (columns ++ [column]).findIdx (·.key? = some first) <
          (columns ++ [column]).findIdx (·.key? = some second) := by
      refine ih.imp_of_mem fun {first second} hf hs hlt => ?_
      rwa [hsame first hf, hsame second hs]
    cases hk : column.key? with
    | none => rwa [declaredKeys_of_plain hk]
    | some key =>
      by_cases hm : key ∈ declaredKeys columns
      · rwa [declaredKeys_of_known hk hm]
      · rw [declaredKeys_of_fresh hk hm, List.pairwise_append]
        refine ⟨hold, List.pairwise_singleton _ _, fun first hf last hl => ?_⟩
        obtain rfl := List.mem_singleton.1 hl
        have hnone : ¬ columns.findIdx (·.key? = some last) < columns.length := by
          rw [List.findIdx_lt_length]
          rintro ⟨earlier, he, hkey⟩
          exact hm (mem_declaredKeys.2 ⟨earlier, he, of_decide_eq_true hkey⟩)
        rw [hsame first hf, List.findIdx_append, if_neg hnone]
        have hlt := hfound first hf
        omega

/-- The one column of a key that is called after a column. -/
theorem members_of_column {schema target : String} {decl : ForeignKeyColumnDecl}
    (hn : (columns.map (·.name)).Nodup) (hd : .foreignKey decl ∈ columns) (hs : decl.schema = schema)
    (ht : decl.table = target) :
    KeyDecl.members columns ⟨schema, target, .column decl.name⟩ = [.foreignKey decl] := by
  subst hs ht
  have hnodup : (KeyDecl.members columns ⟨decl.schema, decl.table, .column decl.name⟩).Nodup :=
    hn.of_map.filter _
  refine List.perm_singleton.1 ((List.perm_ext_iff_of_nodup hnodup (List.nodup_singleton _)).2 ?_)
  intro column
  rw [KeyDecl.members, List.mem_filter, List.mem_singleton, decide_eq_true_iff]
  constructor
  · rintro ⟨hm, hk⟩
    exact List.inj_on_of_nodup_map hn hm hd (name_of_key hk)
  · rintro rfl
    exact ⟨hd, rfl⟩

/-- The columns of a key that is called after a group, when all members of the group are in it. -/
theorem members_of_group {schema target : String}
    (hg : ∀ member, .grouped member ∈ columns → member.group = group →
      member.schema = schema ∧ member.table = target) :
    KeyDecl.members columns ⟨schema, target, .group group⟩ =
      (columns.filterMap (·.member? group)).map .grouped := by
  rw [KeyDecl.members, List.map_filterMap, ← List.filterMap_eq_filter]
  apply List.filterMap_congr
  intro column hm
  cases column with
  | plain decl => rfl
  | foreignKey decl => simp [Option.guard, ColumnDecl.key?, ColumnDecl.member?]
  | grouped decl =>
    by_cases h : decl.group = group
    · obtain ⟨hschema, htable⟩ := hg decl hm h
      simp [Option.guard, ColumnDecl.key?, ColumnDecl.member?, h, hschema, htable]
    · simp [Option.guard, ColumnDecl.key?, ColumnDecl.member?, h]

end

namespace Table

variable {database : String} {resolve : ColumnResolver} {decl : TableDecl} {table : Table}
  {key : KeyDecl} {column : ColumnDecl} {label : KeyLabel}

/-- In a built table the label of a key tells which columns belong to it. -/
theorem label_eq_iff (h : build database resolve decl = .ok table) (hk : key ∈ decl.keys)
    (hc : column ∈ decl.columns) : column.label? = some key.label ↔ column.key? = some key := by
  rw [ColumnDecl.label?, Option.map_eq_some_iff]
  constructor
  · rintro ⟨other, ho, hl⟩
    rwa [← key_unique_of_build h (mem_declaredKeys.2 ⟨column, hc, ho⟩) hk hl]
  · intro he
    exact ⟨key, he, rfl⟩

theorem mem_labels : label ∈ decl.keys.map (·.label) ↔
    ∃ column ∈ decl.columns, column.label? = some label := by
  rw [List.mem_map]
  constructor
  · rintro ⟨key, hk, rfl⟩
    obtain ⟨column, hc, he⟩ := mem_declaredKeys.1 hk
    exact ⟨column, hc, by rw [ColumnDecl.label?, he]; rfl⟩
  · rintro ⟨column, hc, hl⟩
    obtain ⟨key, he, rfl⟩ := Option.map_eq_some_iff.1 hl
    exact ⟨key, mem_declaredKeys.2 ⟨column, hc, he⟩, rfl⟩

theorem labels_in_order (h : build database resolve decl = .ok table) :
    (decl.keys.map (·.label)).Pairwise fun first second =>
      decl.columns.findIdx (·.label? = some first) < decl.columns.findIdx (·.label? = some second) := by
  have hsame : ∀ key ∈ decl.keys, decl.columns.findIdx (·.label? = some key.label) =
      decl.columns.findIdx (·.key? = some key) := by
    intro key hk
    exact findIdx_congr fun column hc => decide_eq_decide.2 (label_eq_iff h hk hc)
  rw [List.pairwise_map]
  refine (declaredKeys_in_order decl.columns).imp_of_mem fun {first second} hf hs hlt => ?_
  rwa [hsame first hf, hsame second hs]

/-- Each foreign key of a built table holds what the columns of its label declare. -/
theorem holds_of_build (h : build database resolve decl = .ok table) (hk : key ∈ decl.keys) :
    (key.foreignKey (decl.ref database) decl.columns).Holds database decl.columns key.label := by
  obtain ⟨-, hnodup, hagree, -, -⟩ := build_isOk.1 ⟨table, h⟩
  obtain ⟨schema, target, label⟩ := key
  obtain ⟨column, hc, he⟩ := mem_declaredKeys.1 hk
  cases column with
  | plain decl => cases he
  | foreignKey decl =>
    cases he
    have hmembers := members_of_column hnodup hc rfl rfl
    refine .column decl hc ?_ ?_ rfl
    · rw [KeyDecl.foreignKey, hmembers]
      rfl
    · rw [KeyDecl.foreignKey, hmembers]
      rfl
  | grouped first =>
    cases he
    have hone : ∀ member, .grouped member ∈ decl.columns → member.group = first.group →
        member.schema = first.schema ∧ member.table = first.table := fun member hm hg =>
      groupsAgree_iff.1 hagree member first hm hc hg
    have hmembers := members_of_group hone
    refine .group first.group ?_ ?_ ?_
    · rw [KeyDecl.foreignKey, hmembers, List.map_map]
      rfl
    · rw [KeyDecl.foreignKey, hmembers, List.filterMap_map]
      exact congrFun List.filterMap_eq_map _
    · intro member hm
      obtain ⟨column, hcolumn, hmember⟩ := List.mem_filterMap.1 hm
      obtain ⟨rfl, hg⟩ := member?_eq_some.1 hmember
      obtain ⟨hschema, htable⟩ := hone member hcolumn hg
      rw [hschema, htable]
      rfl

/-- The names in a key are those of the columns that belong to it. -/
theorem mem_names_iff (h : build database resolve decl = .ok table) (hc : column ∈ decl.columns) :
    column.name ∈ (key.foreignKey (decl.ref database) decl.columns).columns ↔ column.key? = some key := by
  obtain ⟨-, hnodup, -, -, -⟩ := build_isOk.1 ⟨table, h⟩
  rw [KeyDecl.foreignKey, KeyDecl.members, List.mem_map]
  constructor
  · rintro ⟨member, hm, hname⟩
    obtain ⟨hm, hk⟩ := List.mem_filter.1 hm
    rw [← List.inj_on_of_nodup_map hnodup hm hc hname]
    exact of_decide_eq_true hk
  · intro hk
    exact ⟨column, List.mem_filter.2 ⟨hc, decide_eq_true hk⟩, rfl⟩

/-- No name stands twice in the foreign keys of a built table. -/
theorem nodup_names (h : build database resolve decl = .ok table) :
    (table.foreignKeys.flatMap (·.columns)).Nodup := by
  obtain ⟨-, hnodup, -, -, -⟩ := build_isOk.1 ⟨table, h⟩
  rw [foreignKeys_of_build h, TableDecl.foreignKeys, List.flatMap_map, List.nodup_flatMap]
  refine ⟨fun key _ => hnodup.sublist (List.filter_sublist.map _), ?_⟩
  refine (nodup_eraseDups _).imp fun {first second} hne name hf hs => hne ?_
  obtain ⟨column, hm, rfl⟩ := List.mem_map.1 hf
  have hc : column ∈ decl.columns := List.mem_of_mem_filter hm
  exact Option.some.inj (((mem_names_iff h hc).1 hf).symm.trans ((mem_names_iff h hc).1 hs))

/-- A column that refers to another one stands once in the foreign keys, a plain one never. -/
theorem count_names (h : build database resolve decl = .ok table) (hc : column ∈ decl.columns) :
    (table.foreignKeys.flatMap (·.columns)).count column.name =
      if column.isPlain then 0 else 1 := by
  have hmem : column.name ∈ table.foreignKeys.flatMap (·.columns) ↔ ∃ key, column.key? = some key := by
    rw [foreignKeys_of_build h, TableDecl.foreignKeys, List.flatMap_map, List.mem_flatMap]
    constructor
    · rintro ⟨key, -, hn⟩
      exact ⟨key, (mem_names_iff h hc).1 hn⟩
    · rintro ⟨key, hk⟩
      exact ⟨key, mem_declaredKeys.2 ⟨column, hc, hk⟩, (mem_names_iff h hc).2 hk⟩
  cases column with
  | plain plain =>
    refine List.count_eq_zero.2 fun hm => ?_
    obtain ⟨key, hk⟩ := hmem.1 hm
    cases hk
  | foreignKey decl => exact List.count_eq_one_of_mem (nodup_names h) (hmem.2 ⟨_, rfl⟩)
  | grouped decl => exact List.count_eq_one_of_mem (nodup_names h) (hmem.2 ⟨_, rfl⟩)

/-- A column that refers to another one takes the type of what the resolver finds. -/
theorem takesType_of_column {ref : TableRef} {target : ColumnRef} {built : Column}
    (h : column.column ref resolve = .ok built) (ht : column.target? ref.database = some target) :
    ∃ found, resolve target = .ok found ∧ built.TakesType column found := by
  rw [ColumnDecl.column_of_target ht, map_eq_ok] at h
  obtain ⟨found, hf, rfl⟩ := h
  exact ⟨found, hf, rfl, rfl, rfl, rfl, rfl, rfl⟩

/-- Beside each column of a foreign key stands the column that its type is taken from. -/
theorem types_of_build (h : build database resolve decl = .ok table) {key : ForeignKey}
    (hk : key ∈ table.foreignKeys) : List.Forall₂ (fun name referenced =>
      ∃ declared ∈ decl.columns, declared.name = name ∧ ∃ column found,
        table.columns.get? name = some column ∧
        resolve (key.referencedTable.column referenced) = .ok found ∧
        column.TakesType declared found) key.columns key.referencedColumns := by
  have haligned : key.Aligned database table.columns := by
    obtain ⟨draft, hd, -, -, rfl⟩ := build_eq_ok.1 h
    obtain ⟨made, hm, rfl⟩ := List.mem_map.1 hk
    exact (TableDraft.sound_of_columns hd).keys made hm
  refine haligned.pairs.imp ?_
  rintro name referenced ⟨column, hget, href⟩
  have hentry := OrderedMap.get?_eq_some.1 hget
  have hvalue : column ∈ table.columns.values := OrderedMap.mem_values.2 ⟨name, hentry⟩
  obtain ⟨declared, hd, hbuilt⟩ := column_of_build h hvalue
  have ht := (ColumnDecl.references_of_column hbuilt).symm.trans href
  obtain ⟨found, hfound, htakes⟩ := takesType_of_column hbuilt ht
  have hname : column.name = name := by
    obtain ⟨draft, hdraft, -, -, rfl⟩ := build_eq_ok.1 h
    exact (TableDraft.sound_of_columns hdraft).names _ hentry
  exact ⟨declared, hd, htakes.name.symm.trans hname, column, found, hget, hfound, htakes⟩

/-- The foreign keys of a built table share its referring columns out. There is one for each
foreign-key column and one for each group, in the order in which the first columns are declared; each
holds what the columns of its label declare, and beside each of its columns stands the one that the
resolver found and that the type is taken from. In all of them together every column that refers to
another one stands once, and no plain column does. -/
theorem foreign_keys_share_columns_out (h : build database resolve decl = .ok table) :
    (decl.columns.map (·.name)).Nodup ∧
    (∃ labels : List KeyLabel,
      (∀ label, label ∈ labels ↔ ∃ column ∈ decl.columns, column.label? = some label) ∧
      (labels.Pairwise fun first second => decl.columns.findIdx (·.label? = some first) <
        decl.columns.findIdx (·.label? = some second)) ∧
      List.Forall₂ (fun label key => key.Holds database decl.columns label) labels table.foreignKeys) ∧
    (∀ column ∈ decl.columns, (table.foreignKeys.flatMap (·.columns)).count column.name =
      if column.isPlain then 0 else 1) ∧
    ∀ key ∈ table.foreignKeys, List.Forall₂ (fun name referenced =>
      ∃ declared ∈ decl.columns, declared.name = name ∧ ∃ column found,
        table.columns.get? name = some column ∧
        resolve (key.referencedTable.column referenced) = .ok found ∧
        column.TakesType declared found) key.columns key.referencedColumns := by
  obtain ⟨-, hnodup, -, -, -⟩ := build_isOk.1 ⟨table, h⟩
  refine ⟨hnodup, ⟨decl.keys.map (·.label), fun label => mem_labels, labels_in_order h, ?_⟩,
    fun column hc => count_names h hc, fun key hk => types_of_build h hk⟩
  rw [foreignKeys_of_build h, TableDecl.foreignKeys, List.forall₂_map_left_iff,
    List.forall₂_map_right_iff, List.forall₂_same]
  exact fun key hk => holds_of_build h hk

/-- A table with two groups, whose members stand between each other and around a single column. -/
def shipments : TableDecl :=
  let region (name column group : String) : ColumnDecl :=
    .grouped ⟨name, column, group, "dbo", "Region", true⟩
  ⟨"Shipment", "dbo", .none, [.plain ⟨"Id", .int32, -1, -1, -1, false⟩,
    region "FromCountry" "Country" "From", .foreignKey ⟨"OrderId", "dbo", "Order", "Id", false⟩,
    region "ToCountry" "Country" "To", region "FromCode" "Code" "From", region "ToCode" "Code" "To"],
    none, [], []⟩

theorem shipments_share_columns_out :
    let resolve : ColumnResolver := fun ref => .ok ⟨ref.column, "int", false, 0, -1, -1, none⟩
    ∃ table, build "Shop" resolve shipments = .ok table ∧
      table.foreignKeys.map (·.columns) =
        [["FromCountry", "FromCode"], ["OrderId"], ["ToCountry", "ToCode"]] ∧
      (∃ labels : List KeyLabel, List.Forall₂
        (fun label key => key.Holds "Shop" shipments.columns label) labels table.foreignKeys) ∧
      (table.foreignKeys.flatMap (·.columns)).count "OrderId" = 1 ∧
      (table.foreignKeys.flatMap (·.columns)).count "Id" = 0 := by
  intro resolve
  have hbuilt : (build "Shop" resolve shipments).toOption.map
      (fun table => table.foreignKeys.map (·.columns)) =
        some [["FromCountry", "FromCode"], ["OrderId"], ["ToCountry", "ToCode"]] := by
    rfl
  obtain ⟨table, htable, hcolumns⟩ := Option.map_eq_some_iff.1 hbuilt
  have h := toOption_eq_some.1 htable
  obtain ⟨-, ⟨labels, -, -, hlabels⟩, hcount, -⟩ := foreign_keys_share_columns_out h
  refine ⟨table, h, hcolumns, ⟨labels, hlabels⟩, ?_, ?_⟩
  · exact hcount (.foreignKey ⟨"OrderId", "dbo", "Order", "Id", false⟩) (by decide)
  · exact hcount (.plain ⟨"Id", .int32, -1, -1, -1, false⟩) (by decide)

end Table

end DatabaseProject
