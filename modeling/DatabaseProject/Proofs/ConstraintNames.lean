import DatabaseProject.Proofs.ScriptPaths

/-!
# Names of foreign keys

The foreign keys of a built table are a function of the declared columns: one for each foreign-key
column and one for each group. The name of a key glues the names of two tables and of a column or a
group together with underscores, so that two keys of one schema can read the same. They do so only
where a group is called like a column, or where one of the glued names goes on behind an underscore.
-/

namespace DatabaseProject

open Outcome

/-- What a foreign key is called after: its only column, or the group of its columns. -/
inductive KeyLabel where
  | column (name : String)
  | group (name : String)
  deriving DecidableEq

namespace KeyLabel

def name : KeyLabel → String
  | column name => name
  | group name => name

/-- The name of the group, when it is one. -/
def group? : KeyLabel → Option String
  | column _ => none
  | group name => some name

theorem group?_eq_some {label : KeyLabel} {name : String} :
    label.group? = some name ↔ label = group name := by
  cases label <;> simp [group?]

end KeyLabel

/-- A foreign key as columns declare it: the table that it refers to, and what it is called after. -/
structure KeyDecl where
  schema : String
  table : String
  label : KeyLabel
  deriving DecidableEq

/-- The foreign key that a column belongs to. -/
def ColumnDecl.key? : ColumnDecl → Option KeyDecl
  | .plain _ => none
  | .foreignKey decl => some ⟨decl.schema, decl.table, .column decl.name⟩
  | .grouped decl => some ⟨decl.schema, decl.table, .group decl.group⟩

/-- The foreign keys that columns declare, each where its first column stands. -/
def declaredKeys (columns : List ColumnDecl) : List KeyDecl :=
  (columns.filterMap ColumnDecl.key?).eraseDups

namespace KeyDecl

/-- The columns that belong to a foreign key. -/
def members (columns : List ColumnDecl) (key : KeyDecl) : List ColumnDecl :=
  columns.filter fun column => column.key? = some key

/-- The foreign key of a table that some of its columns make. -/
def foreignKey (table : TableRef) (columns : List ColumnDecl) (key : KeyDecl) : ForeignKey where
  name := ForeignKey.nameFor table.table key.table key.label.name
  columns := (key.members columns).map (·.name)
  referencedTable := ⟨table.database, key.schema, key.table⟩
  referencedColumns := (key.members columns).filterMap fun column =>
    (column.target? table.database).map (·.column)

/-- The foreign key in the making that some columns make. -/
def draft (table : TableRef) (columns : List ColumnDecl) (key : KeyDecl) : ForeignKeyDraft :=
  ⟨key.label.group?, key.foreignKey table columns⟩

end KeyDecl

namespace TableDecl

/-- The foreign keys that the columns of a table declare. -/
def keys (decl : TableDecl) : List KeyDecl := declaredKeys decl.columns

/-- The foreign keys of a table of a database. -/
def foreignKeys (database : String) (decl : TableDecl) : List ForeignKey :=
  decl.keys.map (·.foreignKey (decl.ref database) decl.columns)

end TableDecl

section

variable {table : TableRef} {columns : List ColumnDecl} {column : ColumnDecl} {key : KeyDecl}

theorem mem_declaredKeys : key ∈ declaredKeys columns ↔ ∃ column ∈ columns, column.key? = some key := by
  unfold declaredKeys
  rw [List.mem_eraseDups, List.mem_filterMap]

theorem declaredKeys_of_plain (hk : column.key? = none) :
    declaredKeys (columns ++ [column]) = declaredKeys columns := by
  simp [declaredKeys, hk]

theorem declaredKeys_of_known (hk : column.key? = some key) (hm : key ∈ declaredKeys columns) :
    declaredKeys (columns ++ [column]) = declaredKeys columns := by
  have hremoved : [key].removeAll (columns.filterMap ColumnDecl.key?) = [] := by
    simpa [declaredKeys, List.cons_removeAll] using hm
  unfold declaredKeys
  rw [List.filterMap_append, List.eraseDups_append, List.filterMap_cons, hk, List.filterMap_nil,
    hremoved, List.eraseDups_nil, List.append_nil]

theorem declaredKeys_of_fresh (hk : column.key? = some key) (hm : key ∉ declaredKeys columns) :
    declaredKeys (columns ++ [column]) = declaredKeys columns ++ [key] := by
  have hkept : [key].removeAll (columns.filterMap ColumnDecl.key?) = [key] := by
    simpa [declaredKeys, List.cons_removeAll] using hm
  unfold declaredKeys
  rw [List.filterMap_append, List.eraseDups_append, List.filterMap_cons, hk, List.filterMap_nil,
    hkept]
  rfl

theorem nodup_eraseDups {α : Type} [BEq α] [LawfulBEq α] (xs : List α) : xs.eraseDups.Nodup := by
  generalize hn : xs.length = n
  induction n using Nat.strongRecOn generalizing xs with
  | ind n ih =>
    cases xs with
    | nil => simp
    | cons x rest =>
      rw [List.eraseDups_cons, List.nodup_cons]
      refine ⟨by simp, ih _ ?_ _ rfl⟩
      have hle := List.length_filter_le (fun y => !y == x) rest
      rw [List.length_cons] at hn
      omega

theorem members_concat : key.members (columns ++ [column]) =
    key.members columns ++ if column.key? = some key then [column] else [] := by
  unfold KeyDecl.members
  rw [List.filter_append]
  congr 1
  by_cases h : column.key? = some key <;> simp [h]

theorem members_of_fresh (h : key ∉ declaredKeys columns) : key.members columns = [] := by
  unfold KeyDecl.members
  rw [List.filter_eq_nil_iff]
  intro column hm he
  exact h (mem_declaredKeys.2 ⟨column, hm, of_decide_eq_true he⟩)

/-- A column leaves the foreign keys that it does not belong to as they are. -/
theorem draft_of_ne (h : column.key? ≠ some key) :
    key.draft table (columns ++ [column]) = key.draft table columns := by
  unfold KeyDecl.draft KeyDecl.foreignKey
  rw [members_concat, if_neg h, List.append_nil]

theorem drafts_of_forall_ne (h : ∀ key ∈ declaredKeys columns, column.key? ≠ some key) :
    (declaredKeys columns).map (·.draft table (columns ++ [column])) =
      (declaredKeys columns).map (·.draft table columns) :=
  List.map_congr_left fun key hm => draft_of_ne (h key hm)

/-- A column makes the foreign key that it belongs to longer by itself. -/
theorem draft_of_member {target : ColumnRef} (hk : column.key? = some key)
    (ht : column.target? table.database = some target) :
    key.draft table (columns ++ [column]) = ⟨key.label.group?,
      ForeignKey.nameFor table.table key.table key.label.name,
      (key.foreignKey table columns).columns ++ [column.name],
      ⟨table.database, key.schema, key.table⟩,
      (key.foreignKey table columns).referencedColumns ++ [target.column]⟩ := by
  unfold KeyDecl.draft KeyDecl.foreignKey
  rw [members_concat, if_pos hk, List.map_append, List.filterMap_append, List.filterMap_cons, ht]
  rfl

/-- A foreign key that a column is the first of stands behind the others, with that column only. -/
theorem drafts_of_fresh {target : ColumnRef} (hk : column.key? = some key)
    (hm : key ∉ declaredKeys columns) (ht : column.target? table.database = some target) :
    (declaredKeys (columns ++ [column])).map (·.draft table (columns ++ [column])) =
      (declaredKeys columns).map (·.draft table columns) ++ [⟨key.label.group?,
        ForeignKey.nameFor table.table key.table key.label.name, [column.name],
        ⟨table.database, key.schema, key.table⟩, [target.column]⟩] := by
  have hne : ∀ other ∈ declaredKeys columns, column.key? ≠ some other := by
    rintro other ho he
    exact hm (Option.some.inj (hk.symm.trans he) ▸ ho)
  have hnone := members_of_fresh hm
  rw [declaredKeys_of_fresh hk hm, List.map_append, drafts_of_forall_ne hne, List.map_singleton,
    draft_of_member hk ht]
  simp only [KeyDecl.foreignKey, hnone, List.map_nil, List.filterMap_nil, List.nil_append]

theorem name_of_key {schema target name : String}
    (h : column.key? = some ⟨schema, target, .column name⟩) : column.name = name := by
  cases column with
  | plain decl => cases h
  | foreignKey decl =>
    cases h
    rfl
  | grouped decl => cases h

/-- A column that joins a group makes the one key of that group longer. -/
theorem drafts_extendGroup {decl : GroupedColumnDecl}
    (hknown : ⟨decl.schema, decl.table, .group decl.group⟩ ∈ declaredKeys columns)
    (hunique : ∀ key ∈ declaredKeys columns, key.label = .group decl.group →
      key = ⟨decl.schema, decl.table, .group decl.group⟩) :
    ((declaredKeys columns).map (·.draft table columns)).map
        (TableDraft.extendGroup decl.group decl.name decl.column) =
      (declaredKeys (columns ++ [.grouped decl])).map (·.draft table (columns ++ [.grouped decl])) := by
  rw [declaredKeys_of_known rfl hknown, List.map_map]
  apply List.map_congr_left
  intro key hm
  show TableDraft.extendGroup decl.group decl.name decl.column (key.draft table columns) = _
  unfold TableDraft.extendGroup
  split
  · rename_i hgroup
    obtain rfl := hunique key hm (KeyLabel.group?_eq_some.1 hgroup)
    rw [draft_of_member rfl rfl]
    rfl
  · rename_i hgroup
    rw [draft_of_ne]
    intro he
    cases he
    exact hgroup rfl

theorem drafts_joinGroup {decl : GroupedColumnDecl} {keys keys' : List ForeignKeyDraft}
    (hd : keys = (declaredKeys columns).map (·.draft table columns))
    (hg : ∀ key ∈ keys, ∀ group, key.group = some group →
      TableDraft.bound? group keys = some key.key.referencedTable)
    (hj : TableDraft.joinGroup table ⟨table.database, decl.schema, decl.table⟩ decl keys = .ok keys') :
    keys' = (declaredKeys (columns ++ [.grouped decl])).map
      (·.draft table (columns ++ [.grouped decl])) := by
  have hbound : ∀ key ∈ declaredKeys columns, key.label = .group decl.group →
      TableDraft.bound? decl.group keys = some ⟨table.database, key.schema, key.table⟩ := by
    intro key hm hl
    exact hg (key.draft table columns) (hd ▸ List.mem_map_of_mem hm) decl.group
      (KeyLabel.group?_eq_some.2 hl)
  unfold TableDraft.joinGroup at hj
  split at hj
  · rename_i hfind
    cases hj
    have hnone : TableDraft.bound? decl.group keys = none := by
      unfold TableDraft.bound?
      rw [hfind, Option.map_none]
    have hfresh : ⟨decl.schema, decl.table, .group decl.group⟩ ∉ declaredKeys columns := by
      intro hm
      rw [hbound _ hm rfl] at hnone
      cases hnone
    rw [drafts_of_fresh rfl hfresh rfl, hd]
    rfl
  · rename_i found hfind
    split at hj
    · rename_i htarget
      cases hj
      have hsome : TableDraft.bound? decl.group keys =
          some ⟨table.database, decl.schema, decl.table⟩ := by
        unfold TableDraft.bound?
        rw [hfind, Option.map_some, htarget]
      -- A group is bound to one table, so that it has one declared key.
      have hunique : ∀ key ∈ declaredKeys columns, key.label = .group decl.group →
          key = ⟨decl.schema, decl.table, .group decl.group⟩ := by
        intro key hm hl
        have he := (hbound key hm hl).symm.trans hsome
        obtain ⟨schema, target, label⟩ := key
        cases hl
        cases he
        rfl
      have hknown : ⟨decl.schema, decl.table, .group decl.group⟩ ∈ declaredKeys columns := by
        have hmem := List.mem_of_find?_eq_some hfind
        rw [hd] at hmem
        obtain ⟨key, hm, rfl⟩ := List.mem_map.1 hmem
        have hgroup := List.find?_some hfind
        exact hunique key hm (KeyLabel.group?_eq_some.1 (of_decide_eq_true hgroup)) ▸ hm
      rw [hd]
      exact drafts_extendGroup hknown hunique
    · cases hj

/-- Keys that stand for the declared ones still do with the part of one more column in them. -/
theorem drafts_joinKeys {keys keys' : List ForeignKeyDraft}
    (hd : keys = (declaredKeys columns).map (·.draft table columns))
    (hg : ∀ key ∈ keys, ∀ group, key.group = some group →
      TableDraft.bound? group keys = some key.key.referencedTable)
    (hn : column.name ∉ columns.map (·.name)) (hj : column.joinKeys table keys = .ok keys') :
    keys' = (declaredKeys (columns ++ [column])).map (·.draft table (columns ++ [column])) := by
  cases column with
  | plain decl =>
    cases hj
    rw [declaredKeys_of_plain rfl, drafts_of_forall_ne fun _ _ he => by cases he]
    exact hd
  | foreignKey decl =>
    cases hj
    have hfresh : ⟨decl.schema, decl.table, .column decl.name⟩ ∉ declaredKeys columns := by
      intro hm
      obtain ⟨earlier, he, hk⟩ := mem_declaredKeys.1 hm
      exact hn (List.mem_map.2 ⟨earlier, he, name_of_key hk⟩)
    rw [drafts_of_fresh rfl hfresh rfl, hd]
    rfl
  | grouped decl => exact drafts_joinGroup hd hg hj

theorem drafts_of_columns {resolve : ColumnResolver} {draft : TableDraft}
    (h : columns.foldlM (TableDraft.addColumn table resolve) .empty = .ok draft) :
    draft.foreignKeys = (declaredKeys columns).map (·.draft table columns) := by
  have hall : draft.Sound table.database ∧ draft.columns.keys = columns.map (·.name) ∧
      draft.foreignKeys = (declaredKeys columns).map (·.draft table columns) := by
    refine foldlM_induction (motive := fun done state => state.Sound table.database ∧
      state.columns.keys = done.map (·.name) ∧
      state.foreignKeys = (declaredKeys done).map (·.draft table done))
      ⟨TableDraft.sound_empty _, rfl, rfl⟩ ?_ h
    intro done state column extended hm hstep
    obtain ⟨hsound, hkeys, hdrafts⟩ := hm
    obtain ⟨built, -, hj, hn, he⟩ := TableDraft.addColumn_eq_ok.1 hstep
    refine ⟨TableDraft.sound_addColumn hsound hstep, ?_, ?_⟩
    · unfold OrderedMap.keys at hkeys ⊢
      rw [he, List.map_append, List.map_append, hkeys]
      rfl
    · exact drafts_joinKeys hdrafts hsound.groups (hkeys ▸ hn) hj
  exact hall.2.2

end

namespace Table

variable {database : String} {resolve : ColumnResolver} {decl : TableDecl} {table : Table}

/-- The foreign keys of a built table are those that its columns declare. -/
theorem foreignKeys_of_build (h : build database resolve decl = .ok table) :
    table.foreignKeys = decl.foreignKeys database := by
  obtain ⟨draft, hd, -, -, rfl⟩ := build_eq_ok.1 h
  show draft.foreignKeys.map (·.key) = _
  rw [drafts_of_columns hd, List.map_map]
  rfl

/-- No two foreign keys of a built table are called after one column or after one group. -/
theorem key_unique_of_build (h : build database resolve decl = .ok table) {key key' : KeyDecl}
    (hk : key ∈ decl.keys) (hk' : key' ∈ decl.keys) (hl : key.label = key'.label) : key = key' := by
  obtain ⟨-, hnodup, hagree, -, -⟩ := build_isOk.1 ⟨table, h⟩
  obtain ⟨column, hm, he⟩ := mem_declaredKeys.1 hk
  obtain ⟨column', hm', he'⟩ := mem_declaredKeys.1 hk'
  obtain ⟨schema, target, label⟩ := key
  obtain ⟨schema', target', label'⟩ := key'
  cases hl
  cases label with
  | column name =>
    have hname : column.name = column'.name := (name_of_key he).trans (name_of_key he').symm
    obtain rfl := List.inj_on_of_nodup_map hnodup hm hm' hname
    exact Option.some.inj (he.symm.trans he')
  | group name =>
    cases column with
    | plain | foreignKey => cases he
    | grouped first =>
      cases column' with
      | plain | foreignKey => cases he'
      | grouped second =>
        simp only [ColumnDecl.key?, Option.some.injEq, KeyDecl.mk.injEq, KeyLabel.group.injEq] at he he'
        obtain ⟨rfl, rfl, hgroup⟩ := he
        obtain ⟨rfl, rfl, hgroup'⟩ := he'
        obtain ⟨hschema, htable⟩ :=
          groupsAgree_iff.1 hagree first second hm hm' (hgroup.trans hgroup'.symm)
        rw [hschema, htable]

end Table

/-- Two pairs of texts that read the same when they are joined by an underscore, because the joined
text has another underscore where the second pair is cut. -/
def OtherCut (first last first' last' : String) : Prop :=
  ∃ part, (first' = first ++ "_" ++ part ∧ last = part ++ "_" ++ last') ∨
    (first = first' ++ "_" ++ part ∧ last' = part ++ "_" ++ last)

/-- A text that goes on beyond the first underscore of another cut. -/
theorem cut_of_cons_eq {last last' middle : List Char} (h : '_' :: last = middle ++ '_' :: last') :
    (middle = [] ∧ last = last') ∨ ∃ part, middle = '_' :: part ∧ last = part ++ '_' :: last' := by
  cases middle with
  | nil => exact .inl ⟨rfl, (List.cons.inj h).2⟩
  | cons c part =>
    obtain ⟨rfl, hlast⟩ := List.cons.inj h
    exact .inr ⟨part, rfl, hlast⟩

theorem glued_eq_iff {first last first' last' : String} :
    first ++ "_" ++ last = first' ++ "_" ++ last' ↔
      (first = first' ∧ last = last') ∨ OtherCut first last first' last' := by
  constructor
  · intro h
    have hchars : first.toList ++ '_' :: last.toList = first'.toList ++ '_' :: last'.toList := by
      simpa using congrArg String.toList h
    rcases List.append_eq_append_iff.1 hchars with ⟨middle, hf, hl⟩ | ⟨middle, hf, hl⟩
    · rcases cut_of_cons_eq hl with ⟨rfl, he⟩ | ⟨part, rfl, he⟩
      · rw [List.append_nil] at hf
        exact .inl ⟨(String.toList_inj.1 hf).symm, String.toList_inj.1 he⟩
      · refine .inr ⟨String.ofList part, .inl ⟨?_, ?_⟩⟩ <;> rw [← String.toList_inj]
        · simpa using hf
        · simpa using he
    · rcases cut_of_cons_eq hl with ⟨rfl, he⟩ | ⟨part, rfl, he⟩
      · rw [List.append_nil] at hf
        exact .inl ⟨String.toList_inj.1 hf, (String.toList_inj.1 he).symm⟩
      · refine .inr ⟨String.ofList part, .inr ⟨?_, ?_⟩⟩ <;> rw [← String.toList_inj]
        · simpa using hf
        · simpa using he
  · rintro (⟨rfl, rfl⟩ | ⟨part, ⟨rfl, rfl⟩ | ⟨rfl, rfl⟩⟩)
    · rfl
    · simp only [String.append_assoc]
    · simp only [String.append_assoc]

theorem nameFor_eq_iff {table target name table' target' name' : String} :
    ForeignKey.nameFor table target name = ForeignKey.nameFor table' target' name' ↔
      (table = table' ∧ ((target = target' ∧ name = name') ∨ OtherCut target name target' name')) ∨
        OtherCut table (target ++ "_" ++ name) table' (target' ++ "_" ++ name') := by
  have hshape : ∀ first second third : String, ForeignKey.nameFor first second third =
      "[FK_" ++ (first ++ "_" ++ (second ++ "_" ++ third)) ++ "]" := by
    intro first second third
    simp only [ForeignKey.nameFor, String.append_assoc]
  rw [hshape, hshape, String.append_left_inj, String.append_right_inj, glued_eq_iff, glued_eq_iff]

/-- Two different foreign keys, of tables of the given names, with constraint names that read the
same. -/
inductive KeyDecl.SharesName (table table' : String) (key key' : KeyDecl) : Prop
  /-- The key of a column and the key of a group of one table, with one name for both. -/
  | labels (same : table = table') (targets : key.table = key'.table)
      (names : key.label.name = key'.label.name) (different : key.label ≠ key'.label)
  /-- The name of one referenced table goes on in the other behind an underscore. -/
  | targets (same : table = table')
      (cut : OtherCut key.table key.label.name key'.table key'.label.name)
  /-- The name of one table goes on in the other behind an underscore. -/
  | tables (cut : OtherCut table (key.table ++ "_" ++ key.label.name)
      table' (key'.table ++ "_" ++ key'.label.name))

namespace Table

variable {database : String} {resolve : ColumnResolver} {decl decl' : TableDecl} {first second : Table}

/-- Foreign keys of two built tables have one name exactly when they are one key or share a name. -/
theorem name_eq_iff (h : build database resolve decl = .ok first)
    (h' : build database resolve decl' = .ok second) (hname : decl.name = decl'.name → decl = decl')
    {i j : Nat} {key key' : ForeignKey} (hk : first.foreignKeys[i]? = some key)
    (hk' : second.foreignKeys[j]? = some key') :
    ∃ declared declared', decl.keys[i]? = some declared ∧ decl'.keys[j]? = some declared' ∧
      (key.name = key'.name ↔ (first = second ∧ i = j) ∨
        declared.SharesName first.name second.name declared') := by
  have hfirst : first.name = decl.name := congrArg TableRef.table (ref_of_build h)
  have hsecond : second.name = decl'.name := congrArg TableRef.table (ref_of_build h')
  have hgets := hk
  have hgets' := hk'
  rw [foreignKeys_of_build h, TableDecl.foreignKeys, List.getElem?_map] at hgets
  rw [foreignKeys_of_build h', TableDecl.foreignKeys, List.getElem?_map] at hgets'
  obtain ⟨declared, hd, rfl⟩ := Option.map_eq_some_iff.1 hgets
  obtain ⟨declared', hd', rfl⟩ := Option.map_eq_some_iff.1 hgets'
  refine ⟨declared, declared', hd, hd', ?_⟩
  rw [hfirst, hsecond]
  constructor
  · intro he
    rcases nameFor_eq_iff.1 he with ⟨htable, ⟨htarget, hlabel⟩ | hcut⟩ | hcut
    · obtain rfl := hname htable
      by_cases hl : declared.label = declared'.label
      · left
        have hone : declared = declared' := key_unique_of_build h (List.mem_of_getElem? hd)
          (List.mem_of_getElem? hd') hl
        obtain ⟨hi, -⟩ := List.getElem?_eq_some_iff.1 hd
        refine ⟨Except.ok.inj (h.symm.trans h'), ?_⟩
        exact (List.getElem?_inj hi (nodup_eraseDups _)).1 (hd.trans (hone ▸ hd'.symm))
      · exact .inr (.labels rfl htarget hlabel hl)
    · exact .inr (.targets htable hcut)
    · exact .inr (.tables hcut)
  · rintro (⟨rfl, rfl⟩ | hshares)
    · rw [Option.some.inj (hk.symm.trans hk')]
    · apply nameFor_eq_iff.2
      cases hshares with
      | labels same targets names => exact .inl ⟨same, .inl ⟨targets, names⟩⟩
      | targets same cut => exact .inl ⟨same, .inr cut⟩
      | tables cut => exact .inr cut

end Table

namespace Database

variable {decl : DatabaseDecl} {db : Database} {resolve : ColumnResolver} {table : Table}

/-- A stored table is built from a declared one. -/
theorem Realises.build_of_mem (h : db.Realises resolve decl) (ht : table ∈ db.tables) :
    ∃ declared ∈ decl.tables, Table.build decl.name resolve declared = .ok table := by
  obtain ⟨key, schema, name, hs, ho⟩ := mem_tables.1 ht
  have hobject : .table table ∈ db.objects :=
    List.mem_flatMap.2 ⟨schema, OrderedMap.mem_values.2 ⟨key, OrderedMap.get?_eq_some.1 hs⟩,
      OrderedMap.mem_values.2 ⟨name, OrderedMap.get?_eq_some.1 ho⟩⟩
  obtain ⟨item, hi, ha⟩ := exists_left_of_forall₂ h.forall₂_objects hobject
  obtain ⟨declared, rfl, hb⟩ := Item.table_of_addition ha
  obtain ⟨owner, -, hm⟩ := List.mem_flatMap.1 hi
  have hdeclared : declared ∈ decl.tables.filter (·.schema = owner.name) := by
    simpa [DatabaseDecl.objectsIn] using hm
  exact ⟨declared, List.mem_of_mem_filter hdeclared, hb⟩

/-- Declared tables of one schema have different names. -/
theorem Realises.table_unique (h : db.Realises resolve decl) {first second : TableDecl}
    (hf : first ∈ decl.tables) (hs : second ∈ decl.tables) (hschema : first.schema = second.schema)
    (hname : first.name = second.name) : first = second := by
  obtain ⟨built, hfound, -⟩ := h.tables first hf
  obtain ⟨stored, hget, -⟩ := stored_of_table? hfound
  have hkey : first.schema ∈ db.schemas.keys := OrderedMap.mem_keys_iff_get?.2 ⟨stored, hget⟩
  rw [h.names] at hkey
  obtain ⟨owner, ho, howner⟩ := List.mem_map.1 hkey
  obtain ⟨held, -, hholds⟩ := h.schemas owner ho
  have hnodup : ((decl.objectsIn owner.name).map (·.name)).Nodup := hholds.names ▸ held.objects.nodup
  have hmem : ∀ table ∈ decl.tables, table.schema = first.schema →
      .table table ∈ decl.objectsIn owner.name := by
    intro table ht he
    simp [DatabaseDecl.objectsIn, ht, he, howner]
  exact Item.table.inj (List.inj_on_of_nodup_map hnodup (hmem first hf rfl)
    (hmem second hs hschema.symm) hname)

end Database

namespace Registry

variable {registry : Registry} {decl : DatabaseDecl} {db : Database} {first second : Table}

/-- Two foreign keys of a schema, at different places, have one constraint name exactly where their
names are glued to the same text: for a column and a group of one name, or where an underscore of a
table's name is read as the one behind it. -/
theorem same_constraint_name_iff (h : (registry.construct decl).1 = .ok ())
    (hdb : (registry.construct decl).2.database decl.name = .ok db) (hfirst : first ∈ db.tables)
    (hsecond : second ∈ db.tables) (hschema : first.schema = second.schema) :
    ∃ owner ∈ decl.tables, ∃ owner' ∈ decl.tables,
      owner.ref decl.name = first.ref ∧ owner'.ref decl.name = second.ref ∧
      first.foreignKeys = owner.foreignKeys decl.name ∧
      second.foreignKeys = owner'.foreignKeys decl.name ∧
      ∀ (i j : Nat) (key key' : ForeignKey), first.foreignKeys[i]? = some key →
        second.foreignKeys[j]? = some key' →
        ∃ declared declared', owner.keys[i]? = some declared ∧ owner'.keys[j]? = some declared' ∧
          (key.name = key'.name ↔ (first = second ∧ i = j) ∨
            declared.SharesName first.name second.name declared') := by
  obtain ⟨-, hrealises⟩ := constructed_of_database h hdb
  obtain ⟨owner, hd, hb⟩ := hrealises.build_of_mem hfirst
  obtain ⟨owner', hd', hb'⟩ := hrealises.build_of_mem hsecond
  have href := Table.ref_of_build hb
  have href' := Table.ref_of_build hb'
  have hplace : owner.schema = owner'.schema :=
    (congrArg TableRef.schema href).symm.trans (hschema.trans (congrArg TableRef.schema href'))
  refine ⟨owner, hd, owner', hd', href.symm, href'.symm, Table.foreignKeys_of_build hb,
    Table.foreignKeys_of_build hb', ?_⟩
  intro i j key key' hk hk'
  exact Table.name_eq_iff hb hb' (hrealises.table_unique hd hd' hplace) hk hk'

/-- Tables with columns that refer to items, to groups and to groups of items. -/
def itemGroups : DatabaseDecl :=
  let target (name : String) : TableDecl :=
    ⟨name, "dbo", .none, [.plain ⟨"Id", .int32, -1, -1, -1, false⟩], none, [], []⟩
  { DatabaseDecl.named "Shop" with
    schemas := [⟨"dbo", "dbo"⟩]
    tables := [target "Item", target "Group", target "Item_Group",
      ⟨"Order", "dbo", .none, [.foreignKey ⟨"Id", "dbo", "Item_Group", "Id", false⟩,
        .foreignKey ⟨"Group_Id", "dbo", "Item", "Id", false⟩,
        .grouped ⟨"ItemId", "Id", "Group_Id", "dbo", "Item", false⟩], none, [], []⟩,
      ⟨"Order_Item", "dbo", .none, [.foreignKey ⟨"Id", "dbo", "Group", "Id", false⟩], none, [], []⟩] }

theorem itemGroups_built : (empty.construct itemGroups).1 = .ok () ∧
    ∃ db, (empty.construct itemGroups).2.database itemGroups.name = .ok db ∧
      ∃ order line, order ∈ db.tables ∧ line ∈ db.tables ∧
        order.ref = ⟨"Shop", "dbo", "Order"⟩ ∧ line.ref = ⟨"Shop", "dbo", "Order_Item"⟩ ∧
        order.foreignKeys.map (·.name) = ["[FK_Order_Item_Group_Id]", "[FK_Order_Item_Group_Id]",
          "[FK_Order_Item_Group_Id]"] ∧
        line.foreignKeys.map (·.name) = ["[FK_Order_Item_Group_Id]"] := by
  refine ⟨by rfl, _, rfl, _, _, List.mem_of_getElem? (i := 3) rfl, List.mem_of_getElem? (i := 4) rfl,
    rfl, rfl, ?_, ?_⟩
  · rfl
  · rfl

/-- Foreign keys of one table, and of two tables of one schema, with one name. -/
theorem item_group_keys_share_name : (empty.construct itemGroups).1 = .ok () ∧
    ∃ db, (empty.construct itemGroups).2.database itemGroups.name = .ok db ∧
      (∃ table ∈ db.tables, ¬ (table.foreignKeys.map (·.name)).Nodup) ∧
      ∃ first ∈ db.tables, ∃ second ∈ db.tables, first.schema = second.schema ∧ first ≠ second ∧
        ∃ key ∈ first.foreignKeys, ∃ key' ∈ second.foreignKeys, key.name = key'.name := by
  obtain ⟨hok, db, hdb, order, line, ho, hl, href, href', hnames, hnames'⟩ := itemGroups_built
  have hdifferent : order ≠ line := by
    rintro rfl
    rw [href] at href'
    exact absurd href' (by decide)
  have hschema : order.schema = line.schema :=
    (congrArg TableRef.schema href).trans (congrArg TableRef.schema href').symm
  refine ⟨hok, db, hdb, ⟨order, ho, ?_⟩, order, ho, line, hl, hschema, hdifferent, ?_⟩
  · rw [hnames]
    decide
  · have hkey : "[FK_Order_Item_Group_Id]" ∈ order.foreignKeys.map (·.name) := by simp [hnames]
    have hkey' : "[FK_Order_Item_Group_Id]" ∈ line.foreignKeys.map (·.name) := by simp [hnames']
    obtain ⟨key, hk, hname⟩ := List.mem_map.1 hkey
    obtain ⟨key', hk', hname'⟩ := List.mem_map.1 hkey'
    exact ⟨key, hk, key', hk', hname.trans hname'.symm⟩

/-- The first foreign keys of the two tables share their name. -/
theorem order_item_group_shared : (empty.construct itemGroups).1 = .ok () ∧
    ∃ db, (empty.construct itemGroups).2.database itemGroups.name = .ok db ∧
      ∃ order ∈ db.tables, ∃ line ∈ db.tables, order.schema = line.schema ∧
        ∃ owner ∈ itemGroups.tables, ∃ owner' ∈ itemGroups.tables, ∃ declared declared',
          owner.keys[0]? = some declared ∧ owner'.keys[0]? = some declared' ∧
          declared.SharesName "Order" "Order_Item" declared' := by
  obtain ⟨hok, db, hdb, order, line, ho, hl, href, href', hnames, hnames'⟩ := itemGroups_built
  have hschema : order.schema = line.schema :=
    (congrArg TableRef.schema href).trans (congrArg TableRef.schema href').symm
  obtain ⟨owner, hd, owner', hd', -, -, -, -, hall⟩ :=
    same_constraint_name_iff hok hdb ho hl hschema
  have hfirst : (order.foreignKeys.map (·.name))[0]? = some "[FK_Order_Item_Group_Id]" := by
    rw [hnames]
    rfl
  have hfirst' : (line.foreignKeys.map (·.name))[0]? = some "[FK_Order_Item_Group_Id]" := by
    rw [hnames']
    rfl
  rw [List.getElem?_map] at hfirst hfirst'
  obtain ⟨key, hk, hname⟩ := Option.map_eq_some_iff.1 hfirst
  obtain ⟨key', hk', hname'⟩ := Option.map_eq_some_iff.1 hfirst'
  obtain ⟨declared, declared', hdeclared, hdeclared', hiff⟩ := hall 0 0 key key' hk hk'
  refine ⟨hok, db, hdb, order, ho, line, hl, hschema, owner, hd, owner', hd', declared, declared',
    hdeclared, hdeclared', ?_⟩
  have horder : order.name = "Order" := congrArg TableRef.table href
  have hline : line.name = "Order_Item" := congrArg TableRef.table href'
  rcases hiff.1 (hname.trans hname'.symm) with ⟨rfl, -⟩ | hshares
  · rw [horder] at hline
    exact absurd hline (by decide)
  · rwa [horder, hline] at hshares

end Registry

end DatabaseProject
