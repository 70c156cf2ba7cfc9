import DatabaseProject.Proofs.Table

/-!
# The first fault of a table

Everything that can be wrong with the declaration of a table is listed from the declaration alone:
column by column its own type, the group that it joins and its name, then the columns of the primary
key and of the indexes that are missing. `Reports` says of a computation that it ends with the first
of its faults; put together along the building of a table it shows that the table is built when the
list is empty, and that the first fault of the list is the error otherwise.
-/

namespace DatabaseProject

namespace Outcome

variable {ε α β : Type} {faults more : List ε}

/-- A computation ends with the first of its faults, and has a result when there is none. -/
def Reports (faults : List ε) (x : Except ε α) : Prop :=
  match faults with
  | [] => ∃ a, x = .ok a
  | e :: _ => x = .error e

namespace Reports

variable {x : Except ε α}

theorem of_ok (a : α) : Reports [] (.ok a : Except ε α) := ⟨a, rfl⟩

/-- What is done next has faults of its own, once there is a result to go on with. -/
theorem bind {f : α → Except ε β} (hx : Reports faults x)
    (hf : ∀ a, x = .ok a → Reports more (f a)) : Reports (faults ++ more) (x >>= f) := by
  cases faults with
  | nil =>
    obtain ⟨a, rfl⟩ := hx
    exact hf a rfl
  | cons e rest =>
    change x = .error e at hx
    subst hx
    rfl

theorem map {f : α → β} (hx : Reports faults x) : Reports faults (x >>= fun a => pure (f a)) := by
  have h := hx.bind fun a _ => of_ok (f a)
  rwa [List.append_nil] at h

theorem forM {f : α → Except ε Unit} {own : α → List ε} {xs : List α}
    (h : ∀ a ∈ xs, Reports (own a) (f a)) : Reports (xs.flatMap own) (xs.forM f) := by
  induction xs with
  | nil => exact of_ok ()
  | cons a xs ih =>
    rw [List.forall_mem_cons] at h
    rw [List.flatMap_cons]
    exact h.1.bind fun _ _ => ih h.2

theorem isOk_iff (h : Reports faults x) : (∃ a, x = .ok a) ↔ faults = [] := by
  cases faults with
  | nil => exact iff_of_true h rfl
  | cons e rest =>
    change x = .error e at h
    simp [h]

theorem error_iff (h : Reports faults x) {e : ε} : x = .error e ↔ faults.head? = some e := by
  cases faults with
  | nil =>
    obtain ⟨a, rfl⟩ := h
    simp
  | cons first rest =>
    change x = .error first at h
    simp [h]

end Reports

end Outcome

open Outcome

/-- The error of a computation that fails. -/
def ownFault {α : Type} : Except GenerationError α → List GenerationError
  | .ok _ => []
  | .error e => [e]

namespace ColumnDecl

/-- A column by itself: a plain one needs a type that the server has, another one must find the
column that it refers to. -/
def typeFaults (table : TableRef) (resolve : ColumnResolver) : ColumnDecl → List GenerationError
  | .plain decl =>
    if (decl.type.sqlType? decl.length decl.precision decl.scale).isSome then []
    else [.unsupportedType decl.type (table.column decl.name)]
  | .foreignKey decl => ownFault (resolve ⟨⟨table.database, decl.schema, decl.table⟩, decl.column⟩)
  | .grouped decl => ownFault (resolve ⟨⟨table.database, decl.schema, decl.table⟩, decl.column⟩)

/-- A member of a group refers to the same table as the first member before it. -/
def groupFaults (table : TableRef) (before : List ColumnDecl) : ColumnDecl → List GenerationError
  | .plain _ | .foreignKey _ => []
  | .grouped decl =>
    match before.findSome? (·.bind? table.database decl.group) with
    | none => []
    | some bound =>
      if bound = ⟨table.database, decl.schema, decl.table⟩ then []
      else [.invalidDefinition
        (.mixedGroup table bound ⟨table.database, decl.schema, decl.table⟩ decl.group)]

/-- No column before has the name. -/
def nameFaults (table : TableRef) (before : List ColumnDecl) (decl : ColumnDecl) :
    List GenerationError :=
  if decl.name ∈ before.map (·.name) then [.duplicateColumn (table.column decl.name)] else []

/-- What is wrong with a column behind others. -/
def faults (table : TableRef) (resolve : ColumnResolver) (before : List ColumnDecl)
    (decl : ColumnDecl) : List GenerationError :=
  decl.typeFaults table resolve ++ decl.groupFaults table before ++ decl.nameFaults table before

end ColumnDecl

/-- What is wrong with the columns of a table, each behind those declared before it. -/
def columnFaults (table : TableRef) (resolve : ColumnResolver) (columns : List ColumnDecl) :
    List GenerationError :=
  columns.zipIdx.flatMap fun (column, position) =>
    column.faults table resolve (columns.take position)

/-- The names that no declared column has. -/
def missingFaults (table : TableRef) (columns : List ColumnDecl) (names : List String) :
    List GenerationError :=
  (names.filter (· ∉ columns.map (·.name))).map fun name => .unknownColumn (table.column name)

namespace TableDecl

/-- All that is wrong with the declaration of a table, in the order of the rules. -/
def faults (database : String) (resolve : ColumnResolver) (decl : TableDecl) : List GenerationError :=
  let missing := missingFaults (decl.ref database) decl.columns
  columnFaults (decl.ref database) resolve decl.columns
    ++ decl.primaryKey.toList.flatMap (fun key => missing key.columns)
    ++ decl.indexes.flatMap fun index => missing (index.columns.map (·.name)) ++ missing index.includes

/-- The primary key as a table keeps it: the table's compression takes the place of the declared one
when the key is clustered. -/
def keptKey (decl : TableDecl) (key : PrimaryKeyDecl) : PrimaryKey :=
  ⟨key.name, key.clustered,
    if key.clustered = true ∧ decl.compression ≠ .none then .none else key.compression, key.columns⟩

end TableDecl

theorem reports_ownFault {α : Type} (x : Except GenerationError α) : Reports (ownFault x) x := by
  cases x with
  | ok a => exact .of_ok a
  | error e => rfl

section

variable {table : TableRef} {resolve : ColumnResolver} {columns before : List ColumnDecl}
  {decl : ColumnDecl} {draft : TableDraft}

theorem columnFaults_concat : columnFaults table resolve (columns ++ [decl]) =
    columnFaults table resolve columns ++ decl.faults table resolve columns := by
  unfold columnFaults
  rw [List.zipIdx_append, List.flatMap_append]
  congr 1
  · apply List.flatMap_congr
    rintro ⟨column, position⟩ hm
    have hlt := List.snd_lt_of_mem_zipIdx hm
    dsimp only
    rw [List.take_append_of_le_length (by omega)]
  · simp

theorem reports_column : Reports (decl.typeFaults table resolve) (decl.column table resolve) := by
  cases decl with
  | plain decl =>
    simp only [ColumnDecl.typeFaults, ColumnDecl.column, Column.ofDecl]
    cases decl.type.sqlType? decl.length decl.precision decl.scale with
    | none => rfl
    | some dataType => exact .of_ok _
  | foreignKey decl => exact (reports_ownFault _).map
  | grouped decl => exact (reports_ownFault _).map

/-- A draft knows of a group what the columns before have bound it to. -/
theorem reports_joinKeys (hh : TableDraft.Holds table resolve before draft) :
    Reports (decl.groupFaults table before) (decl.joinKeys table draft.foreignKeys) := by
  cases decl with
  | plain decl => exact .of_ok _
  | foreignKey decl => exact .of_ok _
  | grouped decl =>
    have hbound := hh.bound decl.group
    unfold TableDraft.bound? at hbound
    simp only [ColumnDecl.groupFaults, ColumnDecl.joinKeys, TableDraft.joinGroup, ← hbound]
    cases draft.foreignKeys.find? fun key => key.group = some decl.group with
    | none => exact .of_ok _
    | some key =>
      dsimp only [Option.map_some]
      by_cases h : key.key.referencedTable = ⟨table.database, decl.schema, decl.table⟩
      · rw [if_pos h, if_pos h]
        exact .of_ok _
      · rw [if_neg h, if_neg h]
        rfl

/-- One more column: its type comes first, then its group, then its name. -/
theorem reports_addColumn (hh : TableDraft.Holds table resolve before draft) :
    Reports (decl.faults table resolve before) (TableDraft.addColumn table resolve draft decl) := by
  unfold TableDraft.addColumn ColumnDecl.faults
  rw [TableDraft.build_eq, bind_assoc, List.append_assoc]
  refine reports_column.bind fun column hc => ?_
  rw [bind_assoc]
  refine (reports_joinKeys hh).bind fun keys _ => ?_
  have hkeys : decl.name ∈ draft.columns.keys ↔ decl.name ∈ before.map (·.name) := by rw [hh.keys]
  simp only [pure_bind, ColumnDecl.nameFaults, ColumnDecl.name_of_column hc]
  cases hadd : draft.columns.add? decl.name column with
  | none =>
    rw [if_pos (hkeys.1 (OrderedMap.add?_eq_none.1 hadd))]
    rfl
  | some columns =>
    rw [if_neg fun hm => (OrderedMap.add?_eq_some.1 hadd).1 (hkeys.2 hm)]
    exact .of_ok _

theorem reports_columns : Reports (columnFaults table resolve columns)
    (columns.foldlM (TableDraft.addColumn table resolve) .empty) := by
  induction columns using List.reverseRecOn with
  | nil => exact .of_ok _
  | append_singleton columns column ih =>
    rw [columnFaults_concat, List.foldlM_append]
    refine ih.bind fun draft hd => ?_
    exact (reports_addColumn (TableDraft.holds_of_columns hd)).map

theorem reports_checkColumns (hh : TableDraft.Holds table resolve before draft) (names : List String) :
    Reports (missingFaults table before names) (draft.checkColumns table names) := by
  have hmissing : (fun name => !draft.columns.contains name) =
      fun name => decide (name ∉ before.map (·.name)) := by
    funext name
    rw [OrderedMap.contains, hh.keys, decide_not]
  unfold TableDraft.checkColumns missingFaults
  rw [hmissing, ← List.head?_filter]
  cases names.filter fun name => decide (name ∉ before.map (·.name)) with
  | nil => exact .of_ok _
  | cons name rest => rfl

theorem missingFaults_append (names others : List String) : missingFaults table columns (names ++ others) =
    missingFaults table columns names ++ missingFaults table columns others := by
  unfold missingFaults
  rw [List.filter_append, List.map_append]

end

namespace Table

variable {database : String} {resolve : ColumnResolver} {decl : TableDecl} {table : Table}

theorem reports_build (database : String) (resolve : ColumnResolver) (decl : TableDecl) :
    Reports (decl.faults database resolve) (build database resolve decl) := by
  unfold build TableDecl.faults
  rw [List.append_assoc]
  refine reports_columns.bind fun draft hd => ?_
  have hh := TableDraft.holds_of_columns hd
  refine Reports.bind ?_ fun key _ => Reports.map (.forM fun index _ => ?_)
  · cases decl.primaryKey with
    | none => exact .of_ok _
    | some key =>
      rw [Option.toList_some, List.flatMap_singleton]
      exact (reports_checkColumns hh key.columns).map.map
  · rw [← missingFaults_append]
    exact reports_checkColumns hh _

theorem key_eq_keptKey (key : PrimaryKeyDecl) : (⟨key.name, key.clustered,
    TableDraft.keyCompression decl.compression key, key.columns⟩ : PrimaryKey) = decl.keptKey key := by
  unfold TableDraft.keyCompression TableDecl.keptKey
  cases key.clustered <;> simp

/-- Columns, indexes and triggers stay in the order of their declaration. -/
theorem kept_of_build (h : build database resolve decl = .ok table) :
    List.Forall₂ (fun declared entry => entry.1 = declared.name ∧
      declared.column (decl.ref database) resolve = .ok entry.2) decl.columns table.columns.entries ∧
    table.primaryKey = decl.primaryKey.map decl.keptKey ∧ table.indexes = decl.indexes ∧
    table.triggers = decl.triggers := by
  obtain ⟨draft, hd, -, -, rfl⟩ := build_eq_ok.1 h
  refine ⟨?_, congrArg (decl.primaryKey.map ·) (funext key_eq_keptKey), rfl, rfl⟩
  refine foldlM_induction (motive := fun done state =>
    List.Forall₂ (fun declared entry => entry.1 = declared.name ∧
      declared.column (decl.ref database) resolve = .ok entry.2) done state.columns.entries) .nil ?_ hd
  intro done state column state' hm hstep
  obtain ⟨built, hbuilt, -, -, he⟩ := TableDraft.addColumn_eq_ok.1 hstep
  rw [he]
  exact List.rel_append hm (.cons ⟨rfl, hbuilt⟩ .nil)

/-- A table is built exactly when its declaration has no fault, and the first fault in the order of
the rules is the error otherwise. A built table keeps its columns, its indexes and its triggers as
they are declared, and leaves the compression of a clustered primary key to the table. -/
theorem build_ends_at_first_fault (database : String) (resolve : ColumnResolver) (decl : TableDecl) :
    ((∃ table, build database resolve decl = .ok table) ↔ decl.faults database resolve = []) ∧
    (∀ e, build database resolve decl = .error e ↔
      (decl.faults database resolve).head? = some e) ∧
    ∀ table, build database resolve decl = .ok table →
      List.Forall₂ (fun declared entry => entry.1 = declared.name ∧
        declared.column (decl.ref database) resolve = .ok entry.2) decl.columns table.columns.entries ∧
      table.primaryKey = decl.primaryKey.map decl.keptKey ∧ table.indexes = decl.indexes ∧
      table.triggers = decl.triggers := by
  have h := reports_build database resolve decl
  exact ⟨h.isOk_iff, fun e => h.error_iff, fun table hb => kept_of_build hb⟩

/-- A table with a fault of every rule. -/
def faultyOrders : TableDecl :=
  ⟨"Order", "sales", .page, [.plain ⟨"Id", .int32, 0, -1, -1, false⟩,
    .grouped ⟨"Country", "Country", "Region", "geo", "Region", false⟩,
    .grouped ⟨"Id", "Code", "Region", "geo", "Area", false⟩,
    .plain ⟨"Id", .xml, 0, -1, -1, false⟩, .foreignKey ⟨"Buyer", "sales", "Customer", "Lost", false⟩],
    some ⟨"PK_Order", true, .row, ["Id", "OrderId"]⟩,
    [⟨"IX_Order", false, false, .none, [⟨"Key", .asc⟩, ⟨"Id", .desc⟩], ["Buyer", "Note"]⟩], []⟩

/-- All of them are found, and the group that changes its table comes first. -/
theorem faulty_orders_end_at_group :
    let resolve : ColumnResolver := fun ref =>
      if ref.column = "Lost" then .error (.unknownColumn ref)
      else .ok ⟨ref.column, "int", false, 0, -1, -1, none⟩
    let order : TableRef := ⟨"Shop", "sales", "Order"⟩
    let mixed : GenerationError := .invalidDefinition
      (.mixedGroup order ⟨"Shop", "geo", "Region"⟩ ⟨"Shop", "geo", "Area"⟩ "Region")
    faultyOrders.faults "Shop" resolve = [mixed, .duplicateColumn (order.column "Id"),
        .unsupportedType .xml (order.column "Id"), .duplicateColumn (order.column "Id"),
        .unknownColumn ⟨⟨"Shop", "sales", "Customer"⟩, "Lost"⟩,
        .unknownColumn (order.column "OrderId"), .unknownColumn (order.column "Key"),
        .unknownColumn (order.column "Note")] ∧
      build "Shop" resolve faultyOrders = .error mixed := by
  intro resolve order mixed
  have hfaults : faultyOrders.faults "Shop" resolve = [mixed, .duplicateColumn (order.column "Id"),
      .unsupportedType .xml (order.column "Id"), .duplicateColumn (order.column "Id"),
      .unknownColumn ⟨⟨"Shop", "sales", "Customer"⟩, "Lost"⟩,
      .unknownColumn (order.column "OrderId"), .unknownColumn (order.column "Key"),
      .unknownColumn (order.column "Note")] := by
    rfl
  obtain ⟨-, herror, -⟩ := build_ends_at_first_fault "Shop" resolve faultyOrders
  refine ⟨hfaults, (herror mixed).2 ?_⟩
  rw [hfaults]
  rfl

end Table

end DatabaseProject
