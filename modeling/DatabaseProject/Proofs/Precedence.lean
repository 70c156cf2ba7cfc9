import DatabaseProject.Script
import DatabaseProject.Proofs.Acceptance

/-!
# The order of tables

Tables are built one after the other, and a column takes its type from a table built before. Beyond
this precedence the order of the table declarations decides nothing: two orders that keep it make
the same tables and the same scripts. The types travel along chains of references, so the tables of
the two results are compared one by one in the second order.
-/

namespace DatabaseProject

open Outcome

/-- Schema and name of the table that a declared column refers to. -/
def ColumnDecl.place? : ColumnDecl → Option (String × String)
  | .plain _ => none
  | .foreignKey decl => some (decl.schema, decl.table)
  | .grouped decl => some (decl.schema, decl.table)

/-- Every table that the declaration refers to is one of the earlier ones. -/
def TableDecl.Follows (earlier : List TableDecl) (decl : TableDecl) : Prop :=
  ∀ column ∈ decl.columns, ∀ place, column.place? = some place →
    ∃ target ∈ earlier, (target.schema, target.name) = place

/-- Two databases have the same scripts, in some order, or none of them has any. -/
def Database.ScriptedAlike (db other : Database) : Prop :=
  (∃ scripts others, db.scripts = .ok scripts ∧ other.scripts = .ok others ∧ scripts.Perm others) ∨
    ∃ fault otherFault, db.scripts = .error fault ∧ other.scripts = .error otherFault

theorem ColumnDecl.place_of_target? {database : String} {column : ColumnDecl} {target : ColumnRef}
    (h : column.target? database = some target) :
    column.place? = some (target.table.schema, target.table.table) := by
  cases column with
  | plain decl => cases h
  | foreignKey decl => cases h; rfl
  | grouped decl => cases h; rfl

namespace TableDecl

variable {earlier others : List TableDecl} {decl : TableDecl}

theorem Acceptable.follows (h : decl.Acceptable earlier) : decl.Follows earlier := by
  intro column hc place hp
  have ha := h.columns column hc
  cases column with
  | plain plain => cases hp
  | foreignKey key | grouped key =>
    cases hp
    obtain ⟨target, ht, hschema, hname, -⟩ := ha
    exact ⟨target, ht, by rw [hschema, hname]⟩

/-- Behind other tables a declaration is as acceptable as before, if these hold all that it refers
to: of one place there is one table only. -/
theorem Acceptable.reordered (h : decl.Acceptable earlier) (hf : decl.Follows others)
    (hunique : ∀ first ∈ earlier, ∀ second ∈ others, first.schema = second.schema →
      first.name = second.name → first = second) : decl.Acceptable others := by
  have hmoved : ∀ schema table column, (∃ target ∈ earlier, target.Offers schema table column) →
      (∃ target ∈ others, (target.schema, target.name) = (schema, table)) →
      ∃ target ∈ others, target.Offers schema table column := by
    rintro schema table column ⟨target, ht, hschema, hname, hoffer⟩ ⟨other, ho, hplace⟩
    obtain ⟨rfl, rfl⟩ := Prod.mk.inj hplace
    obtain rfl := hunique target ht other ho hschema hname
    exact ⟨target, ho, rfl, rfl, hoffer⟩
  refine ⟨h.names, ?_, h.groups, h.primaryKey, h.indexColumns, h.indexIncludes⟩
  intro column hc
  have ha := h.columns column hc
  have hfollows := hf column hc
  cases column with
  | plain plain => exact ha
  | foreignKey key | grouped key => exact hmoved _ _ _ ha (hfollows _ rfl)

end TableDecl

namespace DatabaseDecl

variable {decl : DatabaseDecl} {tables : List TableDecl}

theorem objectsIn_perm (hp : tables.Perm decl.tables) (schema : String) :
    ({ decl with tables }.objectsIn schema).Perm (decl.objectsIn schema) := by
  unfold objectsIn
  exact ((((hp.filter _).map _).append_right _).append_right _).append_right _

/-- Of one place an acceptable declaration has one table. -/
theorem Acceptable.table_unique (h : decl.Acceptable) {first second : TableDecl}
    (hf : first ∈ decl.tables) (hs : second ∈ decl.tables) (hschema : first.schema = second.schema)
    (hname : first.name = second.name) : first = second := by
  have hnodup := h.objects second.schema
  have hmem : ∀ table ∈ decl.tables, table.schema = second.schema →
      Item.table table ∈ decl.objectsIn second.schema := by
    intro table ht he
    simp [objectsIn, ht, he]
  have he := List.inj_on_of_nodup_map hnodup (hmem first hf hschema) (hmem second hs rfl) hname
  exact Item.table.inj he

/-- In another order the tables are accepted exactly when each follows those that it refers to. -/
theorem Acceptable.reordered_iff (h : decl.Acceptable) (hp : tables.Perm decl.tables) :
    { decl with tables }.Acceptable ↔ EachAfter TableDecl.Follows tables := by
  constructor
  · intro hr earlier table later he
    exact (hr.tables earlier table later he).follows
  · intro hf
    refine ⟨h.schemas, fun table ht => h.tablePlaces table (hp.mem_iff.1 ht), h.viewPlaces,
      h.functionPlaces, h.procedurePlaces, ?_, ?_⟩
    · intro schema
      exact ((objectsIn_perm hp schema).map _).nodup_iff.2 (h.objects schema)
    · intro earlier table later he
      have hmem : ∀ other ∈ earlier ++ table :: later, other ∈ decl.tables := by
        intro other ho
        rw [← he] at ho
        exact hp.mem_iff.1 ho
      obtain ⟨before, after, hsplit⟩ := List.append_of_mem (hmem table (by simp))
      refine (h.tables before table after hsplit).reordered (hf earlier table later he) ?_
      intro first hfirst second hsecond
      exact h.table_unique (by rw [hsplit]; simp [hfirst]) (hmem second (by simp [hsecond]))

end DatabaseDecl

namespace Database.Filled

variable {name : String} {items others : List Item} {db other : Database}

theorem resolve_congr {ref : ColumnRef}
    (h : db.table? ref.table.schema ref.table.table = other.table? ref.table.schema ref.table.table) :
    Entry.resolve (some db) ref = Entry.resolve (some other) ref := by
  simp only [Entry.resolve, Option.bind_some, Database.column?, h]

/-- Tables that are built alike are found alike. -/
theorem table?_congr (h : db.Filled name items) (ho : other.Filled name others)
    (hmem : ∀ table, .table table ∈ others ↔ .table table ∈ items)
    (hbuild : ∀ table, .table table ∈ others → Table.build name (Entry.resolve (some db)) table =
      Table.build name (Entry.resolve (some other)) table) (schema table : String) :
    db.table? schema table = other.table? schema table := by
  apply Option.ext
  intro built
  rw [h.table?_eq_some, ho.table?_eq_some]
  refine exists_congr fun decl => ?_
  rw [← hmem]
  refine and_congr_right fun hm => ?_
  rw [hbuild decl hm]

/-- Where tables follow those that they refer to, they are built alike in both databases. -/
theorem build_alike (h : db.Filled name items) (ho : other.Filled name others)
    (hmem : ∀ table, .table table ∈ others ↔ .table table ∈ items)
    (hf : EachAfter TableDecl.Follows (others.filterMap Item.tableDecl?)) :
    ∀ table, .table table ∈ others → Table.build name (Entry.resolve (some db)) table =
      Table.build name (Entry.resolve (some other)) table := by
  -- By the tables of the second order: what a table refers to has been compared before it.
  have hprefix : ∀ done rest, others.filterMap Item.tableDecl? = done ++ rest → ∀ table ∈ done,
      Table.build name (Entry.resolve (some db)) table =
        Table.build name (Entry.resolve (some other)) table := by
    intro done
    induction done using List.reverseRecOn with
    | nil => simp
    | append_singleton done table ih =>
      intro rest he
      rw [List.append_assoc, List.singleton_append] at he
      have hdone := ih (table :: rest) he
      intro next hn
      rcases List.mem_append.1 hn with hn | hn
      · exact hdone next hn
      · obtain rfl := List.mem_singleton.1 hn
        apply Table.build_congr_targets
        intro column hc target ht
        obtain ⟨declared, hd, hplace⟩ :=
          hf done next rest he column hc _ (ColumnDecl.place_of_target? ht)
        obtain ⟨hschema, hname⟩ := Prod.mk.inj hplace
        have hdeclared : .table declared ∈ others := by
          rw [← Item.mem_tableDecls, he]
          exact List.mem_append_left _ hd
        obtain ⟨built, hb⟩ := h.table_of_mem ((hmem declared).1 hdeclared)
        have hfound := h.table?_eq_some.2 ⟨declared, (hmem declared).1 hdeclared, hschema, hname, hb⟩
        rw [hdone declared hd] at hb
        have hfound' := ho.table?_eq_some.2 ⟨declared, hdeclared, hschema, hname, hb⟩
        exact resolve_congr (hfound.trans hfound'.symm)
  intro table ht
  exact hprefix _ [] (by simp) table (Item.mem_tableDecls.2 ht)

/-- Where all items are built alike, a schema of both databases holds the same objects. -/
theorem schema_alike (h : db.Filled name items) (ho : other.Filled name others)
    (decl : SchemaDecl) (hd : .schema decl ∈ items) (hd' : .schema decl ∈ others)
    (hp : (Item.inSchema decl.name others).Perm (Item.inSchema decl.name items))
    (hbuild : ∀ item ∈ others, item.addition name (Entry.resolve (some db)) =
      item.addition name (Entry.resolve (some other))) :
    ∃ stored found, db.schemas.get? decl.name = some stored ∧
      other.schemas.get? decl.name = some found ∧ stored.scriptFile = found.scriptFile ∧
      stored.objects.values.Perm found.objects.values := by
  obtain ⟨stored, hs, hholds⟩ := h.schemas decl hd
  obtain ⟨found, hs', hholds'⟩ := ho.schemas decl hd'
  refine ⟨stored, found, hs, hs', ?_, ?_⟩
  · rw [hholds.settings, hholds'.settings]
    rfl
  · have hinjective : Function.Injective fun object : DatabaseObject =>
        (.ok (.object object) : Except GenerationError Addition) := by
      intro first second he
      cases he
      rfl
    rw [← List.map_perm_map_iff hinjective, hholds.objects, hholds'.objects]
    have hcongr : (Item.inSchema decl.name others).map
        (·.addition name (Entry.resolve (some other))) =
        (Item.inSchema decl.name others).map (·.addition name (Entry.resolve (some db))) := by
      apply List.map_congr_left
      intro item hi
      exact (hbuild item (Item.mem_inSchema.1 hi).1).symm
    rw [hcongr]
    exact (hp.map _).symm

/-- Databases filled with the same schemas and the same tables, views, functions and procedures
have the same scripts. -/
theorem scripted_alike {decl : DatabaseDecl} {tables : List TableDecl}
    (h : db.Filled decl.name decl.items) (ho : other.Filled decl.name { decl with tables }.items)
    (hp : tables.Perm decl.tables)
    (hbuild : ∀ table, .table table ∈ { decl with tables }.items →
      Table.build decl.name (Entry.resolve (some db)) table =
        Table.build decl.name (Entry.resolve (some other)) table) : db.ScriptedAlike other := by
  have haddition : ∀ item ∈ { decl with tables }.items,
      item.addition decl.name (Entry.resolve (some db)) =
        item.addition decl.name (Entry.resolve (some other)) := by
    intro item hi
    cases item with
    | table table => simp only [Item.addition, hbuild table hi]
    | schema | view | function | procedure => rfl
  have hschemas : List.Forall₂ (fun stored found => stored.scriptFile = found.scriptFile ∧
      stored.objects.values.Perm found.objects.values) db.schemas.values other.schemas.values := by
    apply OrderedMap.forall₂_values
    · rw [h.names, ho.names, DatabaseDecl.schemaDecls_items, DatabaseDecl.schemaDecls_items]
    · intro key hk
      rw [h.names, DatabaseDecl.schemaDecls_items] at hk
      obtain ⟨schema, hs, rfl⟩ := List.mem_map.1 hk
      apply h.schema_alike ho schema _ _ _ haddition
      · simp [DatabaseDecl.items, hs]
      · simp [DatabaseDecl.items, hs]
      · rw [DatabaseDecl.inSchema_items, DatabaseDecl.inSchema_items]
        exact DatabaseDecl.objectsIn_perm hp schema.name
  have hfiles : db.schemas.values.map Schema.scriptFile = other.schemas.values.map Schema.scriptFile := by
    rw [← List.forall₂_eq_eq_eq, List.forall₂_map_left_iff, List.forall₂_map_right_iff]
    exact hschemas.imp fun _ _ hs => hs.1
  have hobjects : db.objects.Perm other.objects := by
    apply List.Perm.flatten_congr
    rw [List.forall₂_map_left_iff, List.forall₂_map_right_iff]
    exact hschemas.imp fun _ _ hs => hs.2
  unfold ScriptedAlike scripts
  cases hs : db.objects.mapM DatabaseObject.scriptFile with
  | ok scripts =>
    obtain ⟨others, hothers, hperm⟩ := mapM_perm hobjects hs
    rw [hothers, hfiles]
    exact .inl ⟨_, _, rfl, rfl, hperm.append_left _⟩
  | error fault =>
    cases hs' : other.objects.mapM DatabaseObject.scriptFile with
    | error otherFault => exact .inr ⟨fault, otherFault, rfl, rfl⟩
    | ok others =>
      obtain ⟨scripts, hscripts, -⟩ := mapM_perm hobjects.symm hs'
      rw [hs] at hscripts
      cases hscripts

end Database.Filled

namespace Registry

variable {registry : Registry}

theorem construct_isOk_iff (decl : DatabaseDecl) (h : decl.name ∉ registry.databases.keys) :
    (registry.construct decl).1 = .ok () ↔ decl.Acceptable := by
  rw [construct_fresh h, DatabaseDecl.acceptable_iff]
  exact (Database.filled_ofDecl decl).addItems_isOk

theorem filled_of_construct (decl : DatabaseDecl) (h : decl.name ∉ registry.databases.keys)
    (hok : (registry.construct decl).1 = .ok ()) : ∃ db,
      (registry.construct decl).2.database decl.name = .ok db ∧ db.Filled decl.name decl.items := by
  rw [construct_fresh h] at hok ⊢
  obtain ⟨db, hdb⟩ := Entry.addItems_some (.ofDecl decl) decl.name decl.items
  refine ⟨db, ?_, (Database.filled_ofDecl decl).addItems (Prod.ext hok hdb)⟩
  rw [database_eq, hdb, entry_withEntry, if_pos rfl, Option.some_or]

/-- The order of the table declarations matters only through precedence: a permutation of tables that
are accepted is accepted exactly when each table follows those that its columns refer to, and then
all tables come out the same, and the scripts. -/
theorem table_order_matters_through_precedence (registry other : Registry) (decl : DatabaseDecl)
    (tables : List TableDecl) (hp : tables.Perm decl.tables)
    (h : decl.name ∉ registry.databases.keys) (ho : decl.name ∉ other.databases.keys)
    (hok : (registry.construct decl).1 = .ok ()) :
    ((other.construct { decl with tables }).1 = .ok () ↔ EachAfter TableDecl.Follows tables) ∧
    ((other.construct { decl with tables }).1 = .ok () → ∃ db reordered,
      (registry.construct decl).2.database decl.name = .ok db ∧
      (other.construct { decl with tables }).2.database decl.name = .ok reordered ∧
      (∀ schema table, db.table? schema table = reordered.table? schema table) ∧
      db.ScriptedAlike reordered) := by
  have hiff : (other.construct { decl with tables }).1 = .ok () ↔
      EachAfter TableDecl.Follows tables := by
    rw [construct_isOk_iff { decl with tables } ho]
    exact ((construct_isOk_iff decl h).1 hok).reordered_iff hp
  refine ⟨hiff, ?_⟩
  intro hok'
  obtain ⟨db, hdb, hfilled⟩ := filled_of_construct decl h hok
  obtain ⟨reordered, hreordered, hfilled'⟩ := filled_of_construct { decl with tables } ho hok'
  have hmem : ∀ table, .table table ∈ { decl with tables }.items ↔ .table table ∈ decl.items := by
    intro table
    simp [DatabaseDecl.items, hp.mem_iff]
  have hfollows := hiff.1 hok'
  have hbuild := hfilled.build_alike hfilled' hmem (by rwa [DatabaseDecl.tableDecls_items])
  exact ⟨db, reordered, hdb, hreordered, hfilled.table?_congr hfilled' hmem hbuild,
    hfilled.scripted_alike hfilled' hp hbuild⟩

/-- Orders that refer to customers, written with their customers behind other tables. -/
theorem orders_after_other_tables :
    let id : ColumnDecl := .plain ⟨"Id", .int32, -1, -1, -1, false⟩
    let table (name : String) (columns : List ColumnDecl) : TableDecl :=
      ⟨name, "dbo", .none, columns, none, [], []⟩
    let customer := table "Customer" [id]
    let order := table "Order" [id, .foreignKey ⟨"CustomerId", "dbo", "Customer", "Id", false⟩]
    let item := table "Item" [id]
    let decl := { DatabaseDecl.named "Shop" with
      schemas := [⟨"dbo", "dbo"⟩], tables := [customer, order, item] }
    let reordered := { decl with tables := [item, customer, order] }
    reordered.tables.Perm decl.tables ∧ (empty.construct decl).1 = .ok () ∧
      EachAfter TableDecl.Follows reordered.tables ∧ ∃ db other,
        (empty.construct decl).2.database decl.name = .ok db ∧
        (empty.construct reordered).2.database decl.name = .ok other ∧
        (∀ schema table, db.table? schema table = other.table? schema table) ∧
        db.ScriptedAlike other := by
  intro id table customer order item decl reordered
  have hp : reordered.tables.Perm decl.tables := by decide
  have hok : (empty.construct decl).1 = .ok () := by rfl
  have hok' : (empty.construct reordered).1 = .ok () := by rfl
  obtain ⟨hiff, halike⟩ :=
    table_order_matters_through_precedence empty empty decl reordered.tables hp (by decide) (by decide) hok
  exact ⟨hp, hok, hiff.1 hok', halike hok'⟩

end Registry

end DatabaseProject
