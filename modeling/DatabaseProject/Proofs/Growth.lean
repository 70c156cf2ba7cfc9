import DatabaseProject.Proofs.Registry

/-!
# The registry only grows

No call takes anything away: what was registered before stands unchanged, in its place, in front of
what is new. A filling that fails stops exactly at the first item that fails, and nothing of that
item stays behind.
-/

namespace DatabaseProject

open Outcome

/-- The old keys stand in front of the new ones, in order, and every old value has grown. -/
structure OrderedMap.ExtendedBy {κ α : Type} [DecidableEq κ] (Grows : α → α → Prop)
    (old new : OrderedMap κ α) : Prop where
  keys : old.keys <+: new.keys
  values : ∀ key value, old.get? key = some value →
    ∃ grown, new.get? key = some grown ∧ Grows value grown

/-- All old objects are there, unchanged and in front of the new ones. -/
structure Schema.ExtendedBy (old new : Schema) : Prop where
  settings : new = { old with objects := new.objects }
  objects : old.objects.entries <+: new.objects.entries

structure Database.ExtendedBy (old new : Database) : Prop where
  settings : new = { old with schemas := new.schemas }
  schemas : old.schemas.ExtendedBy Schema.ExtendedBy new.schemas

def Registry.ExtendedBy (old new : Registry) : Prop :=
  old.databases.ExtendedBy Database.ExtendedBy new.databases

namespace OrderedMap.ExtendedBy

variable {κ α : Type} [DecidableEq κ] {Grows : α → α → Prop} {m n o : OrderedMap κ α} {key : κ}
  {value : α}

theorem refl (h : ∀ value, Grows value value) (m : OrderedMap κ α) : m.ExtendedBy Grows m :=
  ⟨List.prefix_refl _, fun _ value hv => ⟨value, hv, h value⟩⟩

theorem trans (h : ∀ first second third, Grows first second → Grows second third →
    Grows first third) (hmn : m.ExtendedBy Grows n) (hno : n.ExtendedBy Grows o) :
    m.ExtendedBy Grows o := by
  refine ⟨hmn.keys.trans hno.keys, ?_⟩
  intro key value hv
  obtain ⟨grown, hg, hgrows⟩ := hmn.values key value hv
  obtain ⟨last, hl, hgrows'⟩ := hno.values key grown hg
  exact ⟨last, hl, h value grown last hgrows hgrows'⟩

/-- Overwriting a value by one that has grown from it, or entering a new one. -/
theorem put (h : ∀ value, Grows value value)
    (hgrown : ∀ old, m.get? key = some old → Grows old value) :
    m.ExtendedBy Grows (m.put key value) := by
  constructor
  · by_cases hk : key ∈ m.keys
    · have hkeys : m.keys = (m.put key value).keys := (OrderedMap.keys_put_of_mem hk).symm
      exact hkeys ▸ List.prefix_refl m.keys
    · rw [OrderedMap.keys_put_of_not_mem hk]
      exact List.prefix_append _ _
  · intro other old hold
    rw [OrderedMap.get?_put]
    by_cases hk : other = key
    · subst hk
      exact ⟨value, if_pos rfl, hgrown old hold⟩
    · exact ⟨old, by rw [if_neg hk, hold], h old⟩

end OrderedMap.ExtendedBy

theorem Schema.add_eq_ok {old new : Schema} {object : DatabaseObject} :
    old.add object = .ok new ↔ object.name ∉ old.objects.keys ∧ new = { old with
      objects := old.objects.put object.name object } := by
  unfold add
  cases hadd : old.objects.add? object.name object with
  | none => simp [OrderedMap.add?_eq_none.1 hadd]
  | some objects =>
    have hnew := (OrderedMap.add?_eq_some.1 hadd).1
    simp [hnew, OrderedMap.put_of_add? hadd, eq_comm]

namespace Schema.ExtendedBy

variable {old new last : Schema}

theorem refl (schema : Schema) : schema.ExtendedBy schema := ⟨rfl, List.prefix_refl _⟩

theorem trans (h : old.ExtendedBy new) (h' : new.ExtendedBy last) : old.ExtendedBy last := by
  refine ⟨?_, h.objects.trans h'.objects⟩
  rw [h'.settings, h.settings]

theorem table? (h : old.ExtendedBy new) {name : String} {table : Table}
    (ht : old.table? name = some table) : new.table? name = some table := by
  obtain ⟨object, ho, htable⟩ := Option.bind_eq_some_iff.1 ht
  have hm := h.objects.subset (OrderedMap.get?_eq_some.1 ho)
  exact Option.bind_eq_some_iff.2 ⟨object, OrderedMap.get?_eq_some.2 hm, htable⟩

theorem of_add {object : DatabaseObject} (h : old.add object = .ok new) : old.ExtendedBy new := by
  obtain ⟨hn, rfl⟩ := add_eq_ok.1 h
  refine ⟨rfl, ?_⟩
  rw [OrderedMap.entries_put_of_not_mem hn]
  exact List.prefix_append _ _

end Schema.ExtendedBy

namespace Database

variable {old new last : Database}

theorem addSchema_eq_ok {decl : SchemaDecl} : old.addSchema decl = .ok new ↔
    decl.name ∉ old.schemas.keys ∧ new = { old with
      schemas := old.schemas.put decl.name (Schema.ofDecl old.name decl) } := by
  unfold addSchema
  cases hadd : old.schemas.add? decl.name (Schema.ofDecl old.name decl) with
  | none => simp [OrderedMap.add?_eq_none.1 hadd]
  | some schemas =>
    have hnew := (OrderedMap.add?_eq_some.1 hadd).1
    simp [hnew, OrderedMap.put_of_add? hadd, eq_comm]

theorem addObject_eq_ok {object : DatabaseObject} : old.addObject object = .ok new ↔
    ∃ schema extended, old.schemas.get? object.schema = some schema ∧
      schema.add object = .ok extended ∧
      new = { old with schemas := old.schemas.put object.schema extended } := by
  unfold addObject
  cases hs : old.schemas.get? object.schema with
  | none => simp [throw, throwThe, MonadExceptOf.throw]
  | some schema =>
    have hmem := OrderedMap.mem_keys_iff_get?.2 ⟨schema, hs⟩
    simp only [bind_eq_ok, pure_eq_ok, Option.some.injEq, exists_and_left, exists_eq_left',
      OrderedMap.put_of_mem hmem]
    exact exists_congr fun extended => and_congr_right fun _ => eq_comm

namespace ExtendedBy

theorem refl (db : Database) : db.ExtendedBy db := ⟨rfl, .refl Schema.ExtendedBy.refl _⟩

theorem trans (h : old.ExtendedBy new) (h' : new.ExtendedBy last) : old.ExtendedBy last := by
  refine ⟨?_, h.schemas.trans (fun _ _ _ => Schema.ExtendedBy.trans) h'.schemas⟩
  rw [h'.settings, h.settings]

theorem column? (h : old.ExtendedBy new) {ref : ColumnRef} {column : Column}
    (hc : old.column? ref = some column) : new.column? ref = some column := by
  obtain ⟨table, ht, hcolumn⟩ := Option.bind_eq_some_iff.1 hc
  obtain ⟨schema, hs, htable⟩ := Option.bind_eq_some_iff.1 ht
  obtain ⟨grown, hg, hgrown⟩ := h.schemas.values _ schema hs
  have ht' : new.table? ref.table.schema ref.table.table = some table :=
    Option.bind_eq_some_iff.2 ⟨grown, hg, hgrown.table? htable⟩
  exact Option.bind_eq_some_iff.2 ⟨table, ht', hcolumn⟩

theorem of_add {addition : Addition} (h : old.add addition = .ok new) : old.ExtendedBy new := by
  cases addition with
  | schema decl =>
    obtain ⟨hn, rfl⟩ := addSchema_eq_ok.1 h
    refine ⟨rfl, .put Schema.ExtendedBy.refl ?_⟩
    intro schema hs
    exact absurd (OrderedMap.mem_keys_iff_get?.2 ⟨schema, hs⟩) hn
  | object object =>
    obtain ⟨schema, extended, hs, hadd, rfl⟩ := addObject_eq_ok.1 h
    refine ⟨rfl, .put Schema.ExtendedBy.refl ?_⟩
    intro found hf
    rw [hs] at hf
    cases hf
    exact .of_add hadd

end ExtendedBy

end Database

namespace Entry

variable {name : String} {old new : Database}

theorem addItem_some_eq_ok {item : Item} : addItem (some old) name item = .ok new ↔
    ∃ addition, item.addition name (resolve (some old)) = .ok addition ∧
      old.add addition = .ok new := by
  unfold addItem
  rw [bind_eq_ok]

theorem extended_addItems {items : List Item} (h : (addItems (some old) name items).2 = some new) :
    old.ExtendedBy new := by
  induction items generalizing old with
  | nil =>
    cases h
    exact .refl _
  | cons item rest ih =>
    unfold addItems at h
    split at h
    · cases h
      exact .refl _
    · rename_i db hdb
      obtain ⟨addition, -, hadd⟩ := addItem_some_eq_ok.1 hdb
      exact (Database.ExtendedBy.of_add hadd).trans (ih h)

theorem extended_call (call : Call) (h : (Entry.call (some old) call).2 = some new) :
    old.ExtendedBy new := by
  cases call with
  | register decl =>
    cases h
    exact .refl old
  | populate decl =>
    simp only [Entry.call, populate_some] at h
    exact extended_addItems h
  | construct decl =>
    cases h
    exact .refl old

end Entry

namespace Registry

variable {old new : Registry}

theorem extended_call (registry : Registry) (call : Call) :
    registry.ExtendedBy (registry.call call).2 := by
  rw [call_eq]
  cases hnew : (Entry.call (registry.entry call.name) call).2 with
  | none => exact .refl Database.ExtendedBy.refl _
  | some db =>
    refine .put Database.ExtendedBy.refl ?_
    intro before hb
    apply Entry.extended_call call
    have he : registry.entry call.name = some before := hb
    rw [← he, hnew]

theorem ExtendedBy.resolve (h : old.ExtendedBy new) {ref : ColumnRef} {column : Column}
    (hr : old.resolve ref = .ok column) : new.resolve ref = .ok column := by
  rw [resolve_eq] at hr ⊢
  obtain ⟨db, hdb, hc⟩ := Entry.resolve_eq_ok.1 hr
  obtain ⟨grown, hg, hgrown⟩ := h.values _ db hdb
  exact Entry.resolve_eq_ok.2 ⟨grown, hg, hgrown.column? hc⟩

variable {registry failed : Registry} {name : String} {items : List Item} {decl : DatabaseDecl}
  {e : GenerationError}

theorem addItems_error (h : registry.addItems name items = (.error e, failed)) :
    ∃ i, ∃ hi : i < items.length, registry.addItems name (items.take i) = (.ok (), failed) ∧
      failed.addItem name items[i] = .error e := by
  induction items generalizing registry with
  | nil => cases h
  | cons item rest ih =>
    unfold addItems at h
    split at h
    · rename_i fault hf
      cases h
      exact ⟨0, Nat.succ_pos _, rfl, hf⟩
    · rename_i extended hx
      obtain ⟨i, hi, hbefore, hat⟩ := ih h
      refine ⟨i + 1, Nat.succ_lt_succ hi, ?_, hat⟩
      rw [List.take_succ_cons, addItems, hx]
      exact hbefore

end Registry

/-- The declaration with its first items only. -/
def DatabaseDecl.takeItems (decl : DatabaseDecl) (n : Nat) : DatabaseDecl :=
  let schemas := decl.schemas.length
  let tables := schemas + decl.tables.length
  let views := tables + decl.views.length
  let functions := views + decl.functions.length
  { decl with
    schemas := decl.schemas.take n
    tables := decl.tables.take (n - schemas)
    views := decl.views.take (n - tables)
    functions := decl.functions.take (n - views)
    procedures := decl.procedures.take (n - functions) }

/-- The declaration without its first items. -/
def DatabaseDecl.dropItems (decl : DatabaseDecl) (n : Nat) : DatabaseDecl :=
  let schemas := decl.schemas.length
  let tables := schemas + decl.tables.length
  let views := tables + decl.views.length
  let functions := views + decl.functions.length
  { decl with
    schemas := decl.schemas.drop n
    tables := decl.tables.drop (n - schemas)
    views := decl.views.drop (n - tables)
    functions := decl.functions.drop (n - views)
    procedures := decl.procedures.drop (n - functions) }

theorem DatabaseDecl.items_takeItems (decl : DatabaseDecl) (n : Nat) :
    (decl.takeItems n).items = decl.items.take n := by
  simp [items, takeItems, List.take_append, Nat.sub_sub]

theorem DatabaseDecl.items_dropItems (decl : DatabaseDecl) (n : Nat) :
    (decl.dropItems n).items = decl.items.drop n := by
  simp [items, dropItems, List.drop_append, Nat.sub_sub]

namespace Registry

variable {registry failed : Registry} {decl : DatabaseDecl} {e : GenerationError}

theorem populate_registered (decl : DatabaseDecl) (h : decl.name ∈ registry.databases.keys) :
    registry.populate decl = registry.addItems decl.name decl.items := by
  obtain ⟨db, hdb⟩ := OrderedMap.mem_keys_iff_get?.1 h
  have he : registry.entry decl.name = some db := hdb
  rw [populate_eq, addItems_eq, he, Entry.populate_some]

theorem populate_error (h : decl.name ∈ registry.databases.keys)
    (hf : registry.populate decl = (.error e, failed)) :
    ∃ i < decl.items.length, registry.populate (decl.takeItems i) = (.ok (), failed) ∧
      failed.populate ((decl.dropItems i).takeItems 1) = (.error e, failed) := by
  rw [populate_registered decl h] at hf
  obtain ⟨i, hi, hbefore, hat⟩ := addItems_error hf
  have hpopulate : registry.populate (decl.takeItems i) = (.ok (), failed) := by
    rw [populate_registered (decl.takeItems i) h, decl.items_takeItems]
    exact hbefore
  have hregistered : decl.name ∈ failed.databases.keys := by
    have hx := extended_call registry (.populate (decl.takeItems i))
    simp only [call, hpopulate] at hx
    exact hx.keys.subset h
  have hitem : ((decl.dropItems i).takeItems 1).items = [decl.items[i]] := by
    rw [DatabaseDecl.items_takeItems, DatabaseDecl.items_dropItems, List.drop_eq_getElem_cons hi]
    rfl
  refine ⟨i, hi, hpopulate, ?_⟩
  rw [populate_registered ((decl.dropItems i).takeItems 1) hregistered, hitem]
  change failed.addItems decl.name [decl.items[i]] = _
  rw [addItems, hat]

theorem register_duplicate (h : decl.name ∈ registry.databases.keys) :
    registry.register decl = (.error (.duplicateDatabase decl.name), registry) := by
  unfold register
  rw [OrderedMap.add?_eq_none.2 h]

/-- Failure leaves exactly what came before it. A name that is taken changes nothing; a filling that
fails leaves what the items before the failing one make, and the error is that item's own; and
whatever the outcome of a call, all that was registered before is still there, in front. -/
theorem failure_keeps_what_came_before (registry : Registry) (decl : DatabaseDecl) :
    (decl.name ∈ registry.databases.keys →
      registry.register decl = (.error (.duplicateDatabase decl.name), registry) ∧
      registry.construct decl = (.error (.duplicateDatabase decl.name), registry)) ∧
    (decl.name ∈ registry.databases.keys → ∀ e failed,
      registry.populate decl = (.error e, failed) →
        ∃ i < decl.items.length, registry.populate (decl.takeItems i) = (.ok (), failed) ∧
          failed.populate ((decl.dropItems i).takeItems 1) = (.error e, failed)) ∧
    ∀ call : Call, registry.ExtendedBy (registry.call call).2 ∧
      ∀ key column, registry.resolve key = .ok column →
        (registry.call call).2.resolve key = .ok column := by
  refine ⟨?_, ?_, ?_⟩
  · intro h
    have hr := register_duplicate h
    refine ⟨hr, ?_⟩
    unfold construct
    rw [hr]
  · intro h e failed hf
    exact populate_error h hf
  · intro call
    have hx := extended_call registry call
    exact ⟨hx, fun key column hr => hx.resolve hr⟩

/-- A schema that is declared twice: the filling keeps the schemas in front of the second one. -/
theorem second_schema_fails :
    let decl := { DatabaseDecl.named "Shop" with schemas := [⟨"dbo", "dbo"⟩, ⟨"dbo", "audit"⟩] }
    let registry := (empty.register decl).2
    registry.construct decl = (.error (.duplicateDatabase "Shop"), registry) ∧
      ∃ i < decl.items.length,
        registry.populate (decl.takeItems i) = (.ok (), (registry.populate decl).2) ∧
        (registry.populate decl).2.populate ((decl.dropItems i).takeItems 1) =
          (.error (.duplicateSchema "Shop" "dbo"), (registry.populate decl).2) := by
  intro decl registry
  have hregistered : decl.name ∈ registry.databases.keys := by decide
  have hfails : registry.populate decl =
      (.error (.duplicateSchema "Shop" "dbo"), (registry.populate decl).2) := by rfl
  obtain ⟨htaken, hfailure, -⟩ := failure_keeps_what_came_before registry decl
  exact ⟨(htaken hregistered).2, hfailure hregistered _ _ hfails⟩

end Registry

end DatabaseProject
