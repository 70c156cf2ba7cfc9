import DatabaseProject.Proofs.Registry
import Mathlib.Data.List.Perm.Basic

/-!
# Databases of one run do not interfere

A call reads and changes one entry only. Hence databases of distinct names can be constructed in
any order, and each comes out as it does alone.
-/

namespace DatabaseProject.Registry

variable {registry : Registry} {name : String} {decls : List DatabaseDecl} {decl : DatabaseDecl}

/-- A call leaves the entries under other names alone, and their order. -/
theorem others_call (registry : Registry) (call : Call) :
    (registry.call call).2.databases.entries.filter (fun entry => entry.1 ≠ call.name) =
      registry.databases.entries.filter fun entry => entry.1 ≠ call.name := by
  rw [call_eq]
  cases (Entry.call (registry.entry call.name) call).2 with
  | none => rfl
  | some db => exact OrderedMap.filter_entries_put

theorem entry_construct (registry : Registry) (decl : DatabaseDecl) (other : String) :
    (registry.construct decl).2.entry other =
      if other = decl.name then ((registry.entry decl.name).construct decl).2
      else registry.entry other :=
  entry_call registry (.construct decl) other

theorem construct_outcome : (registry.construct decl).1 =
    ((registry.entry decl.name).construct decl).1 := by rw [construct_eq]

theorem constructAll_cons_ok {outcome : Except GenerationError Unit × Registry}
    (h : registry.constructAll (decl :: decls) = outcome) (hok : outcome.1 = .ok ()) :
    (registry.construct decl).1 = .ok () ∧
      (registry.construct decl).2.constructAll decls = outcome := by
  unfold constructAll at h
  split at h
  · subst h
    cases hok
  · rename_i constructed hc
    rw [hc]
    exact ⟨rfl, h⟩

theorem constructAll_cons_of_ok (h : (registry.construct decl).1 = .ok ()) :
    registry.constructAll (decl :: decls) = (registry.construct decl).2.constructAll decls := by
  rw [constructAll]
  split
  · rename_i hc
    rw [hc] at h
    cases h
  · rename_i hc
    rw [hc]

/-- A database can be constructed where nothing stands under its name, if it can be at all. -/
theorem construct_isOk : (registry.construct decl).1 = .ok () ↔
    registry.entry decl.name = none ∧ (Entry.construct none decl).1 = .ok () := by
  rw [construct_outcome]
  cases registry.entry decl.name with
  | none => simp
  | some db => simp [Entry.construct, Entry.register]

theorem constructAll_isOk (hn : (decls.map (·.name)).Nodup) :
    (registry.constructAll decls).1 = .ok () ↔ ∀ decl ∈ decls,
      registry.entry decl.name = none ∧ (Entry.construct none decl).1 = .ok () := by
  induction decls generalizing registry with
  | nil => simp [constructAll]
  | cons decl rest ih =>
    obtain ⟨hfresh, hrest⟩ := List.nodup_cons.1 hn
    have hkeep : ∀ later ∈ rest, (registry.construct decl).2.entry later.name =
        registry.entry later.name := by
      intro later hl
      rw [entry_construct, if_neg]
      intro he
      exact hfresh (List.mem_map.2 ⟨later, hl, he⟩)
    rw [List.forall_mem_cons, ← construct_isOk]
    constructor
    · intro h
      obtain ⟨hc, he⟩ := constructAll_cons_ok rfl h
      refine ⟨hc, fun later hl => ?_⟩
      rw [← he] at h
      rw [← hkeep later hl]
      exact (ih hrest).1 h later hl
    · rintro ⟨hc, hlater⟩
      rw [constructAll_cons_of_ok hc]
      apply (ih hrest).2
      intro later hl
      rw [hkeep later hl]
      exact hlater later hl

theorem entry_constructAll_of_not_mem (h : name ∉ decls.map (·.name)) :
    (registry.constructAll decls).2.entry name = registry.entry name := by
  induction decls generalizing registry with
  | nil => rfl
  | cons decl rest ih =>
    rw [List.map_cons, List.mem_cons, not_or] at h
    have hstep := entry_construct registry decl name
    rw [if_neg h.1] at hstep
    unfold constructAll
    split
    · rename_i hc
      rw [hc] at hstep
      exact hstep
    · rename_i hc
      rw [hc] at hstep
      rw [ih h.2]
      exact hstep

/-- Each of several databases comes out as it does alone. -/
theorem entry_constructAll (hn : (decls.map (·.name)).Nodup)
    (hok : (registry.constructAll decls).1 = .ok ()) (hm : decl ∈ decls) :
    (registry.constructAll decls).2.entry decl.name = (Entry.construct none decl).2 := by
  induction decls generalizing registry with
  | nil => cases hm
  | cons first rest ih =>
    obtain ⟨hfresh, hrest⟩ := List.nodup_cons.1 hn
    obtain ⟨hc, he⟩ := constructAll_cons_ok rfl hok
    rw [← he] at hok ⊢
    rcases List.mem_cons.1 hm with rfl | hm
    · rw [entry_constructAll_of_not_mem hfresh, entry_construct, if_pos rfl, (construct_isOk.1 hc).1]
    · exact ih hrest hok hm

theorem entry_run_of_not_mem (registry : Registry) (h : name ∉ decls.map (·.name)) :
    (registry.run (decls.map .construct)).entry name = registry.entry name := by
  have hnone : (decls.map Call.construct).filter (fun call => call.name = name) = [] := by
    rw [List.filter_eq_nil_iff]
    intro call hc
    obtain ⟨decl, hd, rfl⟩ := List.mem_map.1 hc
    rw [decide_eq_true_eq]
    intro he
    exact h (List.mem_map.2 ⟨decl, hd, he⟩)
  rw [entry_run, hnone, List.foldl_nil]

/-- Among constructions of other names, failed ones too, a construction goes as it does alone. -/
theorem construct_among {before after : List DatabaseDecl}
    (hn : ((before ++ decl :: after).map (·.name)).Nodup) :
    ((empty.run (before.map .construct)).construct decl).1 = (empty.construct decl).1 ∧
      (empty.run ((before ++ decl :: after).map .construct)).database decl.name =
        (empty.construct decl).2.database decl.name := by
  rw [List.map_append, List.map_cons, List.nodup_middle, List.nodup_cons, List.mem_append,
    not_or] at hn
  obtain ⟨⟨hbefore, hafter⟩, -⟩ := hn
  have hfresh := entry_run_of_not_mem empty hbefore
  have hsplit : empty.run ((before ++ decl :: after).map .construct) =
      ((empty.run (before.map .construct)).construct decl).2.run (after.map .construct) := by
    rw [run, List.map_append, List.foldl_append]
    rfl
  constructor
  · rw [construct_outcome, construct_outcome, hfresh]
  · rw [database_eq, database_eq, hsplit, entry_run_of_not_mem _ hafter, entry_construct,
      entry_construct, hfresh]

/-- The outcome of a call and the new entry depend on the declaration and the entry before only,
and no other entry changes. So databases under distinct names are constructed in one order exactly
when they are in any other, each with the content that it has alone. -/
theorem databases_do_not_interfere :
    (∀ (registry other : Registry) (call : Call),
      registry.entry call.name = other.entry call.name →
        (registry.call call).1 = (other.call call).1 ∧
        (registry.call call).2.entry call.name = (other.call call).2.entry call.name ∧
        (registry.call call).2.databases.entries.filter (fun entry => entry.1 ≠ call.name) =
          registry.databases.entries.filter fun entry => entry.1 ≠ call.name) ∧
    (∀ (registry : Registry) (decls order : List DatabaseDecl), (decls.map (·.name)).Nodup →
      order.Perm decls →
        ((registry.constructAll order).1 = .ok () ↔ (registry.constructAll decls).1 = .ok ()) ∧
        ((registry.constructAll order).1 = .ok () → ∀ decl ∈ decls,
          (empty.construct decl).1 = .ok () ∧
          ∃ db, (registry.constructAll order).2.database decl.name = .ok db ∧
            (empty.construct decl).2.database decl.name = .ok db)) ∧
    ∀ (before : List DatabaseDecl) (decl : DatabaseDecl) (after : List DatabaseDecl),
      ((before ++ decl :: after).map (·.name)).Nodup →
        ((empty.run (before.map .construct)).construct decl).1 = (empty.construct decl).1 ∧
        (empty.run ((before ++ decl :: after).map .construct)).database decl.name =
          (empty.construct decl).2.database decl.name := by
  refine ⟨?_, ?_, fun before decl after hn => construct_among hn⟩
  · intro registry other call h
    rw [entry_call, entry_call, if_pos rfl, if_pos rfl, call_eq, call_eq, h]
    refine ⟨rfl, rfl, ?_⟩
    rw [← h, ← others_call registry call, call_eq]
  · intro registry decls order hn hp
    have hno : (order.map (·.name)).Nodup := (hp.map (·.name)).nodup_iff.2 hn
    constructor
    · rw [constructAll_isOk hno, constructAll_isOk hn]
      exact forall_congr' fun decl => imp_congr_left hp.mem_iff
    · intro hok decl hm
      have hmo := hp.mem_iff.2 hm
      obtain ⟨-, halone⟩ := (constructAll_isOk hno).1 hok decl hmo
      obtain ⟨db, hdb⟩ := Entry.addItems_some (.ofDecl decl) decl.name decl.items
      rw [← Entry.construct_none] at hdb
      refine ⟨construct_isOk.2 ⟨rfl, halone⟩, db, ?_, ?_⟩
      · rw [database_eq, entry_constructAll hno hok hmo, hdb]
      · have he : empty.entry decl.name = none := rfl
        rw [database_eq, entry_construct, if_pos rfl, he, hdb]

theorem shop_and_crm_do_not_interfere :
    let shop := { DatabaseDecl.named "Shop" with schemas := [⟨"dbo", "dbo"⟩] }
    let crm := { DatabaseDecl.named "Crm" with schemas := [⟨"dbo", "dbo"⟩] }
    ((empty.construct shop).2.call (.construct crm)).1 = (empty.call (.construct crm)).1 ∧
      (empty.constructAll [crm, shop]).1 = .ok () ∧
      (empty.run [.construct crm, .construct shop]).database "Shop" =
        (empty.construct shop).2.database "Shop" := by
  intro shop crm
  have hentry : (empty.construct shop).2.entry crm.name = empty.entry crm.name := by rfl
  have hnodup : ([shop, crm].map (·.name)).Nodup := by decide
  have hok : (empty.constructAll [shop, crm]).1 = .ok () := by rfl
  obtain ⟨htwo, horder, halone⟩ := databases_do_not_interfere
  refine ⟨(htwo (empty.construct shop).2 empty (.construct crm) hentry).1, ?_, ?_⟩
  · exact (horder empty [shop, crm] [crm, shop] hnodup (.swap shop crm [])).1.2 hok
  · exact (halone [crm] shop [] (by decide)).2

end DatabaseProject.Registry
