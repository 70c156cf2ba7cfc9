import DatabaseProject.Proofs.Failure
import DatabaseProject.Proofs.Isolation

/-!
# Databases without a project

The databases of a solution without a project are constructed with the others, and can fail with
them, but nothing reads them. A database with a project comes out as it does alone, so a solution
that is generated is generated all the same when some of the others are left out.
-/

namespace DatabaseProject

namespace Registry

variable {decls : List DatabaseDecl}

/-- A database that is constructed alone. -/
theorem exists_alone (decl : DatabaseDecl) : ∃ db,
    (Entry.construct none decl).2 = some db ∧ db.createProject = decl.createProject := by
  obtain ⟨db, hdb⟩ := Entry.addItems_some (.ofDecl decl) decl.name decl.items
  have hsame : db.createProject = decl.createProject := by
    rw [(Entry.extended_addItems hdb).settings]
    rfl
  exact ⟨db, Entry.construct_none ▸ hdb, hsame⟩

/-- Databases that are constructed together are those that come out of the declarations one by one. -/
theorem values_constructAll (hn : (decls.map (·.name)).Nodup)
    (hok : (empty.constructAll decls).1 = .ok ()) : (empty.constructAll decls).2.databases.values =
      decls.filterMap fun decl => (Entry.construct none decl).2 := by
  obtain ⟨_, -, -, hkeys⟩ := constructed_of_constructAll (Prod.ext hok rfl)
  have hkeys : (empty.constructAll decls).2.databases.keys = decls.map (·.name) := hkeys
  rw [OrderedMap.values_eq_filterMap, hkeys, List.filterMap_map]
  exact List.filterMap_congr fun decl hd => entry_constructAll hn hok hd

end Registry

/-- The databases that get a project depend only on the declarations that ask for one. -/
theorem Generate.projectDatabases_eq {decl : SolutionDecl}
    (hok : (Registry.empty.constructAll decl.databases).1 = .ok ()) :
    projectDatabases decl = (decl.databases.filter (·.createProject)).filterMap
      fun declared => (Entry.construct none declared).2 := by
  rw [projectDatabases, Registry.values_constructAll (nodup_declared hok) hok, List.filter_filterMap,
    List.filterMap_filter]
  refine List.filterMap_congr fun declared _ => ?_
  obtain ⟨db, hdb, hsame⟩ := Registry.exists_alone declared
  rw [hdb, Option.filter_some, hsame]

/-- A declaration is another one without some of the databases, none of which gets a project. -/
structure SolutionDecl.PrunesTo (decl pruned : SolutionDecl) : Prop where
  name_eq : pruned.name = decl.name
  sublist : pruned.databases.Sublist decl.databases
  projects_eq : pruned.databases.filter (·.createProject) = decl.databases.filter (·.createProject)

namespace Generate

open FileTree Registry Run

variable {settings : Settings} {ids others : Nat → String} {decl pruned : SolutionDecl}
  {s t : RunState} {output : SolutionOutput}

/-- What is left of databases that can be constructed can be constructed. -/
theorem constructAll_of_prunesTo (h : decl.PrunesTo pruned)
    (hok : (Registry.empty.constructAll decl.databases).1 = .ok ()) :
    (Registry.empty.constructAll pruned.databases).1 = .ok () := by
  have hn := nodup_declared hok
  rw [constructAll_isOk hn] at hok
  rw [constructAll_isOk (hn.sublist (h.sublist.map _))]
  exact fun declared hd => hok declared (h.sublist.subset hd)

theorem projectDatabases_of_prunesTo (h : decl.PrunesTo pruned)
    (hok : (Registry.empty.constructAll decl.databases).1 = .ok ()) :
    projectDatabases pruned = projectDatabases decl := by
  rw [projectDatabases_eq hok, projectDatabases_eq (constructAll_of_prunesTo h hok), h.projects_eq]

/-- Up to the end, whatever it is, the run goes the same way. -/
theorem exec_of_prunesTo (h : decl.PrunesTo pruned)
    (hok : (Registry.empty.constructAll decl.databases).1 = .ok ()) :
    (generateSolution settings ids pruned).exec s = (generateSolution settings ids decl).exec s := by
  rw [exec_generateSolution, exec_generateSolution, hok, constructAll_of_prunesTo h hok, h.name_eq,
    projectDatabases_of_prunesTo h hok]

/-- With ids of another source the same solution is generated, up to these ids. -/
theorem generateSolution_alike (hh : s.tree.get? s.tree.workingFolder = some .folder)
    (hp : Plain (IdPair ids others t.issued))
    (h : (generateSolution settings ids decl).exec s = (.ok output, t)) :
    ∃ output' t', (generateSolution settings others decl).exec s = (.ok output', t') ∧
      output.Alike (IdPair ids others t.issued) output' ∧
      t.tree.Alike (IdPair ids others t.issued) t'.tree := by
  have hreplays : Replays t (AlikeStates (IdPair ids others t.issued))
      (AlikeStates (IdPair ids others t.issued))
      (SolutionOutput.Alike (IdPair ids others t.issued))
      (generateSolution settings ids decl) (generateSolution settings others decl) :=
    replays_generateSolution hp keptByIds_alikeStates fun _ => keptBySolution_alikeStates
  obtain ⟨output', t', _, h', -, houtput, -, -, halike, -⟩ :=
    hreplays.replay s s s ⟨hh, rfl, .refl _, rfl⟩ output t h (.refl t)
  exact ⟨output', t', h', houtput, halike⟩

/-- Databases without a project are not seen in what a solution makes. When a solution is
generated, so is what remains of it without any of these databases, with the same output and the
same tree. With ids of another source both are the same up to the ids, which are paired one to one
when neither source gives an id twice. -/
theorem projectless_databases_do_not_matter (settings : Settings) (ids : Nat → String)
    (decl pruned : SolutionDecl) (s t : RunState) (output : SolutionOutput)
    (hpruned : decl.PrunesTo pruned)
    (hrun : (generateSolution settings ids decl).exec s = (.ok output, t)) :
    (generateSolution settings ids pruned).exec s = (.ok output, t) ∧
    ∀ others, s.tree.get? s.tree.workingFolder = some .folder →
      Plain (IdPair ids others t.issued) →
      (∃ output' t', (generateSolution settings others pruned).exec s = (.ok output', t') ∧
        output.Alike (IdPair ids others t.issued) output' ∧
        t.tree.Alike (IdPair ids others t.issued) t'.tree) ∧
      (Set.InjOn ids {turn | turn < t.issued} → Set.InjOn others {turn | turn < t.issued} →
        Relator.BiUnique (IdPair ids others t.issued)) := by
  have hsame : (generateSolution settings ids pruned).exec s = (.ok output, t) := by
    rw [exec_of_prunesTo hpruned (exec_generateSolution_eq_ok.1 hrun).1, hrun]
  exact ⟨hsame, fun others hh hp => ⟨generateSolution_alike hh hp hsame, biUnique_idPair⟩⟩

/-- A database without a project, and one with a project. -/
def crmAndShop : SolutionDecl :=
  ⟨"Store", [{ DatabaseDecl.named "Crm" with createProject := false, schemas := [⟨"dbo", "dbo"⟩] },
    { DatabaseDecl.named "Shop" with createProject := true, includes := ["First"] }]⟩

theorem crm_does_not_matter : ∃ output t,
    crmAndShop.PrunesTo (sampleSolution ["First"]) ∧
    (generateSolution sampleSettings (ProjectId.nth 1) crmAndShop).exec ⟨sampleTree, 0⟩ =
      (.ok output, t) ∧
    (generateSolution sampleSettings (ProjectId.nth 1) (sampleSolution ["First"])).exec ⟨sampleTree, 0⟩ =
      (.ok output, t) ∧
    ∃ output' t', (generateSolution sampleSettings (ProjectId.nth 2) (sampleSolution ["First"])).exec
        ⟨sampleTree, 0⟩ = (.ok output', t') ∧
      output.Alike (IdPair (ProjectId.nth 1) (ProjectId.nth 2) t.issued) output' ∧
      t.tree.Alike (IdPair (ProjectId.nth 1) (ProjectId.nth 2) t.issued) t'.tree := by
  have hpruned : crmAndShop.PrunesTo (sampleSolution ["First"]) :=
    ⟨rfl, List.sublist_cons_self _ _, by decide⟩
  have hok : ((generateSolution sampleSettings (ProjectId.nth 1) crmAndShop).exec
      ⟨sampleTree, 0⟩).1.isOk = true := by
    unfold generateSolution generateProjects generateProject copyIncludes copyInclude takeProject
      Project.assemble Project.listFolders Project.addInclude foldersBelow
    rw [below_eq_insertionSort]
    decide +kernel
  obtain ⟨output, hrun⟩ := exists_of_isOk hok
  obtain ⟨hsame, hothers⟩ := projectless_databases_do_not_matter sampleSettings (ProjectId.nth 1)
    crmAndShop (sampleSolution ["First"]) ⟨sampleTree, 0⟩ _ output hpruned hrun
  obtain ⟨hother, -⟩ := hothers (ProjectId.nth 2) (by decide +kernel)
    (plain_idPair (ProjectId.escape_nth 1) (ProjectId.escape_nth 2))
  exact ⟨output, _, hpruned, hrun, hsame, hother⟩

end Generate

end DatabaseProject
