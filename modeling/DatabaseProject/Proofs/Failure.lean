import DatabaseProject.Proofs.Artifacts
import DatabaseProject.Proofs.Replay

/-!
# What a failure leaves behind

A database that cannot be constructed stops the run before anything of its solution is written, so
the tree is the one that the solutions before leave. When a later step fails the files of the
solution written so far stay, but never has the solution file been touched.
-/

namespace DatabaseProject

open FileTree Outcome

/-- The databases of a list are constructed up to one that cannot be. -/
structure Registry.FailsAt (decls earlier : List DatabaseDecl) (failing : DatabaseDecl)
    (e : GenerationError) : Prop where
  reached : earlier ++ [failing] <+: decls
  constructed : (Registry.empty.constructAll earlier).1 = .ok ()
  failed : ((Registry.empty.constructAll earlier).2.construct failing).1 = .error e

theorem Registry.constructAll_eq_error {registry : Registry} {decls : List DatabaseDecl}
    {e : GenerationError} (h : (registry.constructAll decls).1 = .error e) :
    ∃ earlier failing, earlier ++ [failing] <+: decls ∧ (registry.constructAll earlier).1 = .ok () ∧
      ((registry.constructAll earlier).2.construct failing).1 = .error e := by
  induction decls generalizing registry with
  | nil => cases h
  | cons decl decls ih =>
    unfold constructAll at h
    cases hc : registry.construct decl with
    | mk result next =>
      rw [hc] at h
      cases result with
      | error found =>
        cases h
        exact ⟨[], decl, by simp, rfl, by rw [constructAll, hc]⟩
      | ok _ =>
        obtain ⟨earlier, failing, hp, hok, hf⟩ := ih h
        have hnext : registry.constructAll (decl :: earlier) = next.constructAll earlier := by
          rw [constructAll, hc]
        refine ⟨decl :: earlier, failing, ?_, by rw [hnext, hok], by rw [hnext, hf]⟩
        rw [List.cons_append, List.cons_prefix_cons]
        exact ⟨rfl, hp⟩

namespace Run

variable {α β : Type} {f : α → Run β} {xs ys : List α} {s t middle : RunState}

/-- The step that fails ends a loop with its error, behind what the steps before have done. -/
theorem exec_mapM_error {a : α} {results : List β} {e : GenerationError}
    (h : (xs.mapM f).exec s = (.ok results, middle)) (he : (f a).exec middle = (.error e, t)) :
    ((xs ++ a :: ys).mapM f).exec s = (.error e, t) := by
  rw [List.mapM_append, exec_bind, h]
  dsimp only
  rw [List.mapM_cons, exec_bind, exec_bind, he]

end Run

namespace Generate

open Run

variable {settings : Settings} {ids others : Nat → String} {folder : Path} {db : Database}
  {final s t : RunState} {Pair : String → String → Prop}

/-- The states that two runs with different ids are in: as many ids have been taken, and the trees
differ only in ids. -/
def AlikeStates (Pair : String → String → Prop) : StateRelation := fun a a' b =>
  a.tree.get? a.tree.workingFolder = some .folder ∧ a'.issued = a.issued ∧
    a.tree.Alike Pair a'.tree ∧ b = a'

theorem keptByIds_alikeStates : KeptByIds (AlikeStates Pair) where
  issued_eq := by
    rintro a a' b ⟨-, hi, -, rfl⟩
    exact ⟨hi, hi⟩
  issue := by
    rintro a a' b ⟨hh, hi, halike, rfl⟩
    exact ⟨hh, congrArg (· + 1) hi, halike, rfl⟩

theorem replays_onTree_alike {change change' : FileTree → Except GenerationError FileTree}
    (hc : ∀ old new, change old = .ok new → old.KeptBy new)
    (h : ∀ old old' new, old.Alike Pair old' → old.get? old.workingFolder = some .folder →
      change old = .ok new → ∃ new', change' old' = .ok new' ∧ new.Alike Pair new') :
    Replays final (AlikeStates Pair) (AlikeStates Pair) Eq (Run.onTree change) (Run.onTree change') := by
  refine replays_onTree (advances_onTree_ending hc) ?_
  rintro a a' b new ⟨hh, hi, halike, rfl⟩ hn -
  obtain ⟨new', hn', hnew⟩ := h _ _ _ halike hh hn
  exact ⟨new', new', hn', hn', (hc _ _ hn).home hh, hi, hnew, rfl⟩

theorem replays_write_alike {path : Path} {text text' : String} (h : Renamed Pair text text') :
    Replays final (AlikeStates Pair) (AlikeStates Pair) Eq
      (Run.onTree (·.write path text.toUTF8)) (Run.onTree (·.write path text'.toUTF8)) :=
  replays_onTree_alike (fun _ _ => keptBy_store) fun _ _ _ halike hh hs => halike.store hh hs (.text h)

theorem keptBySolution_alikeStates {decl : SolutionDecl} :
    KeptBySolution settings Pair final decl (AlikeStates Pair) where
  solution _ _ := replays_write_alike
  project db _ := by
    refine ⟨AlikeStates Pair, keeps_ending final, fun _ _ _ h => h, ?_, fun _ _ => replays_write_alike,
      fun _ _ => replays_write_alike, ?_, ?_, fun _ _ _ _ => replays_write_alike (.same _)⟩
    · rintro a a' b ⟨-, -, halike, rfl⟩ path -
      exact ⟨Project.shownAlike_of_alike halike, Project.shownAlike_of_alike halike⟩
    · intro _ _ _ _ _ _ _ _ _ _ _ _
      exact replays_onTree_alike (fun _ _ => keptBy_copy) fun _ _ _ halike hh hs => halike.copy hh hs
    · intro name _
      exact replays_onTree_alike (fun _ _ => keptBy_copyDacpac) fun _ _ _ => copyDacpac_alike

/-- With ids of another source the same solutions are generated, and the tree is the same up to
these ids. -/
theorem mapM_generateSolution_alike {decls : List SolutionDecl} {outputs : List SolutionOutput}
    (hh : s.tree.get? s.tree.workingFolder = some .folder)
    (hp : Plain (IdPair ids others t.issued))
    (h : (decls.mapM (generateSolution settings ids)).exec s = (.ok outputs, t)) :
    ∃ outputs' t', (decls.mapM (generateSolution settings others)).exec s = (.ok outputs', t') ∧
      t'.issued = t.issued ∧ t.tree.Alike (IdPair ids others t.issued) t'.tree ∧
      List.Forall₂ (SolutionOutput.Alike (IdPair ids others t.issued)) outputs outputs' := by
  have hreplays : Replays t (AlikeStates (IdPair ids others t.issued))
      (AlikeStates (IdPair ids others t.issued))
      (List.Forall₂ (SolutionOutput.Alike (IdPair ids others t.issued)))
      (decls.mapM (generateSolution settings ids)) (decls.mapM (generateSolution settings others)) :=
    replays_mapM fun decl _ => replays_generateSolution hp keptByIds_alikeStates
      fun _ => keptBySolution_alikeStates
  obtain ⟨outputs', t', _, h', -, houtputs, -, hi, halike, -⟩ :=
    hreplays.replay s s s ⟨hh, rfl, .refl _, rfl⟩ outputs t h (.refl t)
  exact ⟨outputs', t', h', hi, halike, houtputs⟩

/-- No package file that a solution depends on has the name of its solution file. -/
def PackagesApart (decl : SolutionDecl) : Prop :=
  ∀ db ∈ projectDatabases decl, ∀ name ∈ dacpacs db, Include.lastSegment name ≠ decl.name ++ ".sln"

instance (decl : SolutionDecl) : Decidable (PackagesApart decl) :=
  inferInstanceAs (Decidable (∀ db ∈ projectDatabases decl, ∀ name ∈ dacpacs db,
    Include.lastSegment name ≠ decl.name ++ ".sln"))

/-- No project has its files where the solution file is. -/
theorem solutionFile_not_written {here place : Location} {sources : Sources} {name : String}
    (ht : folder.target? here = some place) :
    ¬ (projectFootprint here folder sources db).written (place ++ [name ++ ".sln"]) := by
  rw [written_project ht]
  rintro (he | ⟨-, he⟩ | ⟨inner, hne, -, he⟩)
  · exact append_ne_append (by decide) (by decide) (List.cons.inj he).1
  · exact append_ne_append (by decide) (by decide) (List.cons.inj he).1
  · exact hne (List.cons.inj he).2.symm

theorem concludeSolution_error {name : String} {done : List Project × Nat} {e : GenerationError}
    (h : (concludeSolution ids folder name done).exec s = (.error e, t)) : t.tree = s.tree := by
  unfold concludeSolution at h
  split at h
  · cases h
  · simp only [writeSolution, exec_bind, exec_modifyGet, exec_onTree] at h
    cases hw : s.tree.write (folder.join ⟨(Solution.ofProjects name (ids s.issued) done.1).fileName⟩)
        (Solution.ofProjects name (ids s.issued) done.1).text.toUTF8 with
    | error found =>
      rw [hw] at h
      cases h
      rfl
    | ok tree =>
      rw [hw] at h
      cases h

/-- A solution that fails has not touched its file. -/
theorem solutionFile_kept {decl : SolutionDecl} {e : GenerationError} {place : Location}
    (hn : decl.HasSegmentNames) (hw : s.tree.WellFormed) (hapart : PackagesApart decl)
    (h : (generateSolution settings ids decl).exec s = (.error e, t))
    (hplace : ((settings.outputFolder.join ⟨decl.name⟩).join ⟨decl.name ++ ".sln"⟩).target?
      s.tree.workingFolder = some place) : t.tree.fileAt? place = s.tree.fileAt? place := by
  rw [exec_generateSolution] at h
  cases hok : (Registry.empty.constructAll decl.databases).1 with
  | error found =>
    rw [hok] at h
    cases h
    rfl
  | ok _ =>
    rw [hok, exec_bind] at h
    dsimp only at h
    have hsegment : Path.IsSegment (decl.name ++ ".sln") :=
      .of_ending hn.name.no_separator (by decide) (by decide)
    obtain ⟨base, hbase, -, rfl⟩ := hsegment.target?_join.1 hplace
    have hkept : ((generateProjects settings ids (settings.outputFolder.join ⟨decl.name⟩) ([], 0)
        (projectDatabases decl)).exec s).2.tree.fileAt? (base ++ [decl.name ++ ".sln"]) =
          s.tree.fileAt? (base ++ [decl.name ++ ".sln"]) := by
      have hwithin : (generateProjects settings ids (settings.outputFolder.join ⟨decl.name⟩) ([], 0)
          (projectDatabases decl)).Within (Rooted s.tree.workingFolder) (.any (projectDatabases decl)
            (projectFootprint s.tree.workingFolder (settings.outputFolder.join ⟨decl.name⟩) .all)) :=
        within_generateProjects_all fun db => hasSegmentNames_of_mem hn hok
      refine (hwithin s ⟨hw, rfl⟩).2.fileAt?_eq ?_ ?_
      · rintro ⟨db, -, hwritten⟩
        exact solutionFile_not_written hbase hwritten
      · rintro content ⟨db, hdb, place, name, ht, hname, he, -⟩
        obtain rfl := Option.some.inj (hbase.symm.trans ht)
        exact hapart db hdb name hname (List.cons.inj (List.append_cancel_left he)).1.symm
    cases hprojects : (generateProjects settings ids (settings.outputFolder.join ⟨decl.name⟩) ([], 0)
        (projectDatabases decl)).exec s with
    | mk result middle =>
      rw [hprojects] at h hkept
      cases result with
      | error found =>
        cases h
        exact hkept
      | ok done =>
        dsimp only at h hkept
        rw [concludeSolution_error h, hkept]

/-- What is promised of a run that fails. When a database of a solution cannot be constructed, the
run ends with the error of the first such database and with the state that the solutions before it
leave; with ids of another source these solutions leave the same tree up to these ids. And a
solution that fails, at whatever step, has not touched its solution file. -/
theorem failure_leaves (settings : Settings) (ids : Nat → String) (s : RunState) :
    (∀ path definition before decl after outputs middle,
      readDefinition path s.tree = .ok (some definition) →
      definition.solutions = before ++ decl :: after →
      (before.mapM (generateSolution settings ids)).exec s = (.ok outputs, middle) →
      (Registry.empty.constructAll decl.databases).1 ≠ .ok () →
      (∃ earlier failing e, Registry.FailsAt decl.databases earlier failing e ∧
        (generate settings ids path).exec s = (.error e, middle)) ∧
      ∀ others, s.tree.get? s.tree.workingFolder = some .folder →
        Plain (IdPair ids others middle.issued) →
        ∃ outputs' middle', (before.mapM (generateSolution settings others)).exec s =
            (.ok outputs', middle') ∧
          middle.tree.Alike (IdPair ids others middle.issued) middle'.tree ∧
          List.Forall₂ (SolutionOutput.Alike (IdPair ids others middle.issued)) outputs outputs') ∧
    (∀ decl e t, decl.HasSegmentNames → s.tree.WellFormed → PackagesApart decl →
      (generateSolution settings ids decl).exec s = (.error e, t) →
      ∀ place, ((settings.outputFolder.join ⟨decl.name⟩).join ⟨decl.name ++ ".sln"⟩).target?
          s.tree.workingFolder = some place →
        t.tree.fileAt? place = s.tree.fileAt? place) := by
  constructor
  · intro path definition before decl after outputs middle hread hsplit hbefore hfails
    refine ⟨?_, fun others hh hp => ?_⟩
    · cases hc : (Registry.empty.constructAll decl.databases).1 with
      | ok _ => exact absurd hc hfails
      | error e =>
        obtain ⟨earlier, failing, hreached, hok, hfailed⟩ := Registry.constructAll_eq_error hc
        refine ⟨earlier, failing, e, ⟨hreached, hok, hfailed⟩, ?_⟩
        have hstops : (generateSolution settings ids decl).exec middle = (.error e, middle) := by
          rw [exec_generateSolution, hc]
        rw [exec_generate, hread]
        dsimp only
        rw [hsplit, exec_mapM_error hbefore hstops]
    · obtain ⟨outputs', middle', h, -, halike, houtputs⟩ := mapM_generateSolution_alike hh hp hbefore
      exact ⟨outputs', middle', h, halike, houtputs⟩
  · intro decl e t hn hw hapart h place hplace
    exact solutionFile_kept hn hw hapart h hplace

/-- The second solution declares a database again; the third one is never reached. -/
def repeatingDefinition : String :=
  "<Sql><SqlProject Name=\"Store\"><Databases>" ++
    "<Database Name=\"Shop\" CreateProject=\"true\"/></Databases></SqlProject>" ++
  "<SqlProject Name=\"Next\"><Databases><Database Name=\"Crm\" CreateProject=\"true\"/>" ++
    "<Database Name=\"Crm\" CreateProject=\"true\"/></Databases></SqlProject>" ++
  "<SqlProject Name=\"Last\"/></Sql>"

def crm : DatabaseDecl := { DatabaseDecl.named "Crm" with createProject := true }

/-- A solution that depends on a package. -/
def packagedSolution : SolutionDecl :=
  ⟨"Store", [{ DatabaseDecl.named "Shop" with
    createProject := true, dependencies := [⟨.dacpac, "base.dacpac"⟩] }]⟩

/-- The definition, and the solution file of an earlier run. -/
def repeatingTree : FileTree := .ofEntries [
  (["work"], .folder),
  (["work", "definition.xml"], .file repeatingDefinition.toUTF8),
  (["work", "out"], .folder),
  (["work", "out", "Store"], .folder),
  (["work", "out", "Store", "Store.sln"], .file "old".toUTF8)]

theorem repeated_database_and_missing_package :
    let first := (([sampleSolution []].mapM (generateSolution sampleSettings (ProjectId.nth 1))).exec
      ⟨repeatingTree, 0⟩).2
    let last := (generateSolution sampleSettings (ProjectId.nth 1) packagedSolution).exec
      ⟨repeatingTree, 0⟩
    (∃ earlier failing e, Registry.FailsAt [crm, crm] earlier failing e ∧
      (generate sampleSettings (ProjectId.nth 1) ⟨"/work/definition.xml"⟩).exec ⟨repeatingTree, 0⟩ =
        (.error e, first)) ∧
    (∃ outputs other, ([sampleSolution []].mapM (generateSolution sampleSettings (ProjectId.nth 2))).exec
        ⟨repeatingTree, 0⟩ = (.ok outputs, other) ∧
      first.tree.Alike (IdPair (ProjectId.nth 1) (ProjectId.nth 2) first.issued) other.tree) ∧
    last.1.isOk = false ∧ last.2.tree.fileAt? ["work", "out", "Store", "Shop.sqlproj"] ≠ none ∧
    last.2.tree.fileAt? ["work", "out", "Store", "Store.sln"] = some ("old".toUTF8 : File) := by
  intro first last
  have hread : (readDefinition ⟨"/work/definition.xml"⟩ repeatingTree).toOption.join.map (·.solutions) =
      some ([sampleSolution []] ++ ⟨"Next", [crm, crm]⟩ :: [⟨"Last", []⟩]) := by
    decide +kernel
  obtain ⟨definition, hread, hsplit⟩ := exists_definition hread
  have hfirst : (([sampleSolution []].mapM (generateSolution sampleSettings (ProjectId.nth 1))).exec
      ⟨repeatingTree, 0⟩).1.isOk = true := by
    decide +kernel
  obtain ⟨outputs, hfirst⟩ := exists_of_isOk hfirst
  have hfails : (Registry.empty.constructAll [crm, crm]).1 ≠ .ok () := by
    decide +kernel
  have hlast : last.1.isOk = false ∧
      last.2.tree.fileAt? ["work", "out", "Store", "Shop.sqlproj"] ≠ none := by
    decide +kernel
  obtain ⟨hbefore, hafter⟩ := failure_leaves sampleSettings (ProjectId.nth 1) ⟨repeatingTree, 0⟩
  obtain ⟨hgenerate, hothers⟩ :=
    hbefore _ definition _ ⟨"Next", [crm, crm]⟩ _ outputs first hread hsplit hfirst hfails
  obtain ⟨outputs', other, hother, halike, -⟩ := hothers (ProjectId.nth 2) (by decide +kernel)
    (plain_idPair (ProjectId.escape_nth 1) (ProjectId.escape_nth 2))
  refine ⟨hgenerate, ⟨outputs', other, hother, halike⟩, hlast.1, hlast.2, ?_⟩
  obtain ⟨e, hlast⟩ := exists_of_isOk_eq_false hlast.1
  have hold : repeatingTree.fileAt? ["work", "out", "Store", "Store.sln"] = some ("old".toUTF8 : File) := by
    decide +kernel
  rw [← hold]
  exact hafter packagedSolution e last.2 (by decide) (by decide +kernel) (by decide +kernel) hlast _
    (by decide +kernel)

end Generate

end DatabaseProject
