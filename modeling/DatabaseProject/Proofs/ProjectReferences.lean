import DatabaseProject.Proofs.Artifacts
import DatabaseProject.Proofs.ElementTexts
import DatabaseProject.Proofs.Renaming
import DatabaseProject.Proofs.Replay
import DatabaseProject.Proofs.SolutionText

/-!
# References between projects

A project can only refer to projects that have been assembled before it, since only these are looked
through. So all references of a solution lead back in the order of declaration, to the one project of
the name, and carry its id; and the files of a solution name each project by this id. A name is written
into the solution file as it is, so that one with a line feed can make more lines that look like entries.
-/

namespace DatabaseProject

open Outcome

namespace Project

variable {settings : Settings} {tree : FileTree} {previous : List Project} {guid : String} {db : Database}
  {project : Project} {dependency : Dependency} {reference : ProjectReference}

/-- The references that dependencies turn into. -/
inductive StandsFor : Dependency → ProjectReference → Prop
  | dacpac (name : String) : StandsFor ⟨.dacpac, name⟩ (.dacpac (Include.lastSegment name))
  | database (name guid : String) : StandsFor ⟨.database, name⟩ (.project name guid)
  | system (name hintPath : String) : StandsFor ⟨.system, name⟩ (.system name hintPath)

theorem projectReference_eq_ok {name : String} (h : projectReference previous db name = .ok reference) :
    ∃ target ∈ previous, target.name = name ∧ reference = .project name target.guid := by
  unfold projectReference at h
  split at h
  · rename_i target hfound
    cases h
    obtain rfl : target.name = name := by simpa using List.find?_some hfound
    exact ⟨target, List.mem_of_find?_eq_some hfound, rfl, rfl⟩
  · cases h

theorem standsFor_of_reference
    (h : Project.reference settings previous db dependency = .ok reference) :
    StandsFor dependency reference := by
  obtain ⟨kind, name⟩ := dependency
  cases kind with
  | dacpac =>
    cases h
    exact .dacpac name
  | database =>
    obtain ⟨target, -, -, rfl⟩ := projectReference_eq_ok h
    exact .database name target.guid
  | system =>
    simp only [Project.reference, systemReference] at h
    split at h
    · obtain ⟨_, -, h⟩ := bind_eq_ok.1 h
      cases h
      exact .system name _
    · cases h

/-- A project behind others, with an id. -/
structure Assembled (settings : Settings) (previous : List Project) (guid : String) (db : Database)
    (project : Project) : Prop where
  name : project.name = db.name
  guid : project.guid = guid
  schemaProvider : project.schemaProvider = db.platform.schemaProvider db.version
  warningsAsErrors : project.warningsAsErrors = db.warningsAsErrors
  hasComparison : project.hasComparison = db.comparison.isSome
  references : List.Forall₂ (fun dependency reference =>
    Project.reference settings previous db dependency = .ok reference) db.dependencies project.references

theorem assembled_of_assemble (h : assemble settings tree previous guid db = .ok project) :
    project.Assembled settings previous guid db := by
  obtain ⟨references, hreferences, h⟩ := bind_eq_ok.1 h
  obtain ⟨folders, -, h⟩ := bind_eq_ok.1 h
  cases h
  exact ⟨rfl, rfl, rfl, rfl, rfl, mapM_eq_ok.1 hreferences⟩

/-- The project that is referred to is before the one that refers. -/
theorem Assembled.target_of_reference {name id : String} (h : project.Assembled settings previous guid db)
    (hr : .project name id ∈ project.references) :
    ∃ target ∈ previous, target.name = name ∧ target.guid = id := by
  obtain ⟨dependency, -, hdependency⟩ := exists_left_of_forall₂ h.references hr
  have hstands := standsFor_of_reference hdependency
  cases hstands
  obtain ⟨target, ht, hname, he⟩ := projectReference_eq_ok hdependency
  cases he
  exact ⟨target, ht, hname, rfl⟩

/-- The project that is depended on is before the one that depends. -/
theorem Assembled.target_of_dependency {name : String} (h : project.Assembled settings previous guid db)
    (hd : ⟨.database, name⟩ ∈ db.dependencies) : ∃ target ∈ previous, target.name = name := by
  obtain ⟨reference, -, hreference⟩ := exists_right_of_forall₂ h.references hd
  obtain ⟨target, ht, hname, -⟩ := projectReference_eq_ok hreference
  exact ⟨target, ht, hname⟩

end Project

namespace Run

variable {α β : Type} {x : Run α} {f : α → Run β}

/-- A run that takes no ids. -/
def TakesNoIds (x : Run α) : Prop := ∀ s, (x.exec s).2.issued = s.issued

theorem TakesNoIds.of_exec {result : Except GenerationError α} {s t : RunState} (h : x.TakesNoIds)
    (hx : x.exec s = (result, t)) : t.issued = s.issued := by
  have hs := h s
  rwa [hx] at hs

theorem takesNoIds_pure (a : α) : (pure a : Run α).TakesNoIds := fun _ => rfl

theorem takesNoIds_liftM (e : Except GenerationError α) : (liftM e : Run α).TakesNoIds := fun _ => rfl

theorem takesNoIds_onTree (change : FileTree → Except GenerationError FileTree) :
    (onTree change).TakesNoIds := by
  intro s
  rw [exec_onTree]
  cases change s.tree <;> rfl

theorem takesNoIds_bind (hx : x.TakesNoIds) (hf : ∀ a, (f a).TakesNoIds) : (x >>= f).TakesNoIds := by
  intro s
  rw [exec_bind]
  cases h : x.exec s with
  | mk result t =>
    have ht := hx.of_exec h
    cases result with
    | error e => exact ht
    | ok a => exact (hf a t).trans ht

theorem takesNoIds_forM {xs : List α} {g : α → Run Unit} (h : ∀ a, (g a).TakesNoIds) :
    (xs.forM g).TakesNoIds := by
  induction xs with
  | nil => exact takesNoIds_pure ()
  | cons a rest ih => exact takesNoIds_bind (h a) fun _ => ih

/-- Whatever a run returns is of a kind. -/
def Yields (x : Run α) (P : α → Prop) : Prop := ∀ s a t, x.exec s = (.ok a, t) → P a

theorem yields_pure {P : α → Prop} {a : α} (h : P a) : (pure a : Run α).Yields P := by
  intro s b t hx
  cases hx
  exact h

theorem yields_bind {P : β → Prop} (hf : ∀ a, (f a).Yields P) : (x >>= f).Yields P := by
  intro s b t hx
  obtain ⟨a, middle, -, hrest⟩ := exec_bind_eq_ok.1 hx
  exact hf a middle b t hrest

end Run

namespace Generate

open FileTree Run

variable {settings : Settings} {ids : Nat → String} {folder : Path} {db : Database}
  {project : Project} {previous : List Project} {s t : RunState}

theorem takesNoIds_copyEntry (source target : Path) (entry : List String × FileEntry) :
    (copyEntry source target entry).TakesNoIds := by
  unfold copyEntry
  split
  · exact takesNoIds_onTree _
  · split
    · exact takesNoIds_pure ()
    · exact fun _ => rfl

theorem takesNoIds_copyInclude (target : Path) (path : String) :
    (copyInclude settings target path).TakesNoIds :=
  takesNoIds_bind (fun _ => rfl) fun _ => takesNoIds_bind (takesNoIds_liftM _) fun _ =>
    takesNoIds_forM fun _ => takesNoIds_copyEntry _ _ _

theorem takesNoIds_writeComparison : (writeComparison folder project db).TakesNoIds := by
  unfold writeComparison
  cases db.comparison with
  | none => exact takesNoIds_pure _
  | some options =>
    rw [Option.forM]
    exact takesNoIds_onTree _

theorem takesNoIds_finishProject : (finishProject settings folder db project).TakesNoIds :=
  takesNoIds_bind (takesNoIds_onTree _) fun _ => takesNoIds_bind takesNoIds_writeComparison fun _ =>
    takesNoIds_bind (takesNoIds_forM fun _ => takesNoIds_copyInclude _ _) fun _ =>
    takesNoIds_bind (takesNoIds_forM fun _ => takesNoIds_onTree _) fun _ =>
    takesNoIds_bind (takesNoIds_liftM _) fun _ =>
    takesNoIds_bind (takesNoIds_forM fun _ => takesNoIds_onTree _) fun _ => takesNoIds_pure _

theorem yields_finishProject : (finishProject settings folder db project).Yields (·.1 = project) :=
  yields_bind fun _ => yields_bind fun _ => yields_bind fun _ => yields_bind fun _ => yields_bind fun _ =>
    yields_bind fun _ => yields_pure rfl

theorem generateProject_assembled {count : Nat}
    (h : (generateProject settings ids folder previous db).exec s = (.ok (project, count), t)) :
    project.Assembled settings previous (ids s.issued) db ∧ t.issued = s.issued + 1 := by
  rw [generateProject_eq] at h
  obtain ⟨taken, middle, htake, hfinish⟩ := exec_bind_eq_ok.1 h
  obtain ⟨hassemble, htaken⟩ := exec_takeProject_eq_ok.1 htake
  obtain rfl := yields_finishProject _ _ _ hfinish
  refine ⟨Project.assembled_of_assemble hassemble, ?_⟩
  rw [takesNoIds_finishProject.of_exec hfinish, htaken]

/-- Each database becomes a project behind those of the databases before it, with the next id. -/
theorem generateProjects_assembled {done result : List Project × Nat} {dbs : List Database}
    (h : (generateProjects settings ids folder done dbs).exec s = (.ok result, t)) :
    ∃ made, result.1 = done.1 ++ made ∧ made.length = dbs.length ∧ t.issued = s.issued + dbs.length ∧
      ∀ (k : Nat) (db : Database) (project : Project), dbs[k]? = some db → made[k]? = some project →
        project.Assembled settings (done.1 ++ made.take k) (ids (s.issued + k)) db := by
  induction dbs generalizing done s with
  | nil =>
    cases h
    exact ⟨[], by simp, rfl, rfl, by simp⟩
  | cons db dbs ih =>
    rw [generateProjects_cons] at h
    obtain ⟨⟨project, count⟩, middle, hproject, hrest⟩ := exec_bind_eq_ok.1 h
    obtain ⟨hassembled, hissued⟩ := generateProject_assembled hproject
    obtain ⟨made, hmade, hlength, hcount, hothers⟩ := ih hrest
    refine ⟨project :: made, by simp [hmade], by simp [hlength], ?_, ?_⟩
    · rw [hcount, hissued, List.length_cons]
      omega
    · rintro (_ | k) other made' hdb hp
      · cases hdb
        cases hp
        rw [List.take_zero, List.append_nil]
        exact hassembled
      · have hother := hothers k other made' hdb hp
        rw [hissued, Nat.add_right_comm, Nat.add_assoc] at hother
        rw [List.take_succ_cons, List.append_cons]
        exact hother

/-- A solution is concluded with its file, where there are projects. -/
theorem concludeSolution_eq_ok {name : String} {done : List Project × Nat} {output : SolutionOutput}
    (h : (concludeSolution ids folder name done).exec s = (.ok output, t)) :
    output.folder = folder ∧ output.projects = done.1 ∧
      (done.1 = [] ∧ output.solutionPath = none ∨
        done.1 ≠ [] ∧ output.solutionPath = some (folder.join ⟨name ++ ".sln"⟩) ∧
          t.issued = s.issued + 1 ∧ s.tree.write (folder.join ⟨name ++ ".sln"⟩)
            (Solution.ofProjects name (ids s.issued) done.1).text.toUTF8 = .ok t.tree) := by
  unfold concludeSolution at h
  split at h
  · rename_i hempty
    cases h
    exact ⟨rfl, rfl, .inl ⟨List.isEmpty_iff.1 hempty, rfl⟩⟩
  · rename_i hempty
    obtain ⟨path, written, hwritten, hdone⟩ := exec_bind_eq_ok.1 h
    cases hdone
    obtain ⟨rfl, hissued, hwrite⟩ := exec_writeSolution_eq_ok.1 hwritten
    exact ⟨rfl, rfl, .inr ⟨fun he => hempty (List.isEmpty_iff.2 he), rfl, hissued, hwrite⟩⟩

/-- What a solution that has been generated was made of. -/
structure Produced (settings : Settings) (ids : Nat → String) (decl : SolutionDecl) (s t : RunState)
    (output : SolutionOutput) : Prop where
  constructed : (Registry.empty.constructAll decl.databases).1 = .ok ()
  folder : output.folder = settings.outputFolder.join ⟨decl.name⟩
  length_eq : output.projects.length = (projectDatabases decl).length
  project : ∀ (k : Nat) (db : Database) (project : Project), (projectDatabases decl)[k]? = some db →
    output.projects[k]? = some project → project.Assembled settings (output.projects.take k) (ids (s.issued + k)) db
  solution : output.projects = [] ∧ output.solutionPath = none ∨
    output.projects ≠ [] ∧ output.solutionPath = some (output.folder.join ⟨decl.name ++ ".sln"⟩) ∧
      t.issued = s.issued + output.projects.length + 1 ∧ ∃ old : FileTree,
        old.write (output.folder.join ⟨decl.name ++ ".sln"⟩) (Solution.ofProjects decl.name
          (ids (s.issued + output.projects.length)) output.projects).text.toUTF8 = .ok t.tree

theorem produced_of_exec {decl : SolutionDecl} {output : SolutionOutput}
    (h : (generateSolution settings ids decl).exec s = (.ok output, t)) :
    Produced settings ids decl s t output := by
  obtain ⟨hok, done, middle, hprojects, hconclude⟩ := exec_generateSolution_eq_ok.1 h
  obtain ⟨made, hmade, hlength, hissued, hassembled⟩ := generateProjects_assembled hprojects
  obtain ⟨hfolder, hsame, hend⟩ := concludeSolution_eq_ok hconclude
  rw [List.nil_append] at hmade
  rw [hmade] at hsame hend
  rw [← hlength] at hissued
  refine ⟨hok, hfolder, by rw [hsame, hlength], fun k db project hdb hp => ?_, ?_⟩
  · rw [hsame] at hp ⊢
    exact hassembled k db project hdb hp
  · rw [hfolder, hsame]
    rcases hend with hnone | ⟨hne, hpath, hcount, hwrite⟩
    · exact .inl hnone
    · rw [hissued] at hcount hwrite
      exact .inr ⟨hne, hpath, hcount, _, hwrite⟩

/-- A text in the form of an id: the digits of two words, in groups between braces. -/
def IsId (id : String) : Prop := ∃ high low, id = ProjectId.ofWords high low

theorem IsId.escape_eq {id : String} (h : IsId id) : Xml.Markup.escape id = id := by
  obtain ⟨high, low, rfl⟩ := h
  exact ProjectId.escape_ofWords high low

theorem IsId.unbroken {id : String} (h : IsId id) : Unbroken id := by
  obtain ⟨high, low, rfl⟩ := h
  exact fun hc => absurd (ProjectId.mem_idChars hc) (by decide)

/-- A run only takes ids, and none of them twice. -/
structure TakesFreshIds (ids : Nat → String) (s t : RunState) : Prop where
  isId : ∀ turn ∈ Set.Ico s.issued t.issued, IsId (ids turn)
  injOn : Set.InjOn ids (Set.Ico s.issued t.issued)

/-- The project of a declared database. -/
structure IsProjectOf (decl : DatabaseDecl) (project : Project) : Prop where
  name : project.name = decl.name
  schemaProvider : project.schemaProvider = decl.platform.schemaProvider decl.version
  warningsAsErrors : project.warningsAsErrors = decl.warningsAsErrors
  hasComparison : project.hasComparison = decl.comparison.isSome
  references : List.Forall₂ Project.StandsFor decl.dependencies project.references

theorem isProjectOf_of_assembled {decl : DatabaseDecl} {guid : String} (hdb : db.Constructed decl)
    (h : project.Assembled settings previous guid db) : IsProjectOf decl project := by
  have hset := hdb.settings
  refine ⟨h.name.trans hdb.name_eq, ?_, ?_, ?_, ?_⟩
  · rw [h.schemaProvider, hset]
    rfl
  · rw [h.warningsAsErrors, hset]
    rfl
  · rw [h.hasComparison, hset]
    rfl
  · have hreferences := h.references
    rw [hset] at hreferences
    exact hreferences.imp fun _ _ => Project.standsFor_of_reference

/-- The texts of a project's files have its id once each, and that of the project file has the ids of the
projects that it refers to. -/
structure ShowsIds (project : Project) : Prop where
  descriptor : Xml.elementTexts "ProjectGuid" project.descriptor = [project.guid]
  references :
    Xml.elementTexts "Project" project.descriptor = project.references.filterMap ProjectReference.guid?
  comparison : ∀ options, Xml.elementTexts "ProjectGuid" (project.comparison options) = [project.guid]

theorem showsIds_of_isId (hguid : IsId project.guid)
    (hreferred : ∀ id ∈ project.references.filterMap ProjectReference.guid?, IsId id) :
    ShowsIds project := by
  refine ⟨?_, ?_, fun options => ?_⟩
  · rw [project.elementTexts_projectGuid, hguid.escape_eq]
  · rw [project.elementTexts_project, List.map_congr_left fun id hm => (hreferred id hm).escape_eq,
      List.map_id']
  · rw [project.elementTexts_comparison, hguid.escape_eq]

/-- The files of a project are there with the texts of the project. -/
structure HasFiles (folder : Path) (tree : FileTree) (decl : DatabaseDecl) (project : Project) : Prop where
  descriptor : tree.read? (folder.join ⟨decl.name ++ ".sqlproj"⟩) = some (project.descriptor.toUTF8 : File)
  comparison : ∀ options, decl.comparison = some options →
    tree.read? (folder.join ⟨decl.name ++ ".scmp"⟩) = some ((project.comparison options).toUTF8 : File)

theorem hasFiles_of_holdsFiles {decl : DatabaseDecl} {tree : FileTree} (hdb : db.Constructed decl)
    (h : HoldsFiles folder tree db project) : HasFiles folder tree decl project := by
  have hcomparison : db.comparison = decl.comparison := by
    rw [hdb.settings]
    rfl
  refine ⟨?_, fun options ho => ?_⟩
  · rw [← hdb.name_eq]
    exact h.descriptor
  · rw [← hdb.name_eq]
    exact h.comparison options (hcomparison.trans ho)

/-- The text of a solution file has the entries of the projects one behind the other, each with the id of
its project. There is no other line that begins like an entry, unless a line feed brings one into a name. -/
structure HasEntries (text : String) (projects : List Project) : Prop where
  entries : ∃ before after, text = before ++ "\n" ++ String.join (projects.map fun project =>
    Solution.entryText project.name project.guid) ++ after
  once : ((textLines text).filter Solution.isEntry).length = projects.length ↔
    ∀ project ∈ projects, Solution.entriesWithin project.name = []
  lines : (∀ project ∈ projects, '\n' ∉ project.name.toList) → (textLines text).filter Solution.isEntry =
    projects.map fun project => Solution.entryStart project.name project.guid

theorem hasUnbrokenIds_ofProjects {name guid : String} {projects : List Project} (hguid : IsId guid)
    (hids : ∀ project ∈ projects, IsId project.guid) :
    (Solution.ofProjects name guid projects).HasUnbrokenIds :=
  ⟨hguid.unbroken, List.forall_mem_map.2 fun project hp => (hids project hp).unbroken⟩

theorem hasEntries_ofProjects {name guid : String} {projects : List Project} (hguid : IsId guid)
    (hids : ∀ project ∈ projects, IsId project.guid) :
    HasEntries (Solution.ofProjects name guid projects).text projects := by
  have hunbroken : (Solution.ofProjects name guid projects).HasUnbrokenIds :=
    hasUnbrokenIds_ofProjects hguid hids
  refine ⟨?_, ?_, fun hn => ?_⟩
  · obtain ⟨before, after, htext⟩ := (Solution.ofProjects name guid projects).exists_around_entryTexts
    refine ⟨before, after, ?_⟩
    rw [htext, Solution.ofProjects, List.map_map]
    rfl
  · have hcount := Solution.length_filter_isEntry_eq_iff hunbroken
    rw [Solution.ofProjects, List.length_map, List.forall_mem_map] at hcount
    exact hcount
  · rw [Solution.textLines_text hunbroken (List.forall_mem_map.2 hn), List.filter_append,
      Solution.filter_isEntry_lines, Solution.ofProjects, List.map_map]
    exact List.append_nil _

/-- Every reference to a project leads to an earlier project, the only one of the name, and has its
id. -/
def LeadBack (projects : List Project) : Prop :=
  ∀ (i : Nat) (project : Project), projects[i]? = some project →
    ∀ name guid, ProjectReference.project name guid ∈ project.references →
      ∃ (j : Nat) (target : Project), j < i ∧ projects[j]? = some target ∧ target.guid = guid ∧
        ∀ k, projects[k]?.map (·.name) = some name ↔ k = j

/-- The projects of a solution have ids of their own, refer back only, and stand in the solution file. -/
structure Linked (settings : Settings) (ids : Nat → String) (decl : SolutionDecl) (s t : RunState)
    (output : SolutionOutput) : Prop where
  projects : List.Forall₂ IsProjectOf (decl.databases.filter (·.createProject)) output.projects
  back : LeadBack output.projects
  texts : ∀ project ∈ output.projects, ShowsIds project
  guids : output.projects.map (·.guid) = (List.range' s.issued output.projects.length).map ids
  distinct : (output.projects.map (·.guid)).Nodup
  path : output.solutionPath.isSome ↔ ∃ db ∈ decl.databases, db.createProject = true
  /-- The solution file is written last. -/
  solution : ∀ path ∈ output.solutionPath, ∃ (text : String) (old : FileTree),
    old.write path text.toUTF8 = .ok t.tree ∧ HasEntries text output.projects
  files : decl.HasSegmentNames → s.tree.WellFormed →
    List.Forall₂ (HasFiles output.folder t.tree) (decl.databases.filter (·.createProject)) output.projects

/-- Some database with a project depends on a database that has no project before it: on itself, on a
later one, on one without a project, or on none that is declared. -/
def RefersAhead (decl : SolutionDecl) : Prop :=
  ∃ before db after name, decl.databases = before ++ db :: after ∧ db.createProject = true ∧
    ⟨.database, name⟩ ∈ db.dependencies ∧
    (name = db.name ∨ name ∈ after.map (·.name) ∨
      (∃ other ∈ decl.databases, other.name = name ∧ other.createProject = false) ∨
      name ∉ decl.databases.map (·.name))

namespace Produced

variable {decl : SolutionDecl} {output : SolutionOutput}

theorem names (h : Produced settings ids decl s t output) : output.projects.map (·.name) =
    (decl.databases.filter (·.createProject)).map (·.name) := by
  rw [← names_projectDatabases h.constructed]
  refine List.ext_getElem (by simpa using h.length_eq) fun k hk hk' => ?_
  rw [List.length_map] at hk hk'
  have hthis := h.project k _ _ (List.getElem?_eq_getElem hk') (List.getElem?_eq_getElem hk)
  simpa using hthis.name

theorem nodup_names (h : Produced settings ids decl s t output) :
    (output.projects.map (·.name)).Nodup := by
  rw [h.names]
  exact (nodup_declared h.constructed).sublist (List.Sublist.map _ List.filter_sublist)

theorem isProjectOf (h : Produced settings ids decl s t output) :
    List.Forall₂ IsProjectOf (decl.databases.filter (·.createProject)) output.projects := by
  have hall := constructed_projectDatabases h.constructed
  rw [List.forall₂_iff_get]
  refine ⟨hall.length_eq.trans h.length_eq.symm, fun k hk hk' => ?_⟩
  have hbound : k < (projectDatabases decl).length := hall.length_eq ▸ hk
  exact isProjectOf_of_assembled (hall.get hk hbound)
    (h.project k _ _ (List.getElem?_eq_getElem hbound) (List.getElem?_eq_getElem hk'))

theorem guids (h : Produced settings ids decl s t output) : output.projects.map (·.guid) =
    (List.range' s.issued output.projects.length).map ids := by
  refine List.ext_getElem (by simp) fun k hk hk' => ?_
  rw [List.length_map] at hk
  have hthis := h.project k _ _ (List.getElem?_eq_getElem (h.length_eq ▸ hk)) (List.getElem?_eq_getElem hk)
  simpa using hthis.guid

/-- Each project is behind those that its references to projects name. -/
theorem leadBack (h : Produced settings ids decl s t output) : LeadBack output.projects := by
  intro i project hi name guid hreference
  have hbound : i < (projectDatabases decl).length := h.length_eq ▸ (List.getElem?_eq_some_iff.1 hi).1
  have hthis := h.project i _ project (List.getElem?_eq_getElem hbound) hi
  obtain ⟨target, ht, hname, hguid⟩ := hthis.target_of_reference hreference
  obtain ⟨j, hj⟩ := List.mem_iff_getElem?.1 ht
  rw [List.getElem?_take] at hj
  split at hj
  · rename_i hbefore
    refine ⟨j, target, hbefore, hj, hguid, fun k => ⟨fun hk => ?_, ?_⟩⟩
    · have hsame : (output.projects.map (·.name))[j]? = (output.projects.map (·.name))[k]? := by
        rw [List.getElem?_map, List.getElem?_map, hk, hj, Option.map_some, hname]
      have hlength : j < (output.projects.map (·.name)).length := by
        rw [List.length_map]
        exact (List.getElem?_eq_some_iff.1 hj).1
      exact ((List.getElem?_inj hlength h.nodup_names).1 hsame).symm
    · rintro rfl
      rw [hj, Option.map_some, hname]
  · cases hj

theorem path_iff (h : Produced settings ids decl s t output) :
    output.solutionPath.isSome ↔ ∃ db ∈ decl.databases, db.createProject = true := by
  have hsome : output.projects = [] ↔ ∀ db ∈ decl.databases, db.createProject ≠ true := by
    rw [← List.length_eq_zero_iff, ← h.isProjectOf.length_eq, List.length_eq_zero_iff,
      List.filter_eq_nil_iff]
  rcases h.solution with ⟨hempty, hpath⟩ | ⟨hne, hpath, -⟩
  · simpa [hpath] using hsome.1 hempty
  · rw [Ne, hsome] at hne
    push Not at hne
    simpa [hpath] using hne

theorem distinct (h : Produced settings ids decl s t output) (hids : TakesFreshIds ids s t) :
    (output.projects.map (·.guid)).Nodup := by
  rw [h.guids]
  rcases h.solution with ⟨hempty, -⟩ | ⟨-, -, hissued, -⟩
  · simp [hempty]
  · refine List.Nodup.map_on (fun m hm n hn => hids.injOn ?_ ?_) List.nodup_range' <;>
      simp only [List.mem_range'_1, Set.mem_Ico] at hm hn ⊢ <;> omega

theorem isId_guid (h : Produced settings ids decl s t output) (hids : TakesFreshIds ids s t) :
    ∀ project ∈ output.projects, IsId project.guid := by
  intro project hp
  have hguid := List.mem_map_of_mem (f := (·.guid)) hp
  rw [h.guids] at hguid
  obtain ⟨turn, hturn, he⟩ := List.mem_map.1 hguid
  rw [List.mem_range'_1] at hturn
  rw [← he]
  rcases h.solution with ⟨hempty, -⟩ | ⟨-, -, hissued, -⟩
  · simp [hempty] at hp
  · exact hids.isId turn (Set.mem_Ico.2 ⟨hturn.1, by omega⟩)

/-- The ids of references are those of projects, so that they are ids too. -/
theorem showsIds (h : Produced settings ids decl s t output) (hids : TakesFreshIds ids s t) :
    ∀ project ∈ output.projects, ShowsIds project := by
  intro project hp
  refine showsIds_of_isId (h.isId_guid hids project hp) fun id hid => ?_
  obtain ⟨reference, hr, hguid⟩ := List.mem_filterMap.1 hid
  cases reference with
  | dacpac fileName => cases hguid
  | system name hintPath => cases hguid
  | project name guid =>
    obtain rfl := Option.some.inj hguid
    obtain ⟨i, hi⟩ := List.mem_iff_getElem?.1 hp
    obtain ⟨j, target, -, hj, rfl, -⟩ := h.leadBack i project hi name _ hr
    exact h.isId_guid hids target (List.mem_of_getElem? hj)

theorem solution_file (h : Produced settings ids decl s t output) (hids : TakesFreshIds ids s t) (path : Path)
    (hp : path ∈ output.solutionPath) : ∃ (text : String) (old : FileTree),
      old.write path text.toUTF8 = .ok t.tree ∧ HasEntries text output.projects := by
  rcases h.solution with ⟨-, hpath⟩ | ⟨-, hpath, hissued, old, hwrite⟩
  · simp [hpath] at hp
  · obtain rfl := Option.some.inj (hpath.symm.trans hp)
    have hguid := hids.isId (s.issued + output.projects.length) (Set.mem_Ico.2 ⟨by omega, by omega⟩)
    exact ⟨_, old, hwrite, hasEntries_ofProjects hguid (h.isId_guid hids)⟩

/-- What a database with a project depends on has been declared before it, with a project too. -/
theorem declared_before (h : Produced settings ids decl s t output) {before after : List DatabaseDecl}
    {db : DatabaseDecl} {name : String} (hdecl : decl.databases = before ++ db :: after)
    (hproject : db.createProject = true) (hname : ⟨.database, name⟩ ∈ db.dependencies) :
    ∃ target ∈ before, target.createProject = true ∧ target.name = name := by
  have hfilter : decl.databases.filter (·.createProject) =
      before.filter (·.createProject) ++ db :: after.filter (·.createProject) := by
    rw [hdecl, List.filter_append, List.filter_cons_of_pos hproject]
  have hplace : (decl.databases.filter (·.createProject))[(before.filter (·.createProject)).length]? =
      some db := by
    rw [hfilter, List.getElem?_append_right le_rfl, Nat.sub_self, List.getElem?_cons_zero]
  obtain ⟨built, hbuilt, hc⟩ := getElem?_of_forall₂ (constructed_projectDatabases h.constructed) hplace
  obtain ⟨project, hp, -⟩ := getElem?_of_forall₂ h.isProjectOf hplace
  have hsame : built.dependencies = db.dependencies := by
    rw [hc.settings]
    rfl
  obtain ⟨target, ht, rfl⟩ :=
    (h.project _ built project hbuilt hp).target_of_dependency (hsame ▸ hname)
  have hnames : (output.projects.take (before.filter (·.createProject)).length).map (·.name) =
      (before.filter (·.createProject)).map (·.name) := by
    rw [List.map_take, h.names, hfilter, ← List.map_take, List.take_left]
  obtain ⟨declared, hd, he⟩ := List.mem_map.1 (hnames ▸ List.mem_map_of_mem ht)
  exact ⟨declared, List.mem_of_mem_filter hd, (List.mem_filter.1 hd).2, he⟩

/-- What a database depends on has been declared with a project before it. -/
theorem not_refersAhead (h : Produced settings ids decl s t output) : ¬ RefersAhead decl := by
  rintro ⟨before, db, after, name, hdecl, hproject, hname, hahead⟩
  obtain ⟨target, ht, htarget, rfl⟩ := h.declared_before hdecl hproject hname
  have hnodup := nodup_declared h.constructed
  have hmem : target ∈ decl.databases := by simp [hdecl, ht]
  rw [hdecl, List.map_append, List.map_cons] at hnodup
  have hapart := List.disjoint_of_nodup_append hnodup (List.mem_map_of_mem ht)
  rcases hahead with he | hafter | ⟨other, ho, he, hother⟩ | hnone
  · exact hapart (he ▸ List.mem_cons_self)
  · exact hapart (List.mem_cons_of_mem _ hafter)
  · obtain rfl := List.inj_on_of_nodup_map (nodup_declared h.constructed) ho hmem he
    simp [htarget] at hother
  · exact hnone (List.mem_map.2 ⟨target, hmem, rfl⟩)

end Produced

theorem linked_of_exec {decl : SolutionDecl} {output : SolutionOutput}
    (h : (generateSolution settings ids decl).exec s = (.ok output, t)) (hids : TakesFreshIds ids s t) :
    Linked settings ids decl s t output := by
  have hproduced := produced_of_exec h
  refine ⟨hproduced.isProjectOf, hproduced.leadBack, hproduced.showsIds hids, hproduced.guids,
    hproduced.distinct hids, hproduced.path_iff, hproduced.solution_file hids, fun hn hw => ?_⟩
  rw [hproduced.folder]
  have hall := constructed_projectDatabases hproduced.constructed
  have hfiles := projects_hold_files hn hw h
  rw [List.forall₂_iff_get]
  refine ⟨hall.length_eq.trans hfiles.length_eq, fun k hk hk' => ?_⟩
  have hbound : k < (projectDatabases decl).length := hall.length_eq ▸ hk
  exact hasFiles_of_holdsFiles (hall.get hk hbound) (hfiles.get hbound hk')

/-- The projects of a solution refer back only, by ids of their own; a solution in which a database
refers ahead is not generated. -/
theorem project_references_lead_back {decl : SolutionDecl} :
    (∀ output t, (generateSolution settings ids decl).exec s = (.ok output, t) →
      TakesFreshIds ids s t → Linked settings ids decl s t output) ∧
      (RefersAhead decl → ∃ e t, (generateSolution settings ids decl).exec s = (.error e, t)) := by
  refine ⟨fun output t h hids => linked_of_exec h hids, fun hahead => ?_⟩
  cases h : (generateSolution settings ids decl).exec s with
  | mk result t =>
    cases result with
    | error e => exact ⟨e, t, rfl⟩
    | ok output => exact ((produced_of_exec h).not_refersAhead hahead).elim

/-- A database and one that depends on it. -/
def coreDatabase : DatabaseDecl := { DatabaseDecl.named "Core" with createProject := true }

def shopDatabase : DatabaseDecl :=
  { DatabaseDecl.named "Shop" with createProject := true, dependencies := [⟨.database, "Core"⟩] }

theorem takesFreshIds_of_issued {seed : UInt64} {count : Nat} (hs : s.issued = 0) (ht : t.issued = count)
    (hdistinct : ((List.range count).map (ProjectId.nth seed)).Nodup) :
    TakesFreshIds (ProjectId.nth seed) s t := by
  rw [List.nodup_map_iff_inj_on List.nodup_range] at hdistinct
  refine ⟨fun turn _ => ⟨_, _, rfl⟩, fun m hm n hn => hdistinct m ?_ n ?_⟩ <;>
    simp only [hs, ht, Set.mem_Ico] at hm hn <;> simp [hm, hn]

theorem shop_refers_to_core :
    let start : RunState := ⟨.ofEntries [(["work"], .folder)], 0⟩
    (∃ output t, (generateSolution sampleSettings (ProjectId.nth 1)
        ⟨"Store", [coreDatabase, shopDatabase]⟩).exec start = (.ok output, t) ∧
      TakesFreshIds (ProjectId.nth 1) start t ∧
      Linked sampleSettings (ProjectId.nth 1) ⟨"Store", [coreDatabase, shopDatabase]⟩ start t output) ∧
      RefersAhead ⟨"Store", [shopDatabase, coreDatabase]⟩ ∧
      ∃ e t, (generateSolution sampleSettings (ProjectId.nth 1)
        ⟨"Store", [shopDatabase, coreDatabase]⟩).exec start = (.error e, t) := by
  intro start
  have hends : let finish := (generateSolution sampleSettings (ProjectId.nth 1)
      ⟨"Store", [coreDatabase, shopDatabase]⟩).exec start
      finish.1.isOk = true ∧ finish.2.issued = 3 := by
    decide +kernel
  have hahead : RefersAhead ⟨"Store", [shopDatabase, coreDatabase]⟩ :=
    ⟨[], shopDatabase, [coreDatabase], "Core", rfl, rfl, by decide, .inr (.inl (by decide))⟩
  have hfresh : TakesFreshIds (ProjectId.nth 1) start _ :=
    takesFreshIds_of_issued rfl hends.2 (by decide +kernel)
  obtain ⟨output, h⟩ := Run.exists_of_isOk hends.1
  exact ⟨⟨output, _, h, hfresh, project_references_lead_back.1 output _ h hfresh⟩, hahead,
    project_references_lead_back.2 hahead⟩

/-- A database with nothing to write but its project file. -/
structure IsBare (db : Database) : Prop where
  comparison : db.comparison = none
  includes : db.includes = []
  dependencies : db.dependencies = []
  scripts : db.scripts.toOption = some []

instance (db : Database) : Decidable (IsBare db) :=
  decidable_of_iff (db.comparison = none ∧ db.includes = [] ∧ db.dependencies = [] ∧
    db.scripts.toOption = some [])
    ⟨fun ⟨hc, hi, hd, hs⟩ => ⟨hc, hi, hd, hs⟩, fun ⟨hc, hi, hd, hs⟩ => ⟨hc, hi, hd, hs⟩⟩

theorem write_of_isBare {count : Nat} (hdb : IsBare db)
    (h : (generateProject settings ids folder previous db).exec s = (.ok (project, count), t)) :
    s.tree.write (folder.join ⟨db.name ++ ".sqlproj"⟩) project.descriptor.toUTF8 = .ok t.tree := by
  have hname := (generateProject_assembled h).1.name
  rw [generateProject_eq] at h
  obtain ⟨taken, middle, htake, hfinish⟩ := exec_bind_eq_ok.1 h
  obtain ⟨-, rfl⟩ := exec_takeProject_eq_ok.1 htake
  obtain rfl := yields_finishProject _ _ _ hfinish
  obtain ⟨⟨⟩, written, hwritten, hrest⟩ := exec_bind_eq_ok.1 hfinish
  rw [← hname]
  obtain rfl : t = written := by
    simp only [writeComparison, hdb.comparison, copyIncludes, hdb.includes, copyDacpacs, dacpacs,
      hdb.dependencies, Outcome.toOption_eq_some.1 hdb.scripts, writeScripts] at hrest
    cases hrest
    rfl
  exact (exec_onTree_eq_ok.1 hwritten).1

/-- A database whose name has the start of an entry on a line of its own. -/
def brokenDatabase : DatabaseDecl := { DatabaseDecl.named "Shop\nProject(" with createProject := true }

/-- Two databases whose names lead to the same files. -/
def dottedDatabases : List DatabaseDecl :=
  [{ DatabaseDecl.named "Shop" with createProject := true },
    { DatabaseDecl.named "./Shop" with createProject := true }]

/-- The line feed in the name is written twice into the entry. -/
theorem line_feed_makes_entries {output : SolutionOutput}
    (h : (generateSolution settings ids ⟨"Store", [brokenDatabase]⟩).exec s = (.ok output, t))
    (hids : TakesFreshIds ids s t) : output.projects.length = 1 ∧
      ∃ (path : Path) (text : String) (old : FileTree), output.solutionPath = some path ∧
        old.write path text.toUTF8 = .ok t.tree ∧ ((textLines text).filter Solution.isEntry).length = 3 := by
  have hproduced := produced_of_exec h
  have hnames : output.projects.map (·.name) = [brokenDatabase.name] := hproduced.names
  have hone : output.projects.length = 1 := by simpa using congrArg List.length hnames
  rcases hproduced.solution with ⟨hnone, -⟩ | ⟨-, hpath, hissued, old, hwrite⟩
  · simp [hnone] at hone
  · refine ⟨hone, _, _, old, hpath, hwrite, ?_⟩
    have hguid := hids.isId (s.issued + output.projects.length) (Set.mem_Ico.2 ⟨by omega, by omega⟩)
    rw [Solution.length_filter_isEntry_text (hasUnbrokenIds_ofProjects hguid (hproduced.isId_guid hids))]
    have hwithin : (output.projects.flatMap fun project => Solution.entriesWithin project.name).length = 1 := by
      rw [← List.flatMap_map, hnames]
      rfl
    rw [Solution.ofProjects, List.length_map, List.flatMap_map, hone]
    exact congrArg (1 + 2 * ·) hwithin

/-- The second of two projects with one place for their files writes over the first. -/
theorem dotted_name_overwrites {output : SolutionOutput} (hs : Rooted [] s.tree)
    (h : (generateSolution sampleSettings ids ⟨"Store", dottedDatabases⟩).exec s = (.ok output, t)) :
    ∃ first second, output.projects = [first, second] ∧
      t.tree.fileAt? ["work", "out", "Store", "Shop.sqlproj"] = some (second.descriptor.toUTF8 : File) := by
  obtain ⟨hok, done, s₂, hprojects, hconclude⟩ := exec_generateSolution_eq_ok.1 h
  have hnames : (projectDatabases ⟨"Store", dottedDatabases⟩).map (·.name) = ["Shop", "./Shop"] := by
    decide
  have hbare : ∀ db ∈ projectDatabases ⟨"Store", dottedDatabases⟩, IsBare db := by
    decide
  obtain ⟨one, _, hdbs, hone, hrest⟩ := List.map_eq_cons_iff.1 hnames
  obtain ⟨other, _, rfl, hother, hrest⟩ := List.map_eq_cons_iff.1 hrest
  obtain rfl := List.map_eq_nil_iff.1 hrest
  rw [hdbs, List.forall_mem_cons, List.forall_mem_singleton] at hbare
  rw [hdbs, generateProjects_cons] at hprojects
  obtain ⟨⟨first, _⟩, s₁, hfirst, hrest⟩ := exec_bind_eq_ok.1 hprojects
  rw [generateProjects_cons] at hrest
  obtain ⟨⟨second, _⟩, _, hsecond, ⟨⟩⟩ := exec_bind_eq_ok.1 hrest
  have hwrite₁ := write_of_isBare hbare.1 hfirst
  have hwrite₂ := write_of_isBare hbare.2 hsecond
  rw [hone] at hwrite₁
  rw [hother] at hwrite₂
  obtain ⟨-, hsame, hend⟩ := concludeSolution_eq_ok hconclude
  rcases hend with ⟨hnone, -⟩ | ⟨-, -, -, hwrite₃⟩
  · simp at hnone
  refine ⟨first, second, hsame, ?_⟩
  have hs₁ := hs.write hwrite₁
  have hs₂ := hs₁.write hwrite₂
  obtain ⟨way₂, place₂, hp₂, hplaced₂⟩ := write_eq_ok hs₁.home hwrite₂
  obtain ⟨way₃, place₃, hp₃, hplaced₃⟩ := write_eq_ok hs₂.home hwrite₃
  rw [hs₁.workingFolder_eq] at hp₂
  rw [hs₂.workingFolder_eq] at hp₃
  -- Both names lead to one place, and the solution file is at another.
  have hplaces : ∀ found ∈ ((sampleSettings.outputFolder.join ⟨"Store"⟩).join ⟨"./Shop.sqlproj"⟩).place? [],
      found.2 = ["work", "out", "Store", "Shop.sqlproj"] := by
    decide
  have hapart : ∀ found ∈ ((sampleSettings.outputFolder.join ⟨"Store"⟩).join ⟨"Store.sln"⟩).place? [],
      ["work", "out", "Store", "Shop.sqlproj"] ≠ found.2 ∧
        ["work", "out", "Store", "Shop.sqlproj"] ∉ found.1 := by
    decide
  obtain rfl : place₂ = ["work", "out", "Store", "Shop.sqlproj"] := hplaces _ hp₂
  rw [fileAt?_eq_some, hplaced₃.get?_eq, if_neg (hapart _ hp₃).1, if_neg (hapart _ hp₃).2,
    hplaced₂.get?_place]

/-- A line feed in a name makes two more lines that begin like entries, and names that lead to one place
leave the id of the last project there. -/
theorem names_mislead :
    let start : RunState := ⟨.ofEntries [(["work"], .folder)], 0⟩
    let ids := ProjectId.nth 1
    (∃ (output : SolutionOutput) (t : RunState) (path : Path) (text : String) (old : FileTree),
      (generateSolution sampleSettings ids ⟨"Store", [brokenDatabase]⟩).exec start = (.ok output, t) ∧
      TakesFreshIds ids start t ∧ output.projects.length = 1 ∧ output.solutionPath = some path ∧
      old.write path text.toUTF8 = .ok t.tree ∧ ((textLines text).filter Solution.isEntry).length = 3) ∧
    ∃ (output : SolutionOutput) (t : RunState) (first second : Project),
      (generateSolution sampleSettings ids ⟨"Store", dottedDatabases⟩).exec start = (.ok output, t) ∧
      TakesFreshIds ids start t ∧ output.projects = [first, second] ∧ first.guid ≠ second.guid ∧
      t.tree.fileAt? ["work", "out", "Store", "Shop.sqlproj"] = some (second.descriptor.toUTF8 : File) ∧
      Xml.elementTexts "ProjectGuid" second.descriptor = [second.guid] := by
  intro start ids
  have hs : Rooted [] start.tree := ⟨by decide, rfl⟩
  have hbroken : let finish := (generateSolution sampleSettings ids ⟨"Store", [brokenDatabase]⟩).exec start
      finish.1.isOk = true ∧ finish.2.issued = 2 := by
    decide +kernel
  have hdotted : let finish := (generateSolution sampleSettings ids ⟨"Store", dottedDatabases⟩).exec start
      finish.1.isOk = true ∧ finish.2.issued = 3 := by
    decide +kernel
  have hissued : start.issued = 0 := rfl
  have hfresh := takesFreshIds_of_issued hissued hbroken.2 (by decide +kernel : ((List.range 2).map ids).Nodup)
  have hfresh' := takesFreshIds_of_issued hissued hdotted.2 (by decide +kernel : ((List.range 3).map ids).Nodup)
  obtain ⟨output, h⟩ := exists_of_isOk hbroken.1
  obtain ⟨output', h'⟩ := exists_of_isOk hdotted.1
  obtain ⟨hone, path, text, old, hpath, hwrite, hcount⟩ := line_feed_makes_entries h hfresh
  obtain ⟨first, second, hprojects, hfile⟩ := dotted_name_overwrites hs h'
  have hlinked := linked_of_exec h' hfresh'
  have hdistinct := hlinked.distinct
  rw [hprojects] at hdistinct
  refine ⟨⟨output, _, path, text, old, h, hfresh, hone, hpath, hwrite, hcount⟩,
    output', _, first, second, h', hfresh', hprojects, ?_, hfile, ?_⟩
  · simpa using hdistinct
  · exact (hlinked.texts second (by simp [hprojects])).descriptor

end Generate

end DatabaseProject
