import DatabaseProject.Proofs.IncludedFolders
import DatabaseProject.Proofs.ProjectReferences

/-!
# What a project is assembled from

Dependencies are resolved in order, then the includes are looked up in order, and the first one that
fails ends the assembling. `Resolves` and `Listable` say when one succeeds, `DependencyFault` and
`IncludeFault` with which error it fails otherwise, and `Becomes` what a project refers to in place of a
dependency. An include can fail even where its folder exists, if the folders in it are too far down to
be opened by their paths.
-/

namespace DatabaseProject

namespace Outcome

variable {ε α β σ : Type} {Fault : α → ε → Prop} {x : α} {xs : List α} {e : ε}

/-- The error of the first element that has one. -/
def FirstFault (Fault : α → ε → Prop) (xs : List α) (e : ε) : Prop :=
  ∃ before x after, xs = before ++ x :: after ∧ (∀ y ∈ before, ∀ other, ¬Fault y other) ∧ Fault x e

theorem not_firstFault_nil : ¬FirstFault Fault [] e := by
  rintro ⟨before, x, after, h, -⟩
  simp at h

theorem firstFault_cons : FirstFault Fault (x :: xs) e ↔
    Fault x e ∨ (∀ other, ¬Fault x other) ∧ FirstFault Fault xs e := by
  constructor
  · rintro ⟨before, y, after, h, hbefore, hy⟩
    cases before with
    | nil =>
      cases h
      exact .inl hy
    | cons z before =>
      cases h
      rw [List.forall_mem_cons] at hbefore
      exact .inr ⟨hbefore.1, before, y, after, rfl, hbefore.2, hy⟩
  · rintro (hx | ⟨hx, before, y, after, rfl, hbefore, hy⟩)
    · exact ⟨[], x, xs, rfl, by simp, hx⟩
    · exact ⟨x :: before, y, after, rfl, List.forall_mem_cons.2 ⟨hx, hbefore⟩, hy⟩

theorem forall_not_firstFault :
    (∀ e, ¬FirstFault Fault xs e) ↔ ∀ x ∈ xs, ∀ e, ¬Fault x e := by
  induction xs with
  | nil => simp [not_firstFault_nil]
  | cons x xs ih =>
    rw [List.forall_mem_cons, ← ih]
    simp only [firstFault_cons, not_or, not_and, forall_and]
    exact and_congr_right fun hx => ⟨fun h e => h e hx, fun h e _ => h e⟩

theorem exists_ok_iff {y : Except ε α} : (∃ a, y = .ok a) ↔ ∀ e, y ≠ .error e := by
  cases y with
  | error e => simp
  | ok a => simp

theorem bind_eq_error {y : Except ε α} {f : α → Except ε β} :
    y >>= f = .error e ↔ y = .error e ∨ ∃ a, y = .ok a ∧ f a = .error e := by
  cases y with
  | error e => simp [bind, Except.bind]
  | ok a => simp [bind, Except.bind]

/-- What is done to each element in turn fails with the first fault. -/
theorem mapM_eq_error {f : α → Except ε β} (h : ∀ x e, f x = .error e ↔ Fault x e) :
    xs.mapM f = .error e ↔ FirstFault Fault xs e := by
  induction xs with
  | nil => exact iff_of_false (by simp [List.mapM_nil, pure, Except.pure]) not_firstFault_nil
  | cons x xs ih =>
    have hrest : ∀ y, (xs.mapM f >>= fun ys => pure (y :: ys)) = .error e ↔ xs.mapM f = .error e := by
      intro y
      rw [bind_eq_error, or_iff_left]
      rintro ⟨ys, -, hys⟩
      cases hys
    rw [List.mapM_cons, bind_eq_error, firstFault_cons, ← ih, h]
    simp only [hrest, exists_and_right, exists_ok_iff, ne_eq, h]

/-- So is a state that goes from element to element, if it has no influence on the faults. -/
theorem foldlM_eq_error {step : σ → α → Except ε σ} (h : ∀ s x e, step s x = .error e ↔ Fault x e)
    (init : σ) : xs.foldlM step init = .error e ↔ FirstFault Fault xs e := by
  induction xs generalizing init with
  | nil => exact iff_of_false (by simp [List.foldlM_nil, pure, Except.pure]) not_firstFault_nil
  | cons x xs ih =>
    rw [List.foldlM_cons, bind_eq_error, firstFault_cons, h]
    simp only [ih, exists_and_right, exists_ok_iff, ne_eq, h]

end Outcome

open Outcome

/-- The text behind the last separator of a path. -/
theorem Include.lastSegment_append {front file : String} (hfile : '/' ∉ file.toList ∧ '\\' ∉ file.toList)
    (hfront : front = "" ∨ ∃ rest, front = rest ++ "/" ∨ front = rest ++ "\\") :
    lastSegment (front ++ file) = file := by
  have hclear : file.toList.splitOnP isSeparator = [file.toList] := by
    apply List.splitOnP_eq_singleton
    intro c hc
    rw [isSeparator, Bool.or_eq_false_iff, beq_eq_false_iff_ne, beq_eq_false_iff_ne]
    constructor
    · rintro rfl
      exact hfile.1 hc
    · rintro rfl
      exact hfile.2 hc
  have hbehind : ∀ (rest : List Char) (c : Char), isSeparator c = true →
      ((rest ++ c :: file.toList).splitOnP isSeparator).getLastD [] = file.toList := by
    intro rest c hc
    rw [List.splitOnP_append_cons _ _ hc, hclear, List.getLastD_concat]
  rw [lastSegment, String.toList_append, ← String.toList_inj, String.toList_ofList]
  obtain rfl | ⟨rest, rfl | rfl⟩ := hfront
  · rw [String.toList_empty, List.nil_append, hclear]
    rfl
  · rw [String.toList_append, List.append_assoc]
    exact hbehind rest.toList '/' (by decide)
  · rw [String.toList_append, List.append_assoc]
    exact hbehind rest.toList '\\' (by decide)

theorem Include.exists_before_file (name : String) : ∃ front file, name = front ++ file ∧
    ('/' ∉ file.toList ∧ '\\' ∉ file.toList) ∧
    (front = "" ∨ ∃ rest, front = rest ++ "/" ∨ front = rest ++ "\\") := by
  have hchars : ∀ chars : List Char, ∃ front file : List Char, chars = front ++ file ∧
      ('/' ∉ file ∧ '\\' ∉ file) ∧
      (front = [] ∨ ∃ rest, front = rest ++ ['/'] ∨ front = rest ++ ['\\']) := by
    intro chars
    induction chars with
    | nil => exact ⟨[], [], rfl, by simp, .inl rfl⟩
    | cons c chars ih =>
      obtain ⟨front, file, rfl, hfile, rfl | ⟨rest, hrest⟩⟩ := ih
      · by_cases hc : c = '/' ∨ c = '\\'
        · refine ⟨[c], file, rfl, hfile, .inr ⟨[], ?_⟩⟩
          simpa using hc
        · rw [not_or] at hc
          refine ⟨[], c :: file, rfl, ?_, .inl rfl⟩
          simp only [List.mem_cons, not_or]
          exact ⟨⟨Ne.symm hc.1, hfile.1⟩, Ne.symm hc.2, hfile.2⟩
      · refine ⟨c :: front, file, rfl, hfile, .inr ⟨c :: rest, ?_⟩⟩
        simpa using hrest
  obtain ⟨front, file, he, hfile, hfront⟩ := hchars name.toList
  refine ⟨String.ofList front, String.ofList file, ?_, ?_, ?_⟩
  · rw [← String.toList_inj, he]
    simp
  · simpa using hfile
  · obtain rfl | ⟨rest, hrest⟩ := hfront
    · exact .inl rfl
    · refine .inr ⟨String.ofList rest, hrest.imp ?_ ?_⟩ <;>
        · rintro rfl
          rw [← String.toList_inj]
          simp

namespace Project

variable {settings : Settings} {previous : List Project} {db : Database} {dependency : Dependency}
  {reference : ProjectReference} {e : GenerationError} {name : String}

/-- A dependency can be resolved: a package file always, a database if it has an earlier project, and a
system database if the tools have its package for the platform. -/
def Resolves (settings : Settings) (previous : List Project) (db : Database) (dependency : Dependency) : Prop :=
  match dependency.kind with
  | .dacpac => True
  | .database => ∃ project ∈ previous, project.name = dependency.name
  | .system => (dependency.name = "master" ∨ dependency.name = "msdb") ∧
    (db.platform = .azure ∨ ∃ edition, settings.edition = some edition)

/-- The error of a dependency that cannot be resolved. -/
inductive DependencyFault (settings : Settings) (previous : List Project) (db : Database) :
    Dependency → GenerationError → Prop
  | database {name : String} (h : ∀ project ∈ previous, project.name ≠ name) :
    DependencyFault settings previous db ⟨.database, name⟩ (.unknownProject name db.name)
  | system {name : String} (h : ¬(name = "master" ∨ name = "msdb")) :
    DependencyFault settings previous db ⟨.system, name⟩ (.unknownSystemDatabase name db.name)
  | edition {name : String} (h : name = "master" ∨ name = "msdb") (hp : db.platform = .sqlServer)
    (he : settings.edition = none) :
    DependencyFault settings previous db ⟨.system, name⟩ (.missingEdition db.name)

/-- What a project refers to for a dependency: the text behind the last separator of a package's path,
the first earlier project of the name, or the package of a system database where the tools have it. -/
inductive Becomes (settings : Settings) (previous : List Project) (db : Database) :
    Dependency → ProjectReference → Prop
  | dacpac {front file : String} (hfile : '/' ∉ file.toList ∧ '\\' ∉ file.toList)
    (hfront : front = "" ∨ ∃ rest, front = rest ++ "/" ∨ front = rest ++ "\\") :
    Becomes settings previous db ⟨.dacpac, front ++ file⟩ (.dacpac file)
  | database {before after : List Project} {project : Project} (h : previous = before ++ project :: after)
    (hfirst : ∀ earlier ∈ before, earlier.name ≠ project.name) :
    Becomes settings previous db ⟨.database, project.name⟩ (.project project.name project.guid)
  | azure {name : String} (h : name = "master" ∨ name = "msdb") (hp : db.platform = .azure) :
    Becomes settings previous db ⟨.system, name⟩ (.system name
      ("$(DacPacRootPath)\\Extensions\\Microsoft\\SQLDB\\Extensions\\SqlServer\\AzureV12\\SqlSchemas\\" ++
        name ++ ".dacpac"))
  | sqlServer {name edition : String} (h : name = "master" ∨ name = "msdb") (hp : db.platform = .sqlServer)
    (he : settings.edition = some edition) :
    Becomes settings previous db ⟨.system, name⟩ (.system name
      ("C:\\Program Files (x86)\\Microsoft Visual Studio\\2019\\" ++ edition ++
        "\\Common7\\IDE\\Extensions\\Microsoft\\SQLDB\\Extensions\\SqlServer\\" ++
        toString db.version.major ++ "0\\SqlSchemas\\" ++ name ++ ".dacpac"))

theorem contains_systemDatabases : systemDatabases.contains name = true ↔ name = "master" ∨ name = "msdb" := by
  simp [systemDatabases]

/-- The pieces of the path of a package, put together. -/
theorem serverPackage_eq (edition version name : String) :
    toolsRoot ++ "\\" ++ edition ++ "\\Common7\\IDE" ++
        "\\Extensions\\Microsoft\\SQLDB\\Extensions\\SqlServer\\" ++ (version ++ "0") ++ "\\SqlSchemas\\" ++
        name ++ ".dacpac" =
      "C:\\Program Files (x86)\\Microsoft Visual Studio\\2019\\" ++ edition ++
        "\\Common7\\IDE\\Extensions\\Microsoft\\SQLDB\\Extensions\\SqlServer\\" ++
        version ++ "0\\SqlSchemas\\" ++ name ++ ".dacpac" := by
  rw [← String.toList_inj]
  simp [toolsRoot, String.toList_append]

theorem reference_of_fault (h : DependencyFault settings previous db dependency e) :
    Project.reference settings previous db dependency = .error e := by
  cases h with
  | @database name h =>
    have hnone : previous.find? (·.name == name) = none := by simpa using h
    change projectReference previous db name = _
    rw [projectReference, hnone]
  | @system name h =>
    change systemReference settings db name = _
    rw [systemReference, if_neg (mt contains_systemDatabases.1 h)]
  | @edition name h hp he =>
    change systemReference settings db name = _
    rw [systemReference, if_pos (contains_systemDatabases.2 h), systemPackageRoot, hp, he]
    rfl

theorem reference_of_becomes (h : Becomes settings previous db dependency reference) :
    Project.reference settings previous db dependency = .ok reference := by
  cases h with
  | @dacpac front file hfile hfront =>
    change Except.ok (ProjectReference.dacpac (Include.lastSegment (front ++ file))) = _
    rw [Include.lastSegment_append hfile hfront]
  | @database before after project h hfirst =>
    have hfound : previous.find? (·.name == project.name) = some project :=
      List.find?_eq_some_iff_append.2 ⟨beq_self_eq_true _, before, after, h, by simpa using hfirst⟩
    change projectReference previous db project.name = _
    rw [projectReference, hfound]
  | @azure name h hp =>
    change systemReference settings db name = _
    rw [systemReference, if_pos (contains_systemDatabases.2 h), systemPackageRoot, hp]
    rfl
  | @sqlServer name edition h hp he =>
    change systemReference settings db name = _
    rw [systemReference, if_pos (contains_systemDatabases.2 h), systemPackageRoot, hp, he, ← serverPackage_eq]
    rfl

/-- There is nothing else that can come of a dependency. -/
theorem fault_or_becomes (settings : Settings) (previous : List Project) (db : Database)
    (dependency : Dependency) :
    (¬Resolves settings previous db dependency ∧ ∃ e, DependencyFault settings previous db dependency e) ∨
    (Resolves settings previous db dependency ∧ ∃ r, Becomes settings previous db dependency r) := by
  obtain ⟨kind, name⟩ := dependency
  cases kind with
  | dacpac =>
    obtain ⟨front, file, rfl, hfile, hfront⟩ := Include.exists_before_file name
    exact .inr ⟨trivial, _, .dacpac hfile hfront⟩
  | database =>
    by_cases hp : ∃ project ∈ previous, project.name = name
    · obtain ⟨project, hfound⟩ : ∃ project, previous.find? (·.name == name) = some project := by
        rw [← Option.isSome_iff_exists, List.find?_isSome]
        simpa using hp
      obtain ⟨hname, before, after, hprevious, hbefore⟩ := List.find?_eq_some_iff_append.1 hfound
      obtain rfl : project.name = name := by simpa using hname
      exact .inr ⟨hp, _, .database hprevious (by simpa using hbefore)⟩
    · refine .inl ⟨hp, _, .database fun project hproject hname => ?_⟩
      exact hp ⟨project, hproject, hname⟩
  | system =>
    by_cases hname : name = "master" ∨ name = "msdb"
    · cases hp : db.platform with
      | azure => exact .inr ⟨⟨hname, .inl hp⟩, _, .azure hname hp⟩
      | sqlServer =>
        cases he : settings.edition with
        | none =>
          refine .inl ⟨?_, _, .edition hname hp he⟩
          rintro ⟨-, hazure | ⟨edition, hedition⟩⟩
          · rw [hp] at hazure
            cases hazure
          · rw [he] at hedition
            cases hedition
        | some edition => exact .inr ⟨⟨hname, .inr ⟨edition, he⟩⟩, _, .sqlServer hname hp he⟩
    · exact .inl ⟨fun h => hname h.1, _, .system hname⟩

theorem reference_eq_error : Project.reference settings previous db dependency = .error e ↔
    DependencyFault settings previous db dependency e := by
  refine ⟨fun h => ?_, reference_of_fault⟩
  obtain ⟨-, other, hfault⟩ | ⟨-, r, hr⟩ := fault_or_becomes settings previous db dependency
  · rw [reference_of_fault hfault] at h
    cases h
    exact hfault
  · rw [reference_of_becomes hr] at h
    cases h

theorem reference_eq_ok : Project.reference settings previous db dependency = .ok reference ↔
    Becomes settings previous db dependency reference := by
  refine ⟨fun h => ?_, reference_of_becomes⟩
  obtain ⟨-, other, hfault⟩ | ⟨-, r, hr⟩ := fault_or_becomes settings previous db dependency
  · rw [reference_of_fault hfault] at h
    cases h
  · rw [reference_of_becomes hr] at h
    cases h
    exact hr

theorem resolves_iff : Resolves settings previous db dependency ↔
    ∀ e, ¬DependencyFault settings previous db dependency e := by
  obtain ⟨hnot, e, hfault⟩ | ⟨hresolves, r, hr⟩ := fault_or_becomes settings previous db dependency
  · exact iff_of_false hnot fun h => h e hfault
  · refine iff_of_true hresolves fun e hfault => ?_
    have hok := reference_of_becomes hr
    rw [reference_of_fault hfault] at hok
    cases hok

end Project

theorem Include.resolve_eq_error {projectFolder : Path} {packages : PackageFolders} {path : String}
    {e : GenerationError} : resolve projectFolder packages path = .error e ↔
      (segments path = ["Nuget"] ∧ e = .unknownPackage "" path) ∨
      ∃ package inside, segments path = "Nuget" :: package :: inside ∧ packages.get? package = none ∧
        e = .unknownPackage package path := by
  unfold resolve
  generalize segments path = names
  cases names with
  | nil => simp
  | cons first rest =>
    by_cases hmark : first = packageMark
    · subst hmark
      dsimp only
      rw [if_pos rfl]
      cases rest with
      | nil => simp [packageMark, eq_comm]
      | cons package inside =>
        cases hp : packages.get? package with
        | none => simp [packageMark, hp, eq_comm]
        | some base => simp [packageMark, hp]
    · dsimp only
      rw [if_neg hmark]
      simp only [packageMark] at hmark
      simp [hmark]

theorem FileTree.isFolder_iff {tree : FileTree} {path : Path} : tree.isFolder path = true ↔
    ∃ location, tree.locate? path = some location ∧ tree.get? location = some .folder := by
  rw [isFolder, beq_iff_eq, entry?, Option.bind_eq_some_iff]

namespace Project

variable {settings : Settings} {tree : FileTree} {previous : List Project} {guid : String} {db : Database}
  {project : Project} {e : GenerationError} {name path : String} {listed : List String} {folder : Path}
  {location : Location}

/-- An include path leads to a folder, and the folders in it can be opened. -/
def Listable (settings : Settings) (tree : FileTree) (path : String) : Prop :=
  ∃ folder location, Include.resolve settings.projectFolder settings.packages path = .ok folder ∧
    tree.locate? folder = some location ∧ tree.get? location = some .folder ∧
    ∀ name, tree.get? (location ++ [name]) = some .folder →
      (folder.join ⟨name⟩).text.utf8ByteSize ≤ FileTree.maxPathBytes

/-- The error of an include that cannot be listed: a package without a name or one that is not there, a
folder that is not there, or one with a folder in it whose path is too long. -/
inductive IncludeFault (settings : Settings) (tree : FileTree) (path : String) : GenerationError → Prop
  | unnamedPackage (h : Include.segments path = ["Nuget"]) :
    IncludeFault settings tree path (.unknownPackage "" path)
  | package {package : String} {inside : List String}
    (h : Include.segments path = "Nuget" :: package :: inside) (hp : settings.packages.get? package = none) :
    IncludeFault settings tree path (.unknownPackage package path)
  | folder {folder : Path} (h : Include.resolve settings.projectFolder settings.packages path = .ok folder)
    (hf : tree.isFolder folder = false) :
    IncludeFault settings tree path (.missingIncludeFolder folder)
  | listing {folder : Path} {location : Location} {name : String}
    (h : Include.resolve settings.projectFolder settings.packages path = .ok folder)
    (hl : tree.locate? folder = some location) (hf : tree.get? location = some .folder)
    (hn : tree.get? (location ++ [name]) = some .folder)
    (hlong : FileTree.maxPathBytes < (folder.join ⟨name⟩).text.utf8ByteSize) :
    IncludeFault settings tree path (.unreadable folder)

theorem includeFolder_eq_error : includeFolder settings tree path = .error e ↔
    Include.resolve settings.projectFolder settings.packages path = .error e ∨
      ∃ folder, Include.resolve settings.projectFolder settings.packages path = .ok folder ∧
        tree.isFolder folder = false ∧ e = .missingIncludeFolder folder := by
  rw [includeFolder, bind_eq_error]
  refine or_congr_right (exists_congr fun folder => and_congr_right fun _ => ?_)
  rw [← Bool.not_eq_true, FileTree.isFolder_iff]
  cases hl : tree.locate? folder with
  | none => simp [eq_comm, throw, throwThe, MonadExceptOf.throw]
  | some location =>
    by_cases hf : tree.get? location = some .folder
    · simp [hf, pure, Except.pure]
    · simp only [hf, if_false, throw, throwThe, MonadExceptOf.throw, Except.error.injEq]
      simp only [Option.some.injEq, exists_eq_left', hf, not_false_eq_true, true_and]
      exact eq_comm

theorem isListable_singleton : isListable folder [name] = true ↔
    (folder.join ⟨name⟩).text.utf8ByteSize ≤ FileTree.maxPathBytes := by
  rw [isListable, Bool.or_eq_true, FileTree.fits, decide_eq_true_eq]
  exact or_iff_right (by simp [listedDepth])

theorem all_isListable_iff : (tree.foldersBelow location listedDepth).all (isListable folder) = true ↔
    ∀ name, tree.get? (location ++ [name]) = some .folder →
      (folder.join ⟨name⟩).text.utf8ByteSize ≤ FileTree.maxPathBytes := by
  rw [List.all_eq_true]
  constructor
  · intro h name hn
    exact isListable_singleton.1 (h [name] (FileTree.mem_foldersBelow.2 ⟨by simp, by simp [listedDepth], hn⟩))
  · intro h names hn
    obtain ⟨hne, hdepth, hg⟩ := FileTree.mem_foldersBelow.1 hn
    cases names with
    | nil => exact absurd rfl hne
    | cons name rest =>
      cases rest with
      | nil => exact isListable_singleton.2 (h name hg)
      | cons next rest =>
        -- Nothing has to be looked for in the folders of the second level.
        cases rest with
        | nil => rfl
        | cons _ _ => simp [listedDepth] at hdepth

theorem addInclude_eq_error : addInclude settings tree name listed path = .error e ↔
    IncludeFault settings tree path e := by
  rw [addInclude, bind_eq_error, includeFolder_eq_error, Include.resolve_eq_error]
  constructor
  · rintro (((⟨hs, rfl⟩ | ⟨package, inside, hs, hp, rfl⟩) | ⟨folder, hr, hf, rfl⟩) |
      ⟨⟨folder, location⟩, hfound, h⟩)
    · exact .unnamedPackage hs
    · exact .package hs hp
    · exact .folder hr hf
    · dsimp only at h
      split at h
      · cases h
      · rename_i hlong
        cases h
        rw [all_isListable_iff] at hlong
        push Not at hlong
        obtain ⟨next, hn, hlong⟩ := hlong
        obtain ⟨hr, hl, hf⟩ := includeFolder_eq_ok.1 hfound
        exact .listing hr hl hf hn hlong
  · intro h
    cases h with
    | unnamedPackage hs => exact .inl (.inl (.inl ⟨hs, rfl⟩))
    | package hs hp => exact .inl (.inl (.inr ⟨_, _, hs, hp, rfl⟩))
    | folder hr hf => exact .inl (.inr ⟨_, hr, hf, rfl⟩)
    | listing hr hl hf hn hlong =>
      refine .inr ⟨_, includeFolder_eq_ok.2 ⟨hr, hl, hf⟩, ?_⟩
      dsimp only
      rw [if_neg fun hall => Nat.not_le.2 hlong (all_isListable_iff.1 hall _ hn)]
      rfl

theorem listable_iff : Listable settings tree path ↔ ∀ e, ¬IncludeFault settings tree path e := by
  have hok : Listable settings tree path ↔ ∃ folders, addInclude settings tree "" [] path = .ok folders := by
    constructor
    · rintro ⟨folder, location, hr, hl, hf, hall⟩
      rw [addInclude_eq (includeFolder_eq_ok.2 ⟨hr, hl, hf⟩), if_pos (all_isListable_iff.2 hall)]
      exact ⟨_, rfl⟩
    · rintro ⟨folders, h⟩
      obtain ⟨⟨folder, location⟩, hfound, -⟩ := bind_eq_ok.1 h
      obtain ⟨hr, hl, hf⟩ := includeFolder_eq_ok.1 hfound
      rw [addInclude_eq hfound] at h
      split at h
      · rename_i hall
        exact ⟨folder, location, hr, hl, hf, all_isListable_iff.1 hall⟩
      · cases h
  rw [hok, exists_ok_iff]
  exact forall_congr' fun e => not_congr addInclude_eq_error

theorem mapM_reference_eq_error : db.dependencies.mapM (Project.reference settings previous db) = .error e ↔
    FirstFault (DependencyFault settings previous db) db.dependencies e :=
  mapM_eq_error fun _ _ => reference_eq_error

theorem listFolders_eq_error : listFolders settings tree db = .error e ↔
    FirstFault (IncludeFault settings tree) db.includes e := by
  have hstep : ∀ listed path e, addInclude settings tree db.name listed path = .error e ↔
      IncludeFault settings tree path e :=
    fun _ _ _ => addInclude_eq_error
  rw [listFolders, foldlM_eq_error hstep]

theorem assemble_eq_error : assemble settings tree previous guid db = .error e ↔
    db.dependencies.mapM (Project.reference settings previous db) = .error e ∨
      (∃ references, db.dependencies.mapM (Project.reference settings previous db) = .ok references) ∧
        listFolders settings tree db = .error e := by
  have hfolders : ∀ references, (do
      let folders ← listFolders settings tree db
      return ({
        name := db.name
        guid
        schemaProvider := db.platform.schemaProvider db.version
        warningsAsErrors := db.warningsAsErrors
        references
        hasComparison := db.comparison.isSome
        folders } : Project)) = .error e ↔ listFolders settings tree db = .error e := by
    intro references
    rw [bind_eq_error, or_iff_left]
    rintro ⟨folders, -, h⟩
    cases h
  rw [assemble, bind_eq_error]
  simp only [hfolders, exists_and_right]

/-- A project is assembled exactly if all dependencies resolve and all includes can be listed. Otherwise
the first dependency that does not resolve is the error, and the first include that cannot be listed if
all dependencies resolve. A project refers to what its dependencies become, in their order. -/
theorem assembled_unless_first_fault (settings : Settings) (tree : FileTree) (previous : List Project)
    (guid : String) (db : Database) :
    ((∃ project, assemble settings tree previous guid db = .ok project) ↔
      (∀ dependency ∈ db.dependencies, Resolves settings previous db dependency) ∧
        ∀ path ∈ db.includes, Listable settings tree path) ∧
    (∀ e, assemble settings tree previous guid db = .error e ↔
      FirstFault (DependencyFault settings previous db) db.dependencies e ∨
        (∀ dependency ∈ db.dependencies, Resolves settings previous db dependency) ∧
          FirstFault (IncludeFault settings tree) db.includes e) ∧
    ∀ project, assemble settings tree previous guid db = .ok project →
      List.Forall₂ (Becomes settings previous db) db.dependencies project.references := by
  have hresolve : (∃ references, db.dependencies.mapM (Project.reference settings previous db) =
      .ok references) ↔ ∀ dependency ∈ db.dependencies, Resolves settings previous db dependency := by
    simp only [exists_ok_iff, ne_eq, mapM_reference_eq_error, forall_not_firstFault, resolves_iff]
  have herror : ∀ e, assemble settings tree previous guid db = .error e ↔
      FirstFault (DependencyFault settings previous db) db.dependencies e ∨
        (∀ dependency ∈ db.dependencies, Resolves settings previous db dependency) ∧
          FirstFault (IncludeFault settings tree) db.includes e := by
    intro e
    rw [assemble_eq_error, mapM_reference_eq_error, hresolve, listFolders_eq_error]
  refine ⟨?_, herror, fun project h => ?_⟩
  · rw [exists_ok_iff]
    simp only [ne_eq, herror, not_or, not_and, forall_and, forall_not_firstFault, ← resolves_iff]
    refine and_congr_right fun hall => ?_
    simp only [listable_iff, ← forall_not_firstFault]
    exact ⟨fun h e => h e hall, fun h e _ => h e⟩
  · exact (assembled_of_assemble h).references.imp fun _ _ => reference_eq_ok.1

def mixedDependencies : Database :=
  { Database.ofDecl (DatabaseDecl.named "Shop") with
    dependencies := [⟨.dacpac, "libs\\Common.dacpac"⟩, ⟨.database, "Core"⟩, ⟨.system, "msdb"⟩]
    includes := ["second"] }

theorem mixed_dependencies_assembled :
    let settings : Settings := ⟨⟨"/out"⟩, ⟨"/project"⟩, some "Enterprise", ∅⟩
    let core : Project := ⟨"Core", "{1}", "", false, [], false, []⟩
    ∃ project, assemble settings overlappingTree [core] "{2}" mixedDependencies = .ok project ∧
      project.references = [.dacpac "Common.dacpac", .project "Core" "{1}", .system "msdb"
        ("C:\\Program Files (x86)\\Microsoft Visual Studio\\2019\\Enterprise\\Common7\\IDE\\Extensions\\" ++
          "Microsoft\\SQLDB\\Extensions\\SqlServer\\150\\SqlSchemas\\msdb.dacpac")] ∧
      List.Forall₂ (Becomes settings [core] mixedDependencies) mixedDependencies.dependencies
        project.references ∧
      ∀ path ∈ mixedDependencies.includes, Listable settings overlappingTree path := by
  intro settings core
  have hassembled : ((assemble settings overlappingTree [core] "{2}" mixedDependencies).toOption.map
      Project.references) = some [.dacpac "Common.dacpac", .project "Core" "{1}", .system "msdb"
        ("C:\\Program Files (x86)\\Microsoft Visual Studio\\2019\\Enterprise\\Common7\\IDE\\Extensions\\" ++
          "Microsoft\\SQLDB\\Extensions\\SqlServer\\150\\SqlSchemas\\msdb.dacpac")] := by
    unfold assemble listFolders addInclude FileTree.foldersBelow
    rw [FileTree.below_eq_insertionSort]
    decide +kernel
  obtain ⟨project, hproject, hreferences⟩ := Option.map_eq_some_iff.1 hassembled
  have hok := toOption_eq_some.1 hproject
  obtain ⟨hsuccess, -, hbecomes⟩ :=
    assembled_unless_first_fault settings overlappingTree [core] "{2}" mixedDependencies
  exact ⟨project, hok, hreferences, hbecomes project hok, (hsuccess.1 ⟨project, hok⟩).2⟩

end Project

namespace Path

variable {base : Path} {name : String} {names : List String}

/-- There is no separator at the end of the path. -/
def EndsInName (path : Path) : Prop := path.text.toList.getLast?.all (· == '/') = false

theorem EndsInName.join_eq (h : base.EndsInName) (hs : '/' ∉ name.toList) :
    base.join ⟨name⟩ = ⟨base.text ++ "/" ++ name⟩ := by
  have hopen : ¬base.text.toList.getLast?.all (· == '/') = true := by
    rw [h]
    exact Bool.false_ne_true
  rw [join, if_neg (by simp [isAbsolute_of_no_separator hs]), if_neg hopen]

theorem EndsInName.utf8ByteSize_join (h : base.EndsInName) (hs : '/' ∉ name.toList) :
    (base.join ⟨name⟩).text.utf8ByteSize = base.text.utf8ByteSize + 1 + name.utf8ByteSize := by
  rw [h.join_eq hs, String.utf8ByteSize_append, String.utf8ByteSize_append]
  rfl

/-- A path ends in the name that is joined to it. -/
theorem endsInName_join (hne : name ≠ "") (hs : '/' ∉ name.toList) : (base.join ⟨name⟩).EndsInName := by
  obtain ⟨front, last, he⟩ := (List.eq_nil_or_concat' name.toList).resolve_left
    (by rwa [ne_eq, ← String.toList_eq_nil_iff] at hne)
  have hlast : last ≠ '/' := by
    rintro rfl
    exact hs (by simp [he])
  obtain ⟨before, htext⟩ : ∃ before, (base.join ⟨name⟩).text = before ++ name := by
    rw [join, if_neg (by simp [isAbsolute_of_no_separator hs])]
    split
    · exact ⟨_, rfl⟩
    · exact ⟨_, rfl⟩
  rw [EndsInName, htext, String.toList_append, he, ← List.append_assoc, List.getLast?_concat]
  simpa using hlast

theorem EndsInName.joinAll (h : base.EndsInName) (hn : ∀ name ∈ names, name ≠ "" ∧ '/' ∉ name.toList) :
    (base.joinAll names).EndsInName := by
  induction names generalizing base with
  | nil => exact h
  | cons name rest ih =>
    rw [List.forall_mem_cons] at hn
    exact ih (endsInName_join hn.1.1 hn.1.2) hn.2

theorem joinAll_concat : base.joinAll (names ++ [name]) = (base.joinAll names).join ⟨name⟩ := by
  rw [joinAll, List.foldl_append]
  rfl

end Path

/-- A path that leads through folders leads somewhere, if it is not too long. -/
theorem FileTree.locate?_of_way {tree : FileTree} {path : Path} {place : Location} (ht : path.text ≠ "")
    (hfit : fits path = true) (hd : path.target? tree.workingFolder = some place)
    (hf : ∀ x ∈ path.way tree.workingFolder, tree.get? x = some .folder) : tree.locate? path = some place := by
  have hfollow : tree.follow? (path.origin tree.workingFolder) (path.fields ++ []) = some place :=
    follow?_append_of_route (Path.target?_eq_descend? ▸ hd) fun x hx => hf x (Path.mem_way.2 hx)
  rw [List.append_nil] at hfollow
  exact locate?_eq_some.2 ⟨ht, hfit, hfollow⟩

/-- Names with separators between them are the segments. -/
theorem Include.segments_intercalate {names : List String}
    (h : ∀ name ∈ names, name ≠ "" ∧ ∀ c ∈ name.toList, isSeparator c = false) :
    segments ("/".intercalate names) = names := by
  cases names with
  | nil => rfl
  | cons name rest =>
    induction rest generalizing name with
    | nil =>
      rw [List.forall_mem_singleton] at h
      rw [String.intercalate_singleton, segments, List.splitOnP_eq_singleton h.2]
      simp [h.1]
    | cons next rest ih =>
      rw [List.forall_mem_cons] at h
      have hrest := ih next h.2
      rw [segments] at hrest ⊢
      rw [String.intercalate_cons_cons, String.toList_append, String.toList_append,
        show "/".toList = ['/'] from rfl, List.append_assoc, List.singleton_append,
        List.splitOnP_append_cons _ _ (show isSeparator '/' = true from rfl),
        List.splitOnP_eq_singleton h.1.2, List.filter_append, List.map_append, hrest]
      simp [h.1.1]

namespace Project

variable {settings : Settings} {name : String} {points : Nat}

/-- A folder with points behind it, which make a path to it longer. -/
def dottedFolder (points : Nat) : List String := "Inc" :: List.replicate points "."

def dottedInclude : Database :=
  { Database.ofDecl (DatabaseDecl.named "D") with includes := ["/".intercalate (dottedFolder 1950)] }

/-- The longest name that a folder can have. -/
def longName : String := String.ofList (List.replicate 255 'x')

def longNamedTree : FileTree :=
  FileTree.ofEntries [(["work"], .folder), (["work", "project"], .folder),
    (["work", "project", "Inc"], .folder), (["work", "project", "Inc", longName], .folder)]

theorem get?_longNamedTree : longNamedTree.get? ["work", "project", "Inc"] = some .folder ∧
    longNamedTree.get? ["work", "project", "Inc", longName] = some .folder := by
  constructor <;> simp [longNamedTree, FileTree.ofEntries, FileTree.get?_put]

theorem separator_not_mem_longName : '/' ∉ longName.toList := by
  have hchars : longName.toList = List.replicate 255 'x' := String.toList_ofList
  rw [hchars]
  intro hm
  cases List.eq_of_mem_replicate hm

theorem eq_of_mem_dottedFolder (h : name ∈ dottedFolder points) : name = "Inc" ∨ name = "." := by
  rcases List.mem_cons.1 h with rfl | h
  · exact .inl rfl
  · exact .inr (List.eq_of_mem_replicate h)

theorem ne_empty_of_mem_dottedFolder (h : name ∈ dottedFolder points) :
    name ≠ "" ∧ '/' ∉ name.toList := by
  rcases eq_of_mem_dottedFolder h with rfl | rfl <;> decide

theorem endsInName_dottedFolder (points : Nat) :
    ((Path.mk "/work/project").joinAll (dottedFolder points)).EndsInName := by
  have hproject : (Path.mk "/work/project").EndsInName := by
    rw [Path.EndsInName]
    decide
  exact hproject.joinAll fun name => ne_empty_of_mem_dottedFolder

theorem utf8ByteSize_dottedFolder (points : Nat) :
    ((Path.mk "/work/project").joinAll (dottedFolder points)).text.utf8ByteSize = 17 + 2 * points := by
  induction points with
  | zero => decide
  | succ points ih =>
    have hlast : dottedFolder (points + 1) = dottedFolder points ++ ["."] := by
      rw [dottedFolder, List.replicate_succ']
      rfl
    rw [hlast, Path.joinAll_concat, (endsInName_dottedFolder points).utf8ByteSize_join (by decide), ih]
    change 17 + 2 * points + 1 + 1 = _
    omega

theorem resolve_dottedFolder (settings : Settings) (points : Nat) :
    Include.resolve settings.projectFolder settings.packages ("/".intercalate (dottedFolder points)) =
      .ok (settings.projectFolder.joinAll (dottedFolder points)) := by
  rw [Include.resolve, Include.segments_intercalate fun name hn => ?_]
  · rfl
  · rcases eq_of_mem_dottedFolder hn with rfl | rfl <;> simp [Include.isSeparator]

theorem locate?_dottedFolder (h : 17 + 2 * points ≤ FileTree.maxPathBytes) :
    longNamedTree.locate? ((Path.mk "/work/project").joinAll (dottedFolder points)) =
      some ["work", "project", "Inc"] := by
  have hsize := utf8ByteSize_dottedFolder points
  have hplain : ∀ name ∈ dottedFolder points, '/' ∉ name.toList := fun name hn =>
    (ne_empty_of_mem_dottedFolder hn).2
  have hparts : ((Path.mk "/work/project").joinAll (dottedFolder points)).parts =
      ["work", "project", "Inc"] := by
    rw [Path.parts_joinAll hplain, dottedFolder, List.filter_cons_of_pos (by decide),
      List.filter_replicate_of_neg (by decide)]
    decide
  have horigin : ((Path.mk "/work/project").joinAll (dottedFolder points)).origin
      longNamedTree.workingFolder = [] := by
    rw [Path.origin, Path.isAbsolute_joinAll hplain]
    rfl
  apply FileTree.locate?_of_way
  · intro hempty
    rw [hempty, String.utf8ByteSize_empty] at hsize
    omega
  · rw [FileTree.fits, hsize, decide_eq_true_eq]
    exact h
  · rw [Path.target?, hparts, horigin]
    decide
  · rw [Path.way, hparts, horigin]
    decide

/-- The folder is there, but what is in the folder in it cannot be looked for. -/
theorem fault_dottedFolder (hfolder : settings.projectFolder = ⟨"/work/project"⟩)
    (h : 17 + 2 * points ≤ FileTree.maxPathBytes) (hlong : FileTree.maxPathBytes < 17 + 2 * points + 256) :
    IncludeFault settings longNamedTree ("/".intercalate (dottedFolder points))
      (.unreadable ((Path.mk "/work/project").joinAll (dottedFolder points))) := by
  have hresolve : Include.resolve settings.projectFolder settings.packages
      ("/".intercalate (dottedFolder points)) =
        .ok ((Path.mk "/work/project").joinAll (dottedFolder points)) := by
    rw [resolve_dottedFolder, hfolder]
  have hbytes : longName.utf8ByteSize = 255 := by decide +kernel
  obtain ⟨houter, hinner⟩ := get?_longNamedTree
  refine .listing hresolve (locate?_dottedFolder h) houter hinner ?_
  rw [(endsInName_dottedFolder points).utf8ByteSize_join separator_not_mem_longName,
    utf8ByteSize_dottedFolder, hbytes]
  exact hlong

/-- So a project is not assembled although all its includes lead to folders. -/
theorem dotted_include_not_listed :
    let settings : Settings := ⟨⟨"/out"⟩, ⟨"/work/project"⟩, none, ∅⟩
    dottedInclude.dependencies = [] ∧
      (∀ path ∈ dottedInclude.includes, ∃ folder,
        Include.resolve settings.projectFolder settings.packages path = .ok folder ∧
          longNamedTree.isFolder folder = true) ∧
      ∃ folder, assemble settings longNamedTree [] "{1}" dottedInclude = .error (.unreadable folder) := by
  intro settings
  have hshort : 17 + 2 * 1950 ≤ FileTree.maxPathBytes := by decide
  have hfault : FirstFault (IncludeFault settings longNamedTree) dottedInclude.includes
      (.unreadable ((Path.mk "/work/project").joinAll (dottedFolder 1950))) :=
    ⟨[], _, [], rfl, by simp, fault_dottedFolder rfl hshort (by decide)⟩
  refine ⟨rfl, ?_, _, assemble_eq_error.2 (.inr ⟨⟨[], rfl⟩, listFolders_eq_error.2 hfault⟩)⟩
  rw [dottedInclude, List.forall_mem_singleton]
  exact ⟨_, resolve_dottedFolder settings 1950,
    FileTree.isFolder_iff.2 ⟨_, locate?_dottedFolder hshort, get?_longNamedTree.1⟩⟩

end Project

end DatabaseProject
