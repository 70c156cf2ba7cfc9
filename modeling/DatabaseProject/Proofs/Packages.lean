import DatabaseProject.Proofs.ProjectReferences
import DatabaseProject.Proofs.Replay

/-!
# Packages next to a solution

A reference to a package names a file next to the solution. The first package of that file name is
copied there, and later ones find it present, whichever databases depend on them. `Builds` lists what
can happen to a tree while a solution is generated; in a folder that was not there before, it follows
what a package file holds in the end.
-/

namespace DatabaseProject

open FileTree Outcome

/-- Where a path has a last segment, it is the last of its segments. -/
theorem Include.segments_of_lastSegment {path : String} (h : lastSegment path ≠ "") :
    ∃ front, segments path = front ++ [lastSegment path] := by
  obtain hnil | ⟨front, last, he⟩ := List.eq_nil_or_concat' (path.toList.splitOnP isSeparator)
  · exact absurd hnil (List.splitOnP_ne_nil _ _)
  · have hlast : lastSegment path = String.ofList last := by
      rw [lastSegment, he, List.getLastD_concat]
    have hne : last.isEmpty = false := by
      cases last with
      | nil => exact absurd hlast h
      | cons c rest => rfl
    refine ⟨(front.filter (!·.isEmpty)).map String.ofList, ?_⟩
    rw [segments, he, List.filter_append, List.map_append, hlast]
    simp [hne]

namespace FileTree

variable {tree old new : FileTree} {here last place : Location} {way : List Location}
  {front : List String} {field : String} {content : File}

/-- The last field of a path is followed from a folder. -/
theorem step?_of_follow? (h : tree.follow? here (front ++ [field]) = some last) :
    ∃ before, tree.get? before = some .folder ∧ step? before field = some last := by
  induction front generalizing here with
  | nil =>
    rw [List.nil_append, follow?] at h
    split at h
    · rename_i hfolder
      obtain ⟨next, hstep, hnext⟩ := Option.bind_eq_some_iff.1 h
      cases hnext
      exact ⟨here, hfolder, hstep⟩
    · cases h
  | cons first front ih =>
    rw [List.cons_append, follow?] at h
    split at h
    · obtain ⟨next, -, hrest⟩ := Option.bind_eq_some_iff.1 h
      exact ih hrest
    · cases h

/-- A file that is put somewhere takes nothing away. -/
theorem Placed.coveredBy (h : Placed way place content old new) : old.CoveredBy new := by
  refine ⟨h.workingFolder_eq, fun x entry hx => ?_⟩
  rw [h.get?_eq]
  split_ifs with hplace hway
  · cases entry with
    | file before => exact ⟨_, rfl, .file before content⟩
    | folder => exact absurd (hplace ▸ hx) h.place_free
  · cases entry with
    | file before => exact absurd hx (h.way_free x hway before)
    | folder => exact ⟨_, rfl, .folder⟩
  · exact ⟨entry, hx, .refl entry⟩

end FileTree

namespace Generate

variable {settings : Settings} {folder : Path} {db : Database} {name : String} {tree new : FileTree}
  {content : File}

/-- A package file that can be read does not end in `.`. -/
theorem lastSegment_ne_dot (h : tree.read? (dacpacSource settings name) = some content) :
    Include.lastSegment name ≠ "." := by
  intro hdot
  have hne : Include.lastSegment name ≠ "" := by
    rw [hdot]
    decide
  obtain ⟨front, hsegments⟩ := Include.segments_of_lastSegment hne
  rw [hdot] at hsegments
  have hsource : dacpacSource settings name = (settings.projectFolder.joinAll front).join ⟨"."⟩ := by
    rw [dacpacSource, hsegments, Path.joinAll, List.foldl_append]
    rfl
  obtain ⟨place, hl, hfile⟩ := read?_eq_some.1 h
  obtain ⟨-, -, hfollow⟩ := locate?_eq_some.1 hl
  obtain ⟨fields, hfields, -⟩ := Path.fields_join (settings.projectFolder.joinAll front)
    (Path.isAbsolute_of_no_separator (by decide) : (Path.mk ".").isAbsolute = false)
  rw [hsource, hfields, Path.fields_of_no_separator (by decide)] at hfollow
  obtain ⟨before, hfolder, hstep⟩ := step?_of_follow? hfollow
  rw [step?_of_isFiller (by decide)] at hstep
  obtain rfl := Option.some.inj hstep
  rw [hfolder] at hfile
  cases hfile

/-- A package file is left alone where there is something under its name, and is stored in the folder
otherwise. -/
theorem copyDacpac_cases (hh : tree.get? tree.workingFolder = some .folder)
    (h : copyDacpac settings folder db name tree = .ok new) :
    ∃ content, tree.read? (dacpacSource settings name) = some content ∧
      (tree.exists? (folder.join ⟨Include.lastSegment name⟩) = true ∧ new = tree ∨
        tree.exists? (folder.join ⟨Include.lastSegment name⟩) = false ∧
        isName (Include.lastSegment name) = true ∧
        fits (folder.join ⟨Include.lastSegment name⟩) = true ∧
        ∃ place, folder.target? tree.workingFolder = some place ∧
          Placed (folder.way tree.workingFolder) (place ++ [Include.lastSegment name]) content tree new) := by
  obtain ⟨content, hread, ⟨hexists, rfl⟩ | ⟨hexists, hne, hstore⟩⟩ := copyDacpac_stores h
  · exact ⟨content, hread, .inl ⟨hexists, rfl⟩⟩
  obtain ⟨way, target, hplace, hplaced⟩ := store_eq_ok hh hstore
  obtain ⟨place, last, -, hfit, hi, hlast, rfl, hd, rfl⟩ := Path.placeIn?_eq_some.1 hplace
  obtain ⟨parent, -, -, hparts⟩ := Path.parent_of_fileName hlast
  have hsep := Include.no_separator_lastSegment name
  have hfiller : Path.isFiller (Include.lastSegment name) = false := by
    by_contra hfiller
    rcases Path.isFiller_iff.1 (Bool.not_eq_false _ ▸ hfiller) with he | he
    · exact hne he
    · exact lastSegment_ne_dot hread he
  rw [Path.parts_join (Path.isAbsolute_of_no_separator hsep), Path.parts_of_no_separator hsep,
    List.filter_singleton, hfiller] at hparts
  obtain rfl : Include.lastSegment name = last := List.singleton_inj.1 (List.append_inj' hparts rfl).2
  exact ⟨content, hread, .inr ⟨hexists, hi, hfit, place, by rw [Path.target?_eq_descend?, hd],
    hplaced.congr fun x => Path.mem_way.symm⟩⟩

/-- Where a solution writes its files, packages apart. Of its includes it writes what a tree holds. -/
inductive ArtifactPath (settings : Settings) (decl : SolutionDecl) (tree : FileTree) : Path → Prop
  | descriptor {db : Database} (hdb : db ∈ projectDatabases decl) : ArtifactPath settings decl tree
      ((settings.outputFolder.join ⟨decl.name⟩).join ⟨db.name ++ ".sqlproj"⟩)
  | comparison {db : Database} (hdb : db ∈ projectDatabases decl) (hc : db.comparison.isSome = true) :
      ArtifactPath settings decl tree
        ((settings.outputFolder.join ⟨decl.name⟩).join ⟨db.name ++ ".scmp"⟩)
  | included {db : Database} {path : String} {inside : Location} {rest : List String}
      {content : File} (hdb : db ∈ projectDatabases decl) (hp : path ∈ db.includes)
      (hi : includePlace? settings tree.workingFolder path = some inside) (hne : rest ≠ [])
      (hf : tree.get? (inside ++ rest) = some (.file content)) :
      ArtifactPath settings decl tree (includeTarget (settings.outputFolder.join ⟨decl.name⟩) db rest)
  | script {db : Database} {scripts : List ScriptFile} {script : ScriptFile}
      (hdb : db ∈ projectDatabases decl) (hs : db.scripts = .ok scripts) (hm : script ∈ scripts) :
      ArtifactPath settings decl tree
        (((settings.outputFolder.join ⟨decl.name⟩).join ⟨db.name⟩).join script.path)
  | solution (hne : projectDatabases decl ≠ []) : ArtifactPath settings decl tree
      ((settings.outputFolder.join ⟨decl.name⟩).join ⟨decl.name ++ ".sln"⟩)

/-- One tree becomes another while a solution is generated: its files are written, and packages are
copied, which are named in their order. -/
inductive Builds (settings : Settings) (decl : SolutionDecl) (initial : FileTree) :
    List String → FileTree → Prop
  | start : Builds settings decl initial [] initial
  | written {names : List String} {old new : FileTree} {path : Path} {way : List Location}
      {place : Location} {content : File} (before : Builds settings decl initial names old)
      (hpath : ArtifactPath settings decl old path)
      (hplace : path.place? old.workingFolder = some (way, place))
      (hplaced : Placed way place content old new) : Builds settings decl initial names new
  | copied {names : List String} {old new : FileTree} {db : Database} {name : String}
      (before : Builds settings decl initial names old)
      (hcopy : copyDacpac settings (settings.outputFolder.join ⟨decl.name⟩) db name old = .ok new) :
      Builds settings decl initial (names ++ [name]) new

variable {decl : SolutionDecl} {initial old : FileTree} {names more : List String}

theorem ArtifactPath.mono {path : Path} (h : ArtifactPath settings decl old path)
    (hc : old.CoveredBy new) : ArtifactPath settings decl new path := by
  cases h with
  | descriptor hdb => exact .descriptor hdb
  | comparison hdb hsome => exact .comparison hdb hsome
  | included hdb hp hi hne hf =>
    obtain ⟨later, hlater⟩ := hc.file hf
    exact .included hdb hp (hc.workingFolder_eq ▸ hi) hne hlater
  | script hdb hs hm => exact .script hdb hs hm
  | solution hne => exact .solution hne

namespace Builds

theorem trans (h : Builds settings decl initial names old) (h' : Builds settings decl old more new) :
    Builds settings decl initial (names ++ more) new := by
  induction h' with
  | start => rwa [List.append_nil]
  | written _ hpath hplace hplaced ih => exact .written ih hpath hplace hplaced
  | copied _ hcopy ih =>
    rw [← List.append_assoc]
    exact .copied ih hcopy

theorem covered (h : Builds settings decl initial names new) : initial.CoveredBy new := by
  induction h with
  | start => exact .refl _
  | written _ _ _ hplaced ih => exact ih.trans hplaced.coveredBy
  | copied _ hcopy ih => exact ih.trans (keptBy_copyDacpac hcopy).toCoveredBy

end Builds

section

variable {ids : Nat → String} {s t : RunState}

theorem builds_write {path : Path} {content : ByteArray}
    (hh : s.tree.get? s.tree.workingFolder = some .folder)
    (hpath : ArtifactPath settings decl s.tree path)
    (h : (Run.onTree (·.write path content)).exec s = (.ok (), t)) :
    Builds settings decl s.tree [] t.tree := by
  obtain ⟨way, place, hplace, hplaced⟩ := write_eq_ok hh (Run.exec_onTree_eq_ok.1 h).1
  exact .written .start hpath hplace hplaced

/-- The steps of a loop build one after the other, each behind what is there from the start. -/
theorem builds_forM {α : Type} {xs : List α} {f : α → Run Unit} {packages : α → List String}
    (hstep : ∀ a ∈ xs, ∀ u v, s.tree.CoveredBy u.tree → (f a).exec u = (.ok (), v) →
      Builds settings decl u.tree (packages a) v.tree)
    (h : (xs.forM f).exec s = (.ok (), t)) :
    Builds settings decl s.tree (xs.flatMap packages) t.tree := by
  induction xs generalizing s with
  | nil =>
    cases h
    exact .start
  | cons a xs ih =>
    obtain ⟨middle, ha, hrest⟩ := Run.exec_forM_cons.1 h
    rw [List.forall_mem_cons] at hstep
    have hfirst := hstep.1 s middle (.refl _) ha
    rw [List.flatMap_cons]
    exact hfirst.trans (ih (fun b hb u v hu => hstep.2 b hb u v (hfirst.covered.trans hu)) hrest)

theorem builds_files {α : Type} {xs : List α} {f : α → Run Unit}
    (hstep : ∀ a ∈ xs, ∀ u v, s.tree.CoveredBy u.tree → (f a).exec u = (.ok (), v) →
      Builds settings decl u.tree [] v.tree)
    (h : (xs.forM f).exec s = (.ok (), t)) : Builds settings decl s.tree [] t.tree := by
  have hall := builds_forM hstep h
  rwa [List.flatMap_eq_nil_iff.2 fun _ _ => rfl] at hall

theorem builds_copyEntry {path : String} {source : Path} {inside : Location} {rest : List String}
    {entry found : FileEntry} (hdb : db ∈ projectDatabases decl) (hp : path ∈ db.includes)
    (hh : s.tree.get? s.tree.workingFolder = some .folder)
    (hi : includePlace? settings s.tree.workingFolder path = some inside) (hne : rest ≠ [])
    (hget : s.tree.get? (inside ++ rest) = some found) (hkind : entry.SameKind found)
    (h : (copyEntry source ((settings.outputFolder.join ⟨decl.name⟩).join ⟨db.name⟩)
      (rest, entry)).exec s = (.ok (), t)) : Builds settings decl s.tree [] t.tree := by
  unfold copyEntry at h
  cases hkind with
  | folder =>
    dsimp only at h
    split_ifs at h
    · obtain rfl := (Prod.mk.inj h).2
      exact .start
    · exact nomatch (Prod.mk.inj h).1
  | file =>
    dsimp only at h
    obtain ⟨way, place, _, _, _, hplace, -, -, -, hplaced⟩ :=
      copy_eq_ok hh (Run.exec_onTree_eq_ok.1 h).1
    exact .written .start (.included hdb hp hi hne hget) hplace hplaced

theorem builds_copyInclude {path : String} (hdb : db ∈ projectDatabases decl) (hp : path ∈ db.includes)
    (hh : s.tree.get? s.tree.workingFolder = some .folder)
    (h : (copyInclude settings ((settings.outputFolder.join ⟨decl.name⟩).join ⟨db.name⟩) path).exec s =
      (.ok (), t)) : Builds settings decl s.tree [] t.tree := by
  simp only [copyInclude, Run.exec_get_bind, Run.exec_liftM_bind] at h
  cases hf : Project.includeFolder settings s.tree path with
  | error e =>
    rw [hf] at h
    cases h
  | ok found =>
    obtain ⟨source, inside⟩ := found
    rw [hf] at h
    have hi := (includePlace?_of_includeFolder hf).1
    refine builds_files (fun entry he u v hu hx => ?_) h
    obtain ⟨hne, hget⟩ := mem_below.1 he
    obtain ⟨found, hfound, hkind⟩ := hu.entries _ _ hget
    exact builds_copyEntry hdb hp (hu.home hh) (hu.workingFolder_eq ▸ hi) hne hfound hkind hx

theorem builds_writeComparison {project : Project} (hdb : db ∈ projectDatabases decl)
    (hname : project.name = db.name) (hh : s.tree.get? s.tree.workingFolder = some .folder)
    (h : (writeComparison (settings.outputFolder.join ⟨decl.name⟩) project db).exec s = (.ok (), t)) :
    Builds settings decl s.tree [] t.tree := by
  unfold writeComparison at h
  cases hc : db.comparison with
  | none =>
    rw [hc] at h
    cases h
    exact .start
  | some options =>
    rw [hc, Option.forM, Project.comparisonFileName, hname] at h
    exact builds_write hh (.comparison hdb (by rw [hc]; rfl)) h

theorem builds_copyDacpacs
    (h : (copyDacpacs settings (settings.outputFolder.join ⟨decl.name⟩) db).exec s = (.ok (), t)) :
    Builds settings decl s.tree (dacpacs db) t.tree := by
  have hall := builds_forM (fun name _ u v _ hx => .copied .start (Run.exec_onTree_eq_ok.1 hx).1) h
  simpa using hall

theorem builds_finishProject {project : Project} {made : Project × Nat}
    (hdb : db ∈ projectDatabases decl) (hname : project.name = db.name)
    (hh : s.tree.get? s.tree.workingFolder = some .folder)
    (h : (finishProject settings (settings.outputFolder.join ⟨decl.name⟩) db project).exec s =
      (.ok made, t)) : Builds settings decl s.tree (dacpacs db) t.tree := by
  unfold finishProject at h
  rw [Project.fileName, hname] at h
  obtain ⟨_, first, hdescriptor, h⟩ := Run.exec_bind_eq_ok.1 h
  obtain ⟨_, second, hcomparison, h⟩ := Run.exec_bind_eq_ok.1 h
  obtain ⟨_, third, hincludes, h⟩ := Run.exec_bind_eq_ok.1 h
  obtain ⟨_, fourth, hpackages, h⟩ := Run.exec_bind_eq_ok.1 h
  obtain ⟨scripts, fifth, hscripts, h⟩ := Run.exec_bind_eq_ok.1 h
  obtain ⟨_, last, hwrite, hdone⟩ := Run.exec_bind_eq_ok.1 h
  rw [Run.exec_liftM] at hscripts
  obtain ⟨hok, rfl⟩ := Prod.mk.inj hscripts
  obtain rfl := (Prod.mk.inj hdone).2
  have hone := builds_write hh (.descriptor hdb) hdescriptor
  have htwo := builds_writeComparison hdb hname (hone.covered.home hh) hcomparison
  have hhome := htwo.covered.home (hone.covered.home hh)
  have hthree := builds_files (fun path hp u v hu => builds_copyInclude hdb hp (hu.home hhome)) hincludes
  have hfour := builds_copyDacpacs hpackages
  have hhome := hfour.covered.home (hthree.covered.home hhome)
  have hfive := builds_files
    (fun script hm u v hu => builds_write (hu.home hhome) (.script hdb hok hm)) hwrite
  have hall := hone.trans (htwo.trans (hthree.trans (hfour.trans hfive)))
  simpa using hall

theorem builds_generateProjects {done result : List Project × Nat} {dbs : List Database}
    (hdbs : ∀ db ∈ dbs, db ∈ projectDatabases decl)
    (hh : s.tree.get? s.tree.workingFolder = some .folder)
    (h : (generateProjects settings ids (settings.outputFolder.join ⟨decl.name⟩) done dbs).exec s =
      (.ok result, t)) : Builds settings decl s.tree (dbs.flatMap dacpacs) t.tree := by
  induction dbs generalizing done s with
  | nil =>
    cases h
    exact .start
  | cons db dbs ih =>
    rw [List.forall_mem_cons] at hdbs
    rw [generateProjects_cons] at h
    obtain ⟨made, middle, hproject, hrest⟩ := Run.exec_bind_eq_ok.1 h
    rw [generateProject_eq] at hproject
    obtain ⟨project, taken, htake, hfinish⟩ := Run.exec_bind_eq_ok.1 hproject
    obtain ⟨hassemble, htaken⟩ := exec_takeProject_eq_ok.1 htake
    have htree : taken.tree = s.tree := by rw [htaken]
    have hfirst := builds_finishProject hdbs.1 (Project.name_of_assemble hassemble) (htree ▸ hh) hfinish
    rw [htree] at hfirst
    rw [List.flatMap_cons]
    exact hfirst.trans (ih hdbs.2 (hfirst.covered.home hh) hrest)

/-- The packages that the projects of a solution depend on, in the order in which they are copied. -/
def packages (decl : SolutionDecl) : List String := (projectDatabases decl).flatMap dacpacs

/-- A solution that is generated writes its own files and copies its packages, and nothing else. -/
theorem builds_generateSolution {output : SolutionOutput}
    (hh : s.tree.get? s.tree.workingFolder = some .folder)
    (h : (generateSolution settings ids decl).exec s = (.ok output, t)) :
    Builds settings decl s.tree (packages decl) t.tree := by
  obtain ⟨-, done, middle, hprojects, hconclude⟩ := exec_generateSolution_eq_ok.1 h
  have hfirst := builds_generateProjects (fun _ hdb => hdb) hh hprojects
  obtain ⟨made, hmade, hlength, -⟩ := generateProjects_assembled hprojects
  unfold concludeSolution at hconclude
  split at hconclude
  · cases hconclude
    exact hfirst
  · rename_i hne
    obtain ⟨path, written, hwritten, hdone⟩ := Run.exec_bind_eq_ok.1 hconclude
    cases hdone
    obtain ⟨-, -, hwrite⟩ := exec_writeSolution_eq_ok.1 hwritten
    obtain ⟨way, place, hplace, hplaced⟩ := write_eq_ok (hfirst.covered.home hh) hwrite
    refine .written hfirst (.solution fun hnil => hne ?_) hplace hplaced
    rw [hnil, List.length_nil, List.length_eq_zero_iff] at hlength
    rw [hmade, hlength]
    rfl

end

/-- There is neither a folder nor anything that it could hold. -/
def Absent (tree : FileTree) (folder : Path) : Prop :=
  ∀ place ∈ folder.target? tree.workingFolder, ∀ rest, tree.get? (place ++ rest) = none

instance (tree : FileTree) (folder : Path) : Decidable (Absent tree folder) :=
  decidable_of_iff (∀ place ∈ folder.target? tree.workingFolder,
      place ≠ [] ∧ ∀ entry ∈ tree.entries.entries, ¬ place <+: entry.1) <| by
    refine forall₂_congr fun place _ => ⟨fun ⟨hroot, hnone⟩ rest => ?_, fun h => ⟨?_, ?_⟩⟩
    · rw [get?, if_neg fun he => hroot (List.append_eq_nil_iff.1 he).1, OrderedMap.get?_eq_none]
      intro hkey
      obtain ⟨entry, he, hplace⟩ := List.mem_map.1 hkey
      exact hnone entry he ⟨rest, hplace.symm⟩
    · rintro rfl
      exact nomatch h []
    · rintro entry he ⟨rest, hplace⟩
      have hnone := h rest
      rw [get?] at hnone
      split at hnone
      · cases hnone
      · rw [hplace, OrderedMap.get?_eq_some.2 he] at hnone
        cases hnone

/-- No file of a solution, packages apart, is written to a place. -/
def NotWritten (settings : Settings) (decl : SolutionDecl) (final : FileTree) (x : Location) : Prop :=
  ∀ path, ArtifactPath settings decl final path → ∀ way place,
    path.place? final.workingFolder = some (way, place) → place ≠ x

/-- Neither a file of a solution, packages apart, nor a folder on the way to one comes to a place. -/
structure LeftFree (settings : Settings) (decl : SolutionDecl) (final : FileTree) (x : Location) :
    Prop where
  folder : x ∉ (settings.outputFolder.join ⟨decl.name⟩).way final.workingFolder
  artifact : ∀ path, ArtifactPath settings decl final path → ∀ way place,
    path.place? final.workingFolder = some (way, place) → place ≠ x ∧ x ∉ way

/-- What is in the place of a package file, when the first package of its name has been copied or
none has: the file has the content that the package had at first, unless the package is written to. -/
def HoldsPackage (settings : Settings) (decl : SolutionDecl) (initial final : FileTree) (file : String)
    (tree : FileTree) : Option String → Prop
  | none => ∀ place ∈ (settings.outputFolder.join ⟨decl.name⟩).target? tree.workingFolder,
      tree.get? (place ++ [file]) = none
  | some first => ∃ content,
      tree.read? ((settings.outputFolder.join ⟨decl.name⟩).join ⟨file⟩) = some content ∧
        ∀ origin original, initial.locate? (dacpacSource settings first) = some origin →
          initial.get? origin = some (.file original) → NotWritten settings decl final origin →
          content = original

variable {final : FileTree} {file : String} {way : List Location} {place origin : Location}
  {original : File} {first : Option String}

/-- A file outside the folder of a solution stays as it is, unless something is written to it. -/
theorem Builds.source_kept (h : Builds settings decl initial names new)
    (hh : initial.get? initial.workingFolder = some .folder)
    (hfresh : Absent initial (settings.outputFolder.join ⟨decl.name⟩))
    (ho : initial.get? origin = some (.file original)) (hkeep : NotWritten settings decl final origin)
    (hfinal : new.CoveredBy final) : new.get? origin = some (.file original) := by
  induction h with
  | start => exact ho
  | @written names old new path way place content before hpath hplace hplaced ih =>
    have hold := hplaced.coveredBy.trans hfinal
    have hget := ih hold
    have hne : place ≠ origin :=
      hkeep path (hpath.mono hold) way place (by rw [hold.workingFolder_eq, hplace])
    exact hplaced.file_eq hget hne.symm
  | @copied names old new db name before hcopy ih =>
    have hget := ih ((keptBy_copyDacpac hcopy).toCoveredBy.trans hfinal)
    obtain ⟨content, -, ⟨-, rfl⟩ | ⟨-, -, -, place, ht, hplaced⟩⟩ :=
      copyDacpac_cases (before.covered.home hh) hcopy
    · exact hget
    · rw [before.covered.workingFolder_eq] at ht
      have hne : origin ≠ place ++ [Include.lastSegment name] := by
        rintro rfl
        rw [hfresh place ht] at ho
        cases ho
      exact hplaced.file_eq hget hne

theorem HoldsPackage.written (h : HoldsPackage settings decl initial final file old first)
    (hfile : Path.IsSegment file) {x : Location} (hplaced : Placed way x content old new)
    (hx : ∀ place ∈ (settings.outputFolder.join ⟨decl.name⟩).target? old.workingFolder,
      x ≠ place ++ [file] ∧ place ++ [file] ∉ way) :
    HoldsPackage settings decl initial final file new first := by
  cases first with
  | none =>
    intro place ht
    rw [hplaced.workingFolder_eq] at ht
    obtain ⟨hne, hway⟩ := hx place ht
    rw [hplaced.get?_eq, if_neg hne.symm, if_neg hway, h place ht]
  | some first =>
    obtain ⟨before, hread, hcontent⟩ := h
    obtain ⟨place, hl, hget⟩ := read?_eq_some.1 hread
    obtain ⟨above, ha, -, rfl⟩ := hfile.target?_join.1 (target?_of_locate? hl)
    obtain ⟨hne, hway⟩ := hx above ha
    refine ⟨before, read?_eq_some.2 ⟨_, hplaced.coveredBy.locate? hl, ?_⟩, hcontent⟩
    rw [hplaced.get?_eq, if_neg hne.symm, if_neg hway, hget]

theorem HoldsPackage.copied (h : HoldsPackage settings decl initial final file old first)
    (hfile : Path.IsSegment file) (hh : old.get? old.workingFolder = some .folder)
    (hway : ∀ place ∈ (settings.outputFolder.join ⟨decl.name⟩).target? old.workingFolder,
      place ++ [file] ∉ (settings.outputFolder.join ⟨decl.name⟩).way old.workingFolder)
    (hsource : ∀ origin original, initial.locate? (dacpacSource settings name) = some origin →
      initial.get? origin = some (.file original) → NotWritten settings decl final origin →
      old.read? (dacpacSource settings name) = some original)
    (hcopy : copyDacpac settings (settings.outputFolder.join ⟨decl.name⟩) db name old = .ok new) :
    HoldsPackage settings decl initial final file new
      (first.or (if Include.lastSegment name = file then some name else none)) := by
  obtain ⟨content, hread, ⟨hexists, rfl⟩ | ⟨hexists, hi, hfit, place, ht, hplaced⟩⟩ :=
    copyDacpac_cases hh hcopy
  · cases first with
    | some first => exact h
    | none =>
      rw [Option.none_or]
      split_ifs with hname
      · subst hname
        obtain ⟨x, entry, hl, hget⟩ := exists?_iff.1 hexists
        obtain ⟨above, ha, -, rfl⟩ := hfile.target?_join.1 (target?_of_locate? hl)
        rw [h above ha] at hget
        cases hget
      · exact h
  · by_cases hname : Include.lastSegment name = file
    · subst hname
      cases first with
      | some first =>
        obtain ⟨before, hbefore, -⟩ := h
        obtain ⟨x, hl, hget⟩ := read?_eq_some.1 hbefore
        rw [exists?_iff.2 ⟨x, _, hl, hget⟩] at hexists
        cases hexists
      | none =>
        rw [Option.none_or, if_pos rfl]
        have hfolder := hplaced.hasFolder_of_way ht
        refine ⟨content, read?_eq_some.2 ⟨_, locate?_join hfolder hi hfit, hplaced.get?_place⟩,
          fun origin original hl ho hkeep => ?_⟩
        exact Option.some.inj (hread.symm.trans (hsource origin original hl ho hkeep))
    · rw [if_neg hname, Option.or_none]
      refine h.written hfile hplaced fun above ha => ⟨?_, hway above ha⟩
      obtain rfl := Option.some.inj (ht.symm.trans ha)
      intro he
      exact hname (List.singleton_inj.1 (List.append_cancel_left he))

/-- The first package of a file name decides what the file holds. -/
theorem Builds.holdsPackage (h : Builds settings decl initial names new)
    (hh : initial.get? initial.workingFolder = some .folder)
    (hfresh : Absent initial (settings.outputFolder.join ⟨decl.name⟩)) (hfile : Path.IsSegment file)
    (hfree : ∀ place ∈ (settings.outputFolder.join ⟨decl.name⟩).target? initial.workingFolder,
      LeftFree settings decl final (place ++ [file]))
    (hfinal : new.CoveredBy final) :
    HoldsPackage settings decl initial final file new
      (names.find? fun name => Include.lastSegment name = file) := by
  induction h with
  | start => exact fun place ht => hfresh place ht [file]
  | @written names old new path way place content before hpath hplace hplaced ih =>
    have hold := hplaced.coveredBy.trans hfinal
    refine (ih hold).written hfile hplaced fun above ha => ?_
    rw [before.covered.workingFolder_eq] at ha
    exact (hfree above ha).artifact path (hpath.mono hold) way place (by rw [hold.workingFolder_eq, hplace])
  | @copied names old new db name before hcopy ih =>
    have hold := (keptBy_copyDacpac hcopy).toCoveredBy.trans hfinal
    have hhome := before.covered.home hh
    rw [List.find?_append, List.find?_singleton]
    simp only [decide_eq_true_eq]
    refine (ih hold).copied hfile hhome (fun above ha => ?_) (fun origin original hl ho hkeep => ?_) hcopy
    · rw [before.covered.workingFolder_eq] at ha
      rw [← hold.workingFolder_eq]
      exact (hfree above ha).folder
    · exact read?_eq_some.2
        ⟨origin, before.covered.locate? hl, before.source_kept hh hfresh ho hkeep hold⟩

/-- The names in the folder of a solution, packages apart: its files, and the folders of projects. -/
def entryNames (decl : SolutionDecl) : List String :=
  (decl.name ++ ".sln") ::
    (projectDatabases decl).flatMap fun db => [db.name ++ ".sqlproj", db.name ++ ".scmp", db.name]

/-- When names are segments, the files of a solution are below its folder, under one of the names. -/
theorem ArtifactPath.leadsTo {path : Path} (h : ArtifactPath settings decl tree path)
    (hn : decl.HasSegmentNames) (hok : (Registry.empty.constructAll decl.databases).1 = .ok ())
    (hw : tree.WellFormed) : ∃ inner last first rest,
      Path.LeadsTo (settings.outputFolder.join ⟨decl.name⟩) inner last path ∧
        inner ++ [last] = first :: rest ∧ first ∈ entryNames decl := by
  have hmem : ∀ db ∈ projectDatabases decl, ∀ name ∈ [db.name ++ ".sqlproj", db.name ++ ".scmp", db.name],
      name ∈ entryNames decl :=
    fun db hdb name hname => List.mem_cons_of_mem _ (List.mem_flatMap.2 ⟨db, hdb, hname⟩)
  cases h with
  | @descriptor db hdb =>
    have hsegment : Path.IsSegment (db.name ++ ".sqlproj") :=
      .of_ending (hasSegmentNames_of_mem hn hok hdb).name.no_separator (by decide) (by decide)
    exact ⟨[], _, _, [], hsegment.leadsTo _, rfl, hmem db hdb _ (by simp)⟩
  | @comparison db hdb =>
    have hsegment : Path.IsSegment (db.name ++ ".scmp") :=
      .of_ending (hasSegmentNames_of_mem hn hok hdb).name.no_separator (by decide) (by decide)
    exact ⟨[], _, _, [], hsegment.leadsTo _, rfl, hmem db hdb _ (by simp)⟩
  | @included db path inside rest content hdb hp hi hne hf =>
    have hparts : ∀ part ∈ rest, isName part = true := fun part hpart =>
      hw.names _ _ hf part (by simp [hpart])
    exact ⟨_, _, _, _, leadsTo_includeTarget (hasSegmentNames_of_mem hn hok hdb).name hne hparts,
      List.cons_append, hmem db hdb _ (by simp)⟩
  | @script db scripts script hdb hs hm =>
    have hnames := hasSegmentNames_of_mem hn hok hdb
    obtain ⟨names, last, hfields, hparts⟩ := hnames.segments_of_mem hs hm
    exact ⟨_, _, _, _, (hnames.name.leadsTo _).join hfields hparts, rfl, hmem db hdb _ (by simp)⟩
  | solution =>
    have hsegment : Path.IsSegment (decl.name ++ ".sln") :=
      .of_ending hn.name.no_separator (by decide) (by decide)
    exact ⟨[], _, _, [], hsegment.leadsTo _, rfl, List.mem_cons_self⟩

/-- Outside the folder of a solution nothing is written. -/
theorem notWritten_of_outside (hn : decl.HasSegmentNames)
    (hok : (Registry.empty.constructAll decl.databases).1 = .ok ()) (hw : final.WellFormed)
    (hx : ∀ place ∈ (settings.outputFolder.join ⟨decl.name⟩).target? final.workingFolder,
      ¬ place <+: origin) : NotWritten settings decl final origin := by
  rintro path hpath way target hplace rfl
  obtain ⟨inner, last, -, -, hl, -, -⟩ := hpath.leadsTo hn hok hw
  obtain ⟨place, ht, rfl, -⟩ := hl.place? hplace
  exact hx place ht ⟨inner ++ [last], by simp⟩

/-- What has another name than the files of a solution and the folders of projects is left free. -/
theorem leftFree_of_names (hn : decl.HasSegmentNames)
    (hok : (Registry.empty.constructAll decl.databases).1 = .ok ()) (hw : final.WellFormed)
    (ht : (settings.outputFolder.join ⟨decl.name⟩).target? final.workingFolder = some place)
    (hway : place ++ [file] ∉ (settings.outputFolder.join ⟨decl.name⟩).way final.workingFolder)
    (hfile : file ∉ entryNames decl) : LeftFree settings decl final (place ++ [file]) := by
  refine ⟨hway, fun path hpath way target hplace => ?_⟩
  obtain ⟨inner, last, first, rest, hl, hfirst, hmem⟩ := hpath.leadsTo hn hok hw
  obtain ⟨above, ha, rfl, hnames, hmemway⟩ := hl.place? hplace
  obtain rfl := Option.some.inj (ht.symm.trans ha)
  constructor
  · intro he
    rw [List.append_assoc, hfirst] at he
    exact hfile ((List.cons.inj (List.append_cancel_left he)).1 ▸ hmem)
  · intro hx
    rcases (hmemway _).1 hx with hx | hx
    · exact hway hx
    · obtain ⟨front, hfront, he⟩ := (mem_route_names fun part hp => hnames part (by simp [hp])).1 hx
      obtain ⟨more, rfl⟩ := (List.append_cancel_left he) ▸ hfront
      exact hfile ((List.cons.inj hfirst).1 ▸ hmem)

theorem mem_packages {declared : DatabaseDecl} {name : String}
    (hok : (Registry.empty.constructAll decl.databases).1 = .ok ())
    (hdeclared : declared ∈ decl.databases.filter (·.createProject))
    (hname : ⟨.dacpac, name⟩ ∈ declared.dependencies) : name ∈ packages decl := by
  obtain ⟨db, hdb, hconstructed⟩ := exists_right_of_forall₂ (constructed_projectDatabases hok) hdeclared
  refine List.mem_flatMap.2 ⟨db, hdb, List.mem_filterMap.2 ⟨⟨.dacpac, name⟩, ?_, rfl⟩⟩
  rw [hconstructed.settings]
  exact hname

/-- A reference that stands for a dependency on a package names a file next to the solution. When
nothing else comes there it is a file, and has the content of the first package of its name, as that
was before the run and unless the solution has written to it. -/
structure Delivered (settings : Settings) (decl : SolutionDecl) (initial final : FileTree) (name : String)
    (reference : ProjectReference) : Prop where
  item : ∃ children, reference.markup =
    .group "ArtifactReference" [("Include", Include.lastSegment name)] children
  first : ∃ first, (packages decl).find? (fun other => Include.lastSegment other = Include.lastSegment name) =
      some first ∧
    (Path.IsSegment (Include.lastSegment name) →
      (∀ place ∈ (settings.outputFolder.join ⟨decl.name⟩).target? initial.workingFolder,
        LeftFree settings decl final (place ++ [Include.lastSegment name])) →
      ∃ content, final.read?
          ((settings.outputFolder.join ⟨decl.name⟩).join ⟨Include.lastSegment name⟩) = some content ∧
        ∀ origin original, initial.locate? (dacpacSource settings first) = some origin →
          initial.get? origin = some (.file original) → NotWritten settings decl final origin →
          content = original)

/-- What is promised of a solution that is generated where there was none. Each reference that stands
for a dependency on a package is delivered. When names are segments of paths, no file that was there
is written to, and a package file needs no more than a name that nothing else in the folder has. -/
theorem packages_are_delivered (settings : Settings) (ids : Nat → String) (decl : SolutionDecl)
    (s t : RunState) (output : SolutionOutput)
    (hh : s.tree.get? s.tree.workingFolder = some .folder)
    (hfresh : Absent s.tree (settings.outputFolder.join ⟨decl.name⟩))
    (hrun : (generateSolution settings ids decl).exec s = (.ok output, t)) :
    List.Forall₂ (fun declared project => List.Forall₂ (fun dependency reference =>
        dependency.kind = .dacpac →
          Delivered settings decl s.tree t.tree dependency.name reference)
        declared.dependencies project.references)
      (decl.databases.filter (·.createProject)) output.projects ∧
    (decl.HasSegmentNames → s.tree.WellFormed →
      (∀ origin original, s.tree.get? origin = some (.file original) →
        NotWritten settings decl t.tree origin) ∧
      ∀ place ∈ (settings.outputFolder.join ⟨decl.name⟩).target? s.tree.workingFolder,
        ∀ file, file ∉ entryNames decl →
          place ++ [file] ∉ (settings.outputFolder.join ⟨decl.name⟩).way s.tree.workingFolder →
          LeftFree settings decl t.tree (place ++ [file])) := by
  have hproduced := produced_of_exec hrun
  constructor
  · have hall := (List.forall₂_and_left _ _).2 ⟨fun _ hd => hd, hproduced.isProjectOf⟩
    refine hall.imp fun declared project ⟨hdeclared, hproject⟩ => ?_
    have hreferences := (List.forall₂_and_left _ _).2 ⟨fun _ hd => hd, hproject.references⟩
    refine hreferences.imp fun dependency reference ⟨hdependency, hstands⟩ hkind => ?_
    cases hstands with
    | database => cases hkind
    | system => cases hkind
    | dacpac name =>
      have hmem := mem_packages hproduced.constructed hdeclared hdependency
      obtain ⟨first, hfirst⟩ := Option.isSome_iff_exists.1
        (List.find?_isSome.2 ⟨name, hmem, decide_eq_true rfl⟩ : ((packages decl).find? fun other =>
          Include.lastSegment other = Include.lastSegment name).isSome = true)
      refine ⟨⟨_, rfl⟩, first, hfirst, fun hfile hfree => ?_⟩
      have hholds := (builds_generateSolution hh hrun).holdsPackage hh hfresh hfile hfree (.refl _)
      rw [hfirst] at hholds
      exact hholds
  · intro hn hw
    have hafter := ((within_generateSolution hn).of_exec ⟨hw, rfl⟩ hrun).1
    refine ⟨fun origin original ho => ?_, fun place ht file hfile hway => ?_⟩
    · refine notWritten_of_outside hn hproduced.constructed hafter.toWellFormed fun place ht => ?_
      rintro ⟨rest, rfl⟩
      rw [hafter.workingFolder_eq] at ht
      rw [hfresh place ht] at ho
      cases ho
    · rw [← hafter.workingFolder_eq] at ht hway
      exact leftFree_of_names hn hproduced.constructed hafter.toWellFormed ht hway hfile

/-- Packages of one name in two folders, and one more. -/
def packageTree : FileTree := .ofEntries [
  (["work"], .folder),
  (["work", "project"], .folder),
  (["work", "project", "a"], .folder),
  (["work", "project", "a", "Lib.dacpac"], .file "1".toUTF8),
  (["work", "project", "b"], .folder),
  (["work", "project", "b", "Lib.dacpac"], .file "2".toUTF8),
  (["work", "project", "b", "Other.dacpac"], .file "3".toUTF8)]

def packageSolution : SolutionDecl := ⟨"Store",
  [{ DatabaseDecl.named "Shop" with dependencies := [⟨.dacpac, "a\\Lib.dacpac"⟩] },
   { DatabaseDecl.named "Crm" with
      dependencies := [⟨.dacpac, "b\\Lib.dacpac"⟩, ⟨.dacpac, "b/Other.dacpac"⟩] }]⟩

/-- Each reference has the name of its package, and the file has what the first package holds. -/
theorem run_packageSolution :
    let finish := (generateSolution sampleSettings toString packageSolution).exec ⟨packageTree, 0⟩
    finish.1.toOption.map (·.projects.map (·.references)) =
        some [[.dacpac "Lib.dacpac"], [.dacpac "Lib.dacpac", .dacpac "Other.dacpac"]] ∧
      finish.2.tree.read? ⟨"/work/out/Store/Lib.dacpac"⟩ = some ("1".toUTF8 : File) := by
  unfold generateSolution generateProjects generateProject copyIncludes copyInclude takeProject
    Project.assemble Project.listFolders Project.addInclude foldersBelow
  rw [below_eq_insertionSort]
  decide +kernel

theorem exists_packageSolution : ∃ output t,
    (generateSolution sampleSettings toString packageSolution).exec ⟨packageTree, 0⟩ = (.ok output, t) ∧
    output.projects.map (·.references) =
      [[.dacpac "Lib.dacpac"], [.dacpac "Lib.dacpac", .dacpac "Other.dacpac"]] ∧
    t.tree.read? ⟨"/work/out/Store/Lib.dacpac"⟩ = some ("1".toUTF8 : File) := by
  have hrun := run_packageSolution
  generalize (generateSolution sampleSettings toString packageSolution).exec ⟨packageTree, 0⟩ = finish
    at hrun ⊢
  obtain ⟨result, t⟩ := finish
  obtain ⟨hreferences, hread⟩ := hrun
  obtain ⟨output, houtput, hreferences⟩ := Option.map_eq_some_iff.1 hreferences
  exact ⟨output, t, Prod.ext (toOption_eq_some.1 houtput) rfl, hreferences, hread⟩

theorem packageSolution_delivered : ∃ output t,
    Absent packageTree (sampleSettings.outputFolder.join ⟨packageSolution.name⟩) ∧
    (generateSolution sampleSettings toString packageSolution).exec ⟨packageTree, 0⟩ = (.ok output, t) ∧
    packageTree.get? ["work", "project", "b", "Other.dacpac"] = some (.file "3".toUTF8) ∧
    t.tree.read? ((sampleSettings.outputFolder.join ⟨packageSolution.name⟩).join ⟨"Other.dacpac"⟩) =
      some ("3".toUTF8 : File) := by
  obtain ⟨output, t, hrun, -, -⟩ := exists_packageSolution
  have hfresh : Absent packageTree (sampleSettings.outputFolder.join ⟨packageSolution.name⟩) := by
    decide
  have horigin : packageTree.get? ["work", "project", "b", "Other.dacpac"] = some (.file "3".toUTF8) := by
    decide
  obtain ⟨hall, hnames⟩ := packages_are_delivered sampleSettings toString packageSolution
    ⟨packageTree, 0⟩ t output (by decide) hfresh hrun
  obtain ⟨hkept, hfree⟩ := hnames (by decide) (by decide)
  obtain ⟨project, -, hproject⟩ := exists_right_of_forall₂ hall
    (List.mem_cons_of_mem _ List.mem_cons_self)
  obtain ⟨reference, -, hdelivered⟩ := exists_right_of_forall₂ hproject
    (List.mem_cons_of_mem _ List.mem_cons_self)
  have hother : (packages packageSolution).find? (fun other =>
      Include.lastSegment other = Include.lastSegment "b/Other.dacpac") = some "b/Other.dacpac" := by
    decide
  obtain ⟨first, hfirst, hholds⟩ := (hdelivered rfl).first
  obtain rfl := Option.some.inj (hother.symm.trans hfirst)
  have hname : Include.lastSegment "b/Other.dacpac" = "Other.dacpac" := by decide
  rw [hname] at hholds
  have hplace : (sampleSettings.outputFolder.join ⟨packageSolution.name⟩).target?
      packageTree.workingFolder = some ["work", "out", "Store"] := by decide
  obtain ⟨content, hread, hcontent⟩ := hholds (by decide) fun place ht =>
    hfree place ht "Other.dacpac" (by decide) (by
      obtain rfl := Option.some.inj (hplace.symm.trans ht)
      decide)
  obtain rfl := hcontent ["work", "project", "b", "Other.dacpac"] "3".toUTF8 (by decide) horigin
    (hkept _ _ horigin)
  exact ⟨output, t, hfresh, hrun, horigin, hread⟩

/-- A package is not copied over another one of its name, so a reference to it can lead to the other. -/
theorem second_package_not_delivered : ∃ output t,
    packageSolution.HasSegmentNames ∧ packageTree.WellFormed ∧
    Absent packageTree (sampleSettings.outputFolder.join ⟨packageSolution.name⟩) ∧
    (generateSolution sampleSettings toString packageSolution).exec ⟨packageTree, 0⟩ = (.ok output, t) ∧
    output.projects.map (·.references) =
      [[.dacpac "Lib.dacpac"], [.dacpac "Lib.dacpac", .dacpac "Other.dacpac"]] ∧
    packageTree.read? (dacpacSource sampleSettings "b\\Lib.dacpac") = some ("2".toUTF8 : File) ∧
    t.tree.read? ⟨"/work/out/Store/Lib.dacpac"⟩ = some ("1".toUTF8 : File) := by
  obtain ⟨output, t, hrun, hreferences, hread⟩ := exists_packageSolution
  exact ⟨output, t, by decide, by decide, by decide, hrun, hreferences, by decide,
    hread⟩

end Generate

end DatabaseProject
