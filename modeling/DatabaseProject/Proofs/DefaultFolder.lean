import DatabaseProject.Proofs.Abreast
import DatabaseProject.Proofs.CommandLine
import DatabaseProject.Proofs.DottedPaths

/-!
# The folder of a definition in the working folder

A definition that is named without a folder has its sources looked for below the empty path. A run
ends in the same way when they are looked for below `.`, with the same files but for ids, unless an
include has no segments: the empty path leads nowhere, while `.` leads to the working folder.
-/

namespace DatabaseProject

open FileTree Outcome DatabaseProject.Path

/-- The settings with another folder for includes and package files. -/
def Settings.withFolder (settings : Settings) (folder : String) : Settings :=
  { settings with projectFolder := ⟨folder⟩ }

namespace Include

variable {packages : PackageFolders} {path : String}

theorem ne_empty_of_mem_segments {segment : String} (h : segment ∈ segments path) : segment ≠ "" := by
  obtain ⟨chars, hc, rfl⟩ := List.mem_map.1 h
  have hne := (List.mem_filter.1 hc).2
  rintro he
  rw [String.ofList_eq_empty_iff] at he
  simp [he] at hne

/-- A path with segments leads below `.` where it leads below the empty path. -/
theorem sameOrDotted_segments (hs : segments path ≠ []) :
    SameOrDotted ((Path.mk "").joinAll (segments path)) ((Path.mk ".").joinAll (segments path)) := by
  cases hp : segments path with
  | nil => exact absurd hp hs
  | cons first rest =>
    have hfirst : first ∈ segments path := by rw [hp]; exact List.mem_cons_self
    exact sameOrDotted_joinAll (ne_empty_of_mem_segments hfirst) (no_separator_of_mem_segments hfirst) rest

theorem endsAlike_resolve (hs : segments path ≠ []) :
    EndsAlike SameOrDotted (resolve ⟨""⟩ packages path) (resolve ⟨"."⟩ packages path) := by
  have hsources := sameOrDotted_segments hs
  have hsame : ∀ x : Except GenerationError Path, EndsAlike SameOrDotted x x := fun x =>
    (EndsAlike.same x).mono fun source _ he => he ▸ .same source
  unfold resolve
  cases hp : segments path with
  | nil => exact absurd hp hs
  | cons first rest =>
    rw [hp] at hsources
    dsimp only
    split
    · exact hsame _
    · exact .ok hsources

end Include

/-- No source that is looked for below the folder of the project, nor anything below it, has a path
that comes near to the longest one. -/
structure HasRoomFor (packages : PackageFolders) (tree : FileTree) (db : Database) : Prop where
  includes : ∀ path ∈ db.includes, ∀ source other,
    Include.resolve ⟨""⟩ packages path = .ok source → Include.resolve ⟨"."⟩ packages path = .ok other →
      other ≠ source → HasRoom source ∧ ∀ place, tree.locate? source = some place →
        ∀ entry ∈ tree.below place, HasRoom (source.joinAll entry.1)
  dacpacs : ∀ name ∈ Generate.dacpacs db, HasRoom ((Path.mk "").joinAll (Include.segments name))

namespace Project

variable {settings : Settings} {tree other : FileTree} {db : Database} {path : String}

/-- An include found below the empty path and below `.`. -/
structure FoundAlike (tree : FileTree) (found found' : Path × Location) : Prop where
  sources : found.1.SameOrDotted found'.1
  place_eq : found'.2 = found.2
  room : found'.1 ≠ found.1 → ∀ entry ∈ tree.below found.2, HasRoom (found.1.joinAll entry.1)

theorem FoundAlike.joinAll_ne {found found' : Path × Location} (h : FoundAlike tree found found')
    {entry : List String × FileEntry} (he : entry ∈ tree.below found.2)
    (hne : found'.1.joinAll entry.1 ≠ found.1.joinAll entry.1) : HasRoom (found.1.joinAll entry.1) :=
  h.room (fun hsame => hne (by rw [hsame])) entry he

theorem FoundAlike.fits_eq {found found' : Path × Location} (h : FoundAlike tree found found')
    {entry : List String × FileEntry} (he : entry ∈ tree.below found.2) :
    fits (found'.1.joinAll entry.1) = fits (found.1.joinAll entry.1) :=
  FileTree.fits_eq (h.sources.joinAll entry.1) (h.joinAll_ne he)

theorem FoundAlike.isListable_eq {found found' : Path × Location} (h : FoundAlike tree found found')
    {names : List String} {depth : Nat} (hn : names ∈ tree.foldersBelow found.2 depth) :
    isListable found'.1 names = isListable found.1 names := by
  obtain ⟨entry, he, hshown⟩ := List.mem_filterMap.1 hn
  split at hshown
  · cases hshown
    unfold isListable
    rw [h.fits_eq he]
  · cases hshown

theorem includeFolder_bare (hs : Include.segments path = []) :
    includeFolder (settings.withFolder "") tree path = .error (.missingIncludeFolder ⟨""⟩) := by
  have hresolve : ∀ packages, Include.resolve ⟨""⟩ packages path = .ok ⟨""⟩ := by
    intro packages
    unfold Include.resolve
    rw [hs]
  have hlocate : tree.locate? ⟨""⟩ = none := by
    simp [locate?]
  unfold includeFolder
  simp only [Settings.withFolder, hresolve, bind, Except.bind, hlocate]
  rfl

theorem endsAlike_includeFolder {final : FileTree} (hpath : path ∈ db.includes)
    (hs : Include.segments path ≠ []) (h : SameShape tree other)
    (hh : tree.get? tree.workingFolder = some .folder) (hroom : HasRoomFor settings.packages final db)
    (hfinal : tree.CoveredBy final) :
    EndsAlike (FoundAlike tree) (includeFolder (settings.withFolder "") tree path)
      (includeFolder (settings.withFolder ".") other path) := by
  have hroom := hroom.includes path hpath
  have hends := @Include.endsAlike_resolve settings.packages path hs
  unfold includeFolder
  simp only [Settings.withFolder]
  generalize Include.resolve ⟨""⟩ settings.packages path = near at hends hroom ⊢
  generalize Include.resolve ⟨"."⟩ settings.packages path = dotted at hends hroom ⊢
  cases hends with
  | error he => exact .error he
  | @ok source source' hsources =>
    have hroom := hroom source source' rfl rfl
    have hlocate : other.locate? source' = tree.locate? source := by
      rw [h.locate?_eq, FileTree.locate?_eq hsources (fun hne => (hroom hne).1) hh]
    simp only [bind, Except.bind, hlocate]
    cases hl : tree.locate? source with
    | none => exact .error (.missingIncludeFolder source source')
    | some place =>
      have hfolder : tree.get? place = some .folder ↔ other.get? place = some .folder :=
        ⟨h.covered.folder, h.covers.folder⟩
      simp only [hfolder]
      split
      · refine .ok ⟨hsources, rfl, fun hne entry he => ?_⟩
        obtain ⟨hnonempty, hg⟩ := mem_below.1 he
        obtain ⟨later, hlater, -⟩ := hfinal.entries _ _ hg
        exact (hroom hne).2 place (hfinal.locate? hl) (entry.1, later) (mem_below.2 ⟨hnonempty, hlater⟩)
      · exact .error (.missingIncludeFolder source source')

/-- Each include shows its folders alike. -/
theorem endsAlike_addInclude {final : FileTree} (name : String) (listed : List String)
    (hpath : path ∈ db.includes) (hs : Include.segments path ≠ []) (h : SameShape tree other)
    (hh : tree.get? tree.workingFolder = some .folder) (hroom : HasRoomFor settings.packages final db)
    (hfinal : tree.CoveredBy final) :
    EndsAlike Eq (addInclude (settings.withFolder "") tree name listed path)
      (addInclude (settings.withFolder ".") other name listed path) := by
  unfold addInclude
  refine (endsAlike_includeFolder hpath hs h hh hroom hfinal).bind fun found found' hfound => ?_
  have hsame : other.foldersBelow found.2 listedDepth = tree.foldersBelow found.2 listedDepth :=
    foldersBelow_eq (forall₂_below fun rest => h.kinds (found.2 ++ rest))
  have hlistable : (tree.foldersBelow found.2 listedDepth).all (isListable found'.1) =
      (tree.foldersBelow found.2 listedDepth).all (isListable found.1) := by
    rw [Bool.eq_iff_iff, List.all_eq_true, List.all_eq_true]
    exact forall₂_congr fun names hn => by rw [hfound.isListable_eq hn]
  obtain ⟨source, place⟩ := found
  obtain ⟨source', place'⟩ := found'
  obtain rfl : place' = place := hfound.place_eq
  dsimp only at hsame hlistable ⊢
  rw [hsame, hlistable]
  split
  · exact .ok rfl
  · exact .error (.unreadable source source')

/-- All includes show their folders alike, up to one without segments. -/
theorem foldlM_addInclude_alike {final : FileTree} {Bare : Prop} {paths : List String} (name : String)
    (listed : List String) (hsub : paths ⊆ db.includes)
    (hbare : ∀ path ∈ db.includes, Include.segments path = [] → Bare) (h : SameShape tree other)
    (hh : tree.get? tree.workingFolder = some .folder) (hroom : HasRoomFor settings.packages final db)
    (hfinal : tree.CoveredBy final) :
    Lost Bare (paths.foldlM (addInclude (settings.withFolder "") tree name) listed) ∨
      EndsAlike Eq (paths.foldlM (addInclude (settings.withFolder "") tree name) listed)
        (paths.foldlM (addInclude (settings.withFolder ".") other name) listed) := by
  induction paths generalizing listed with
  | nil => exact .inr (.ok rfl)
  | cons path paths ih =>
    rw [List.cons_subset] at hsub
    rw [List.foldlM_cons, List.foldlM_cons]
    by_cases hs : Include.segments path = []
    · refine .inl ⟨hbare path hsub.1 hs, ?_⟩
      rw [addInclude, includeFolder_bare hs]
      rfl
    · have hfirst := endsAlike_addInclude name listed hsub.1 hs h hh hroom hfinal
      generalize addInclude (settings.withFolder "") tree name listed path = result at hfirst ⊢
      generalize addInclude (settings.withFolder ".") other name listed path = result' at hfirst ⊢
      cases hfirst with
      | error he => exact .inr (.error he)
      | ok he =>
        subst he
        exact ih _ hsub.2

theorem endsAlike_projectReference {previous previous' : List Project} {Pair : String → String → Prop}
    {name : String} (h : List.Forall₂ (Project.Alike Pair) previous previous') :
    EndsAlike (ProjectReference.Alike Pair) (projectReference previous db name)
      (projectReference previous' db name) := by
  unfold projectReference
  induction h with
  | nil => exact .error (.same _)
  | @cons first first' _ _ hfirst _ ih =>
    rw [List.find?_cons, List.find?_cons, hfirst.name_eq]
    cases first.name == name with
    | true =>
      dsimp only
      rw [hfirst.name_eq]
      exact .ok (.project _ hfirst.guid)
    | false => exact ih

theorem endsAlike_reference {previous previous' : List Project} {Pair : String → String → Prop}
    {dependency : Dependency} (h : List.Forall₂ (Project.Alike Pair) previous previous') :
    EndsAlike (ProjectReference.Alike Pair)
      (reference (settings.withFolder "") previous db dependency)
      (reference (settings.withFolder ".") previous' db dependency) := by
  have hsame : ∀ x : Except GenerationError ProjectReference, EndsAlike (ProjectReference.Alike Pair) x x :=
    fun x => (EndsAlike.same x).mono fun found _ he => he ▸ .same found
  unfold reference
  split
  · exact hsame _
  · exact endsAlike_projectReference h
  · exact hsame _

/-- Projects are assembled alike, up to an include without segments; they are alike when their ids are
partners. -/
theorem assemble_meets {final : FileTree} {Bare : Prop} {previous previous' : List Project}
    {Pair : String → String → Prop} (guid guid' : String)
    (hbare : ∀ path ∈ db.includes, Include.segments path = [] → Bare) (h : SameShape tree other)
    (hh : tree.get? tree.workingFolder = some .folder) (hroom : HasRoomFor settings.packages final db)
    (hfinal : tree.CoveredBy final) (hprevious : List.Forall₂ (Project.Alike Pair) previous previous') :
    Lost Bare (assemble (settings.withFolder "") tree previous guid db) ∨
      EndsAlike (fun project other => Pair guid guid' → project.Alike Pair other)
        (assemble (settings.withFolder "") tree previous guid db)
        (assemble (settings.withFolder ".") other previous' guid' db) := by
  have hreferences := EndsAlike.mapM fun dependency (_ : dependency ∈ db.dependencies) =>
    @endsAlike_reference settings db previous previous' Pair dependency hprevious
  have hfolders := foldlM_addInclude_alike db.name (scriptFolders db) (List.Subset.refl _)
    hbare h hh hroom hfinal
  unfold assemble
  generalize db.dependencies.mapM (reference (settings.withFolder "") previous db) = found at hreferences ⊢
  generalize db.dependencies.mapM (reference (settings.withFolder ".") previous' db) = found' at hreferences ⊢
  cases hreferences with
  | error he => exact .inr (.error he)
  | ok hreferences =>
    rcases hfolders with ⟨hb, hlost⟩ | hfolders
    · refine .inl ⟨hb, ?_⟩
      change (listFolders (settings.withFolder "") tree db >>= _) = _
      rw [listFolders, hlost]
      rfl
    · refine .inr (hfolders.bind fun folders folders' he => ?_)
      subst he
      exact .ok fun hg => ⟨rfl, hg, hreferences⟩

end Project

namespace Generate

open Run

variable {settings : Settings} {ids others : Nat → String} {folder : Path} {db : Database}
  {Pair : String → String → Prop} {final : RunState} {Bare : Prop} {previous previous' : List Project}

theorem abreast_takeProject (hbare : ∀ path ∈ db.includes, Include.segments path = [] → Bare)
    (hroom : HasRoomFor settings.packages final.tree db)
    (hprevious : List.Forall₂ (Project.Alike (IdPair ids others final.issued)) previous previous') :
    Abreast (IdPair ids others final.issued) final Bare (Project.Alike (IdPair ids others final.issued))
      (takeProject (settings.withFolder "") ids previous db)
      (takeProject (settings.withFolder ".") others previous' db) := by
  refine ⟨advances_takeProject, fun s s' hs ht => ?_⟩
  have hcovered := (advances_takeProject s ht).covered
  have hends := Project.assemble_meets (ids s.issued) (others s'.issued) hbare
    hs.trees.sameShape hs.home hroom hcovered hprevious
  simp only [takeProject, exec_get_bind, exec_liftM_bind] at ht ⊢
  generalize Project.assemble (settings.withFolder "") s.tree previous (ids s.issued) db = result at hends ht ⊢
  generalize Project.assemble (settings.withFolder ".") s'.tree previous' (others s'.issued) db = result' at hends ⊢
  rcases hends with ⟨hb, rfl⟩ | hends
  · exact .inl ⟨hb, rfl⟩
  · cases hends with
    | error he => exact .inr ⟨.error he, hs⟩
    | ok h =>
      have hpair : IdPair ids others final.issued (ids s.issued) (others s'.issued) :=
        ⟨s.issued, ht.issued_le, rfl, by rw [hs.issued_eq]⟩
      refine .inr ⟨.ok (h hpair), hs.home, ?_, hs.trees⟩
      exact congrArg (· + 1) hs.issued_eq

/-- An entry below an include is copied from below `.` as from below the empty path. -/
theorem abreast_copyEntry {tree : FileTree} {found found' : Path × Location} {target : Path}
    {entry : List String × FileEntry} (h : Project.FoundAlike tree found found')
    (he : entry ∈ tree.below found.2) :
    Abreast Pair final Bare Eq (copyEntry found.1 target entry) (copyEntry found'.1 target entry) := by
  unfold copyEntry
  split
  · refine abreast_onTree (fun _ _ => keptBy_copy) fun old old' halike hh => ?_
    have hread : old'.copy (found'.1.joinAll entry.1) (target.join ⟨"/".intercalate entry.1⟩) =
        old'.copy (found.1.joinAll entry.1) (target.join ⟨"/".intercalate entry.1⟩) :=
      copy_congr fun later hl => read?_eq (h.sources.joinAll entry.1) (h.joinAll_ne he)
        (hl.home (halike.covered.home hh))
    rw [hread]
    exact halike.endsAlike_copy hh
  · rw [h.fits_eq he]
    split
    · exact abreast_pure rfl
    · exact abreast_throw (.unreadable _ _)

theorem abreast_copyInclude {path : String} {target : Path} (hpath : path ∈ db.includes)
    (hbare : ∀ path ∈ db.includes, Include.segments path = [] → Bare)
    (hroom : HasRoomFor settings.packages final.tree db) :
    Abreast Pair final Bare Eq (copyInclude (settings.withFolder "") target path)
      (copyInclude (settings.withFolder ".") target path) := by
  have hkeeps : Keeps (settings.withFolder "") target db final := keeps_ending final
  have hadvances : (copyInclude (settings.withFolder "") target path).Advances final :=
    advances_copyInclude hkeeps hpath
  refine ⟨hadvances, fun s s' hs ht => ?_⟩
  have hcovered := (hadvances s ht).covered
  simp only [copyInclude, exec_get_bind, exec_liftM_bind] at ht ⊢
  by_cases hsegments : Include.segments path = []
  · rw [Project.includeFolder_bare hsegments]
    exact .inl ⟨hbare path hpath hsegments, rfl⟩
  · have hends := Project.endsAlike_includeFolder hpath hsegments hs.trees.sameShape hs.home hroom hcovered
    generalize Project.includeFolder (settings.withFolder "") s.tree path = result at hends ht ⊢
    generalize Project.includeFolder (settings.withFolder ".") s'.tree path = result' at hends ⊢
    cases hends with
    | error he => exact .inr ⟨.error he, hs⟩
    | @ok found found' hfound =>
      have hentries : (s'.tree.below found'.2).forM (copyEntry found'.1 target) =
          (s.tree.below found.2).forM (copyEntry found'.1 target) := by
        rw [hfound.place_eq]
        exact forM_copyEntry (forall₂_below fun rest => hs.trees.sameShape.kinds (found.2 ++ rest))
      have hall : Abreast Pair final Bare Eq ((s.tree.below found.2).forM (copyEntry found.1 target))
          ((s.tree.below found.2).forM (copyEntry found'.1 target)) :=
        abreast_forM fun entry he => abreast_copyEntry hfound he
      dsimp only at ht ⊢
      rw [hentries]
      exact hall.ends s s' hs ht

theorem read?_dacpacSource {tree : FileTree} {name : String}
    (hroom : HasRoom ((Path.mk "").joinAll (Include.segments name)))
    (hh : tree.get? tree.workingFolder = some .folder) :
    tree.read? (dacpacSource (settings.withFolder ".") name) =
      tree.read? (dacpacSource (settings.withFolder "") name) := by
  unfold dacpacSource Settings.withFolder
  by_cases hs : Include.segments name = []
  · have hfields : (Path.mk ".").fields = [] ++ ["."] := fields_of_no_separator (by decide)
    have hplace : tree.locate? ⟨"."⟩ = some tree.workingFolder :=
      locate?_of_filler hfields (by decide) (by decide) (by decide) rfl
        (by simpa [route, origin, isAbsolute] using hh)
    have hempty : tree.locate? ⟨""⟩ = none := by simp [locate?]
    simp [hs, joinAll, read?, entry?, hplace, hempty, hh]
  · exact read?_eq (Include.sameOrDotted_segments hs) (fun _ => hroom) hh

theorem endsAlike_copyDacpac_withFolder {tree : FileTree} {name : String}
    (hread : tree.read? (dacpacSource (settings.withFolder ".") name) =
      tree.read? (dacpacSource (settings.withFolder "") name)) :
    EndsAlike Eq (copyDacpac (settings.withFolder "") folder db name tree)
      (copyDacpac (settings.withFolder ".") folder db name tree) := by
  unfold copyDacpac
  dsimp only
  rw [hread]
  cases tree.read? (dacpacSource (settings.withFolder "") name) with
  | none => exact .error (.missingDacpac _ _ _)
  | some content => exact .same _

theorem abreast_copyDacpac {name : String} (hname : name ∈ dacpacs db)
    (hroom : HasRoomFor settings.packages final.tree db) :
    Abreast Pair final Bare Eq (Run.onTree (copyDacpac (settings.withFolder "") folder db name))
      (Run.onTree (copyDacpac (settings.withFolder ".") folder db name)) :=
  abreast_onTree (fun _ _ => keptBy_copyDacpac) fun _ _ halike hh =>
    (endsAlike_copyDacpac halike hh).trans_eq <| endsAlike_copyDacpac_withFolder <|
      read?_dacpacSource (hroom.dacpacs name hname) (halike.covered.home hh)

/-- Behind alike projects, everything of a project is made alike. -/
theorem abreast_finishProject {project other : Project} (folder : Path) (hp : Plain Pair)
    (hbare : ∀ path ∈ db.includes, Include.segments path = [] → Bare)
    (hroom : HasRoomFor settings.packages final.tree db) (halike : project.Alike Pair other) :
    Abreast Pair final Bare (fun made made' => made.1.Alike Pair made'.1 ∧ made.2 = made'.2)
      (finishProject (settings.withFolder "") folder db project)
      (finishProject (settings.withFolder ".") folder db other) := by
  unfold finishProject
  rw [Project.fileName, Project.fileName, halike.name_eq]
  refine (abreast_write (halike.descriptor hp)).seq fun _ => Abreast.seq ?_ fun _ => Abreast.seq ?_ fun _ =>
    Abreast.seq ?_ fun _ => (abreast_liftM (.same _)).seq fun scripts => Abreast.seq ?_ fun _ => ?_
  · unfold writeComparison
    cases db.comparison with
    | none => exact abreast_pure rfl
    | some options =>
      rw [Option.forM, Option.forM, Project.comparisonFileName, Project.comparisonFileName, halike.name_eq]
      exact abreast_write (halike.comparison hp options)
  · exact abreast_forM fun path hpath => abreast_copyInclude hpath hbare hroom
  · exact abreast_forM fun name hn => abreast_copyDacpac hn hroom
  · exact abreast_forM fun script _ => abreast_write (.same _)
  · exact abreast_pure ⟨halike, rfl⟩

theorem abreast_generateProjects {dbs : List Database} {done other : List Project × Nat} (folder : Path)
    (hp : Plain (IdPair ids others final.issued))
    (hbare : ∀ db ∈ dbs, ∀ path ∈ db.includes, Include.segments path = [] → Bare)
    (hroom : ∀ db ∈ dbs, HasRoomFor settings.packages final.tree db)
    (hdone : DoneAlike (IdPair ids others final.issued) done other) :
    Abreast (IdPair ids others final.issued) final Bare (DoneAlike (IdPair ids others final.issued))
      (generateProjects (settings.withFolder "") ids folder done dbs)
      (generateProjects (settings.withFolder ".") others folder other dbs) := by
  refine abreast_foldlM hdone (fun db hdb before before' hbefore => ?_) fun before db _ =>
    advances_bind (advances_generateProject (keeps_ending _)) fun _ => advances_pure _
  have hproject := (abreast_takeProject (hbare db hdb) (hroom db hdb) hbefore.1).bind
    (fun project other h => abreast_finishProject folder hp (hbare db hdb) (hroom db hdb) h)
    fun _ => advances_finishProject (keeps_ending _)
  refine hproject.bind (fun made made' h => abreast_pure ⟨?_, ?_⟩) fun _ => advances_pure _
  · exact List.rel_append hbefore.1 (.cons h.1 .nil)
  · rw [hbefore.2, h.2]

theorem abreast_takeId : Abreast (IdPair ids others final.issued) final Bare
    (IdPair ids others final.issued) (takeId ids) (takeId others) := by
  refine ⟨advances_takeId, fun s s' hs ht => .inr ⟨.ok ⟨s.issued, ht.issued_le, rfl, ?_⟩, hs.home, ?_, hs.trees⟩⟩
  · rw [hs.issued_eq]
  · exact congrArg (· + 1) hs.issued_eq

theorem abreast_concludeSolution {done other : List Project × Nat} (folder : Path) (name : String)
    (hdone : DoneAlike (IdPair ids others final.issued) done other) :
    Abreast (IdPair ids others final.issued) final Bare (SolutionOutput.Alike (IdPair ids others final.issued))
      (concludeSolution ids folder name done) (concludeSolution others folder name other) := by
  obtain ⟨projects, count⟩ := done
  obtain ⟨projects', count'⟩ := other
  obtain ⟨hprojects, hcount⟩ := hdone
  dsimp only at hprojects hcount
  have hempty : projects'.isEmpty = projects.isEmpty := by
    cases hprojects <;> rfl
  unfold concludeSolution
  dsimp only
  rw [hempty, hcount]
  split
  · exact abreast_pure ⟨rfl, hprojects⟩
  · have hwrite : Abreast (IdPair ids others final.issued) final Bare Eq
        (writeSolution ids folder name projects) (writeSolution others folder name projects') :=
      abreast_takeId.bind
        (fun _ _ hg => (abreast_write (Solution.renamed_text hg hprojects)).seq fun _ => abreast_pure rfl)
        fun _ => advances_bind advances_write fun _ => advances_pure _
    exact hwrite.seq fun path => abreast_pure ⟨rfl, hprojects⟩

theorem abreast_generateSolution {decl : SolutionDecl} (hp : Plain (IdPair ids others final.issued))
    (hbare : ∀ db ∈ projectDatabases decl, ∀ path ∈ db.includes, Include.segments path = [] → Bare)
    (hroom : ∀ db ∈ projectDatabases decl, HasRoomFor settings.packages final.tree db) :
    Abreast (IdPair ids others final.issued) final Bare (SolutionOutput.Alike (IdPair ids others final.issued))
      (generateSolution (settings.withFolder "") ids decl)
      (generateSolution (settings.withFolder ".") others decl) := by
  have hnone : DoneAlike (IdPair ids others final.issued) ([], 0) ([], 0) := ⟨.nil, rfl⟩
  have hall := (abreast_generateProjects (settings.outputFolder.join ⟨decl.name⟩) hp hbare hroom hnone).bind
    (fun _ _ hd => abreast_concludeSolution (settings.outputFolder.join ⟨decl.name⟩) decl.name hd)
    fun _ => advances_concludeSolution
  cases hok : (Registry.empty.constructAll decl.databases).1 with
  | error e =>
    have hfails : ∀ settings ids s, (generateSolution settings ids decl).exec s = (.error e, s) := by
      intro settings ids s
      rw [exec_generateSolution, hok]
    refine ⟨fun s => ?_, fun s s' hs _ => .inr ?_⟩
    · rw [hfails]
      exact id
    · rw [hfails, hfails]
      exact ⟨.error (.same e), hs⟩
  | ok _ =>
    have hruns : ∀ folder ids s, (generateSolution (settings.withFolder folder) ids decl).exec s =
        (generateProjects (settings.withFolder folder) ids (settings.outputFolder.join ⟨decl.name⟩) ([], 0)
          (projectDatabases decl) >>=
            concludeSolution ids (settings.outputFolder.join ⟨decl.name⟩) decl.name).exec s := by
      intro folder ids s
      rw [exec_generateSolution, hok]
      rfl
    refine ⟨fun s => ?_, fun s s' hs ht => ?_⟩
    · rw [hruns]
      exact hall.advances s
    · rw [hruns] at ht ⊢
      rw [hruns]
      exact hall.ends s s' hs ht

/-- An include of a project in a definition that has no segments. -/
def HasBareInclude (definition : Definition) : Prop :=
  ∃ decl ∈ definition.solutions, ∃ db ∈ projectDatabases decl, ∃ path ∈ db.includes,
    Include.segments path = []

/-- What a run with sources below the empty path comes to, a run with sources below `.` comes to. -/
theorem generate_endsAlike {path : Path} {s t : RunState}
    {result : Except GenerationError (List SolutionOutput)}
    (hh : s.tree.get? s.tree.workingFolder = some .folder) (hp : Plain (IdPair ids others t.issued))
    (hroom : ∀ definition, readDefinition path s.tree = .ok (some definition) →
      ∀ decl ∈ definition.solutions, ∀ db ∈ projectDatabases decl, HasRoomFor settings.packages t.tree db)
    (h : (generate (settings.withFolder "") ids path).exec s = (result, t)) :
    Lost (∃ definition, readDefinition path s.tree = .ok (some definition) ∧ HasBareInclude definition)
        result ∨
      ∃ result' t', (generate (settings.withFolder ".") others path).exec s = (result', t') ∧
        EndsAlike (List.Forall₂ (SolutionOutput.Alike (IdPair ids others t.issued))) result result' ∧
        t'.issued = t.issued ∧ t.tree.Alike (IdPair ids others t.issued) t'.tree := by
  have hstart : StatesAlike (IdPair ids others t.issued) s s := ⟨hh, rfl, .refl _⟩
  rw [exec_generate] at h
  rw [exec_generate]
  cases hread : readDefinition path s.tree with
  | error e =>
    rw [hread] at h
    cases h
    exact .inr ⟨.error e, s, rfl, .error (.same e), rfl, .refl _⟩
  | ok found =>
    rw [hread] at h
    cases found with
    | none =>
      cases h
      exact .inr ⟨.ok [], s, rfl, .ok .nil, rfl, .refl _⟩
    | some definition =>
      have hall := abreast_mapM fun decl (hd : decl ∈ definition.solutions) =>
        @abreast_generateSolution settings ids others t (HasBareInclude definition) decl hp
          (fun db hdb path hpath hs => ⟨decl, hd, db, hdb, path, hpath, hs⟩)
          (hroom definition hread decl hd)
      have hends := hall.ends s s hstart
      dsimp only at h
      rw [h] at hends
      rcases hends (.refl t) with ⟨hbare, hlost⟩ | ⟨hends, hstates⟩
      · exact .inl ⟨⟨definition, rfl, hbare⟩, hlost⟩
      · exact .inr ⟨_, _, rfl, hends, hstates.issued_eq, hstates.trees⟩

end Generate

namespace CommandLine

open Generate

variable {Pair : String → String → Prop} {arguments : Arguments} {rest : List String} {name : String}
  {settings : Settings}

theorem summary_eq {solution other : SolutionOutput} (h : solution.Alike Pair other) :
    summary other = summary solution := by
  rw [summary, summary, h.others_eq, h.projects.length_eq]

/-- What runs that end alike print for the user, errors apart. -/
theorem outcome_endsAlike {result result' : Except GenerationError (List SolutionOutput)}
    (h : EndsAlike (List.Forall₂ (SolutionOutput.Alike Pair)) result result') :
    (outcome result').exitCode = (outcome result).exitCode ∧
      (outcome result').output = (outcome result).output := by
  cases h with
  | error he => exact ⟨rfl, rfl⟩
  | ok hsolutions =>
    refine ⟨rfl, ?_⟩
    rw [outcome, outcome, ← List.forall₂_eq_eq_eq, List.forall₂_map_left_iff, List.forall₂_map_right_iff]
    exact hsolutions.flip.imp fun _ _ halike => summary_eq halike

/-- A command without a project folder that names its definition without a folder looks for sources
below the empty path; with `--project-dir .` in addition it looks for them below `.`. -/
theorem settings_of_bare_definition (ha : takeAll? .empty none rest = some arguments)
    (hfolder : arguments.projectFolder = none)
    (hcommand : parse ("generate" :: rest) = .generate ⟨name⟩ settings) (hname : Path.IsSegment name) :
    settings = settings.withFolder "" ∧
      parse ("generate" :: "--project-dir" :: "." :: rest) = .generate ⟨name⟩ (settings.withFolder ".") := by
  obtain ⟨hbelow, hdot⟩ := parse_of_takeAll? ha hfolder
  rw [hcommand, ofArguments] at hbelow
  rw [hdot, ofArguments]
  dsimp only
  split at hbelow
  · rename_i definition outputFolder hinput houtput
    cases hbelow
    rw [hfolder, Option.getD_none, defaultProjectFolder_of_isSegment hname]
    exact ⟨rfl, rfl⟩
  · cases hbelow

/-- What the command without a project folder comes to, the command with `--project-dir .` in
addition comes to, when the definition is named without a folder: the exit codes and what is printed
of the solutions are the same, errors are of the same kind, and the trees and the solutions differ
only in ids. The exception are includes without segments, which the first command may miss. -/
theorem bare_definition_runs_as_from_dot (ha : takeAll? .empty none rest = some arguments)
    (hfolder : arguments.projectFolder = none)
    (hcommand : parse ("generate" :: rest) = .generate ⟨name⟩ settings) (hname : Path.IsSegment name) :
    parse ("generate" :: "--project-dir" :: "." :: rest) = .generate ⟨name⟩ (settings.withFolder ".") ∧
      ∀ ids others s t result, s.tree.get? s.tree.workingFolder = some .folder →
        Plain (IdPair ids others t.issued) →
        (∀ definition, readDefinition ⟨name⟩ s.tree = .ok (some definition) →
          ∀ decl ∈ definition.solutions, ∀ db ∈ projectDatabases decl,
            HasRoomFor settings.packages t.tree db) →
        (generate settings ids ⟨name⟩).exec s = (result, t) →
        Lost (∃ definition, readDefinition ⟨name⟩ s.tree = .ok (some definition) ∧
            HasBareInclude definition) result ∨
          ∃ result' t', (generate (settings.withFolder ".") others ⟨name⟩).exec s = (result', t') ∧
            EndsAlike (List.Forall₂ (SolutionOutput.Alike (IdPair ids others t.issued))) result result' ∧
            (outcome result').exitCode = (outcome result).exitCode ∧
            (outcome result').output = (outcome result).output ∧
            t.tree.Alike (IdPair ids others t.issued) t'.tree := by
  obtain ⟨hempty, hdot⟩ := settings_of_bare_definition ha hfolder hcommand hname
  refine ⟨hdot, fun ids others s t result hh hp hroom hrun => ?_⟩
  rw [hempty] at hrun
  rcases generate_endsAlike hh hp hroom hrun with hlost | ⟨result', t', hrun', hends, -, halike⟩
  · exact .inl hlost
  · obtain ⟨hcode, hprinted⟩ := outcome_endsAlike hends
    exact .inr ⟨result', t', hrun', hends, hcode, hprinted, halike⟩

/-- A definition with one include. -/
def includeDefinition (path : String) : String :=
  "<Sql><SqlProject Name=\"Store\"><Databases><Database Name=\"Shop\" CreateProject=\"true\">" ++
    "<DatabaseIncludes><Folder Path=\"" ++ path ++ "\"/></DatabaseIncludes>" ++
  "</Database></Databases></SqlProject></Sql>"

/-- The definition lies in the working folder, next to a folder with a file. -/
def workingTree (path : String) : FileTree :=
  { FileTree.ofEntries [
      (["work"], .folder),
      (["work", "project"], .folder),
      (["work", "project", "definition.xml"], .file (includeDefinition path).toUTF8),
      (["work", "project", "Inc"], .folder),
      (["work", "project", "Inc", "a.txt"], .file "1".toUTF8)] with
    workingFolder := ["work", "project"] }

def bareArguments : List String := ["--input", "definition.xml", "--output", "/work/out"]

/-- The settings of the arguments. -/
def bareSettings : Settings := ⟨⟨"/work/out"⟩, ⟨""⟩, none, ∅⟩

theorem read_includeDefinition {path : String} {decls : List SolutionDecl}
    (ht : ((Xml.Document.root? (includeDefinition path)).bind fun root =>
      (Definition.ofElement root).toOption.join.map (·.solutions)) = some decls) :
    ∃ definition, readDefinition ⟨"definition.xml"⟩ (workingTree path) = .ok (some definition) ∧
      definition.solutions = decls := by
  have hl : (workingTree path).locate? ⟨"definition.xml"⟩ = some ["work", "project", "definition.xml"] :=
    rfl
  have hg : (workingTree path).get? ["work", "project", "definition.xml"] =
      some (.file (includeDefinition path).toUTF8) := rfl
  exact exists_definition_of_text hl hg ht

theorem hasRoomFor_inc {tree : FileTree} {db : Database}
    (h : ∀ place ∈ tree.locate? ⟨"Inc"⟩, ∀ entry ∈ tree.below place,
      FileTree.HasRoom ((Path.mk "Inc").joinAll entry.1))
    (hdb : db ∈ projectDatabases (sampleSolution ["Inc"])) : HasRoomFor bareSettings.packages tree db := by
  have hdbs : ∀ db ∈ projectDatabases (sampleSolution ["Inc"]), db.includes = ["Inc"] ∧ dacpacs db = [] := by
    decide
  obtain ⟨hincludes, hdacpacs⟩ := hdbs db hdb
  constructor
  · rw [hincludes, List.forall_mem_singleton]
    intro source other hsource _ _
    obtain rfl : source = ⟨"Inc"⟩ := (Except.ok.inj hsource).symm
    exact ⟨by decide, fun place hplace => h place hplace⟩
  · rw [hdacpacs]
    exact nofun

theorem inc_runs_as_from_dot : ∃ outputs t result' t',
    parse ("generate" :: "--project-dir" :: "." :: bareArguments) =
      .generate ⟨"definition.xml"⟩ (bareSettings.withFolder ".") ∧
    (generate bareSettings (ProjectId.nth 1) ⟨"definition.xml"⟩).exec ⟨workingTree "Inc", 0⟩ =
      (.ok outputs, t) ∧
    (generate (bareSettings.withFolder ".") (ProjectId.nth 2) ⟨"definition.xml"⟩).exec
      ⟨workingTree "Inc", 0⟩ = (result', t') ∧
    (outcome result').exitCode = 0 ∧
    t.tree.Alike (IdPair (ProjectId.nth 1) (ProjectId.nth 2) t.issued) t'.tree := by
  have harguments : takeAll? .empty none bareArguments =
      some ⟨some ⟨"definition.xml"⟩, some ⟨"/work/out"⟩, none, none, ∅, false⟩ := rfl
  have hcommand : parse ("generate" :: bareArguments) = .generate ⟨"definition.xml"⟩ bareSettings := rfl
  have hname : Path.IsSegment "definition.xml" := by decide
  obtain ⟨hdot, hall⟩ := bare_definition_runs_as_from_dot harguments rfl hcommand hname
  obtain ⟨definition, hread, hsolutions⟩ := @read_includeDefinition "Inc" [sampleSolution ["Inc"]]
    (by decide +kernel)
  have hends : ((generate bareSettings (ProjectId.nth 1) ⟨"definition.xml"⟩).exec
        ⟨workingTree "Inc", 0⟩).1.isOk = true ∧
      ∀ place ∈ ((generate bareSettings (ProjectId.nth 1) ⟨"definition.xml"⟩).exec
        ⟨workingTree "Inc", 0⟩).2.tree.locate? ⟨"Inc"⟩, ∀ entry ∈
          ((generate bareSettings (ProjectId.nth 1) ⟨"definition.xml"⟩).exec
            ⟨workingTree "Inc", 0⟩).2.tree.below place,
        FileTree.HasRoom ((Path.mk "Inc").joinAll entry.1) := by
    rw [exec_generate, hread]
    dsimp only
    rw [hsolutions]
    unfold generateSolution generateProjects generateProject copyIncludes copyInclude takeProject
      Project.assemble Project.listFolders Project.addInclude FileTree.foldersBelow
    rw [FileTree.below_eq_insertionSort]
    decide +kernel
  obtain ⟨outputs, hrun⟩ := Run.exists_of_isOk hends.1
  have hroom := hends.2
  generalize ((generate bareSettings (ProjectId.nth 1) ⟨"definition.xml"⟩).exec
    ⟨workingTree "Inc", 0⟩).2 = t at hrun hroom
  have hroom : ∀ found, readDefinition ⟨"definition.xml"⟩ (workingTree "Inc") = .ok (some found) →
      ∀ decl ∈ found.solutions, ∀ db ∈ projectDatabases decl, HasRoomFor bareSettings.packages t.tree db := by
    intro found hf
    obtain rfl : found = definition := by
      rw [hread] at hf
      cases hf
      rfl
    rw [hsolutions, List.forall_mem_singleton]
    exact fun db hdb => hasRoomFor_inc hroom hdb
  rcases hall (ProjectId.nth 1) (ProjectId.nth 2) ⟨workingTree "Inc", 0⟩ t _ (by decide +kernel)
      (plain_idPair (ProjectId.escape_nth 1) (ProjectId.escape_nth 2)) hroom hrun with
    ⟨-, hlost⟩ | ⟨result', t', hrun', -, hcode, -, halike⟩
  · cases hlost
  · exact ⟨outputs, t, result', t', hdot, hrun, hrun', hcode, halike⟩

/-- An include without segments leads to the working folder below `.`, and nowhere below the empty
path. -/
theorem working_folder_missed : ∃ e outputs t t',
    parse ("generate" :: bareArguments) = .generate ⟨"definition.xml"⟩ bareSettings ∧
    parse ("generate" :: "--project-dir" :: "." :: bareArguments) =
      .generate ⟨"definition.xml"⟩ (bareSettings.withFolder ".") ∧
    (generate bareSettings (ProjectId.nth 1) ⟨"definition.xml"⟩).exec ⟨workingTree "/", 0⟩ =
      (.error e, t) ∧
    (generate (bareSettings.withFolder ".") (ProjectId.nth 1) ⟨"definition.xml"⟩).exec
      ⟨workingTree "/", 0⟩ = (.ok outputs, t') := by
  obtain ⟨definition, hread, hsolutions⟩ := @read_includeDefinition "/" [sampleSolution ["/"]]
    (by decide +kernel)
  have hends : ((generate bareSettings (ProjectId.nth 1) ⟨"definition.xml"⟩).exec
        ⟨workingTree "/", 0⟩).1.isOk = false ∧
      ((generate (bareSettings.withFolder ".") (ProjectId.nth 1) ⟨"definition.xml"⟩).exec
        ⟨workingTree "/", 0⟩).1.isOk = true := by
    rw [exec_generate, exec_generate, hread]
    dsimp only
    rw [hsolutions]
    unfold generateSolution generateProjects generateProject copyIncludes copyInclude takeProject
      Project.assemble Project.listFolders Project.addInclude FileTree.foldersBelow
    rw [FileTree.below_eq_insertionSort]
    decide +kernel
  obtain ⟨e, hmissed⟩ := Run.exists_of_isOk_eq_false hends.1
  obtain ⟨outputs, hfound⟩ := Run.exists_of_isOk hends.2
  exact ⟨e, outputs, _, _, rfl, rfl, hmissed, hfound⟩

end CommandLine

end DatabaseProject
