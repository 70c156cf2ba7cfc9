import DatabaseProject.Proofs.Footprint
import DatabaseProject.Proofs.Scripts

/-!
# What generating a solution can change

A project writes its two files next to each other, everything else below a folder of its own, and
adds package files where nothing is. A solution writes one more file. All of it is below the folder
of the solution, apart from folders that its path leads through.
-/

namespace DatabaseProject

open FileTree Outcome

namespace FileTree

variable {p : Footprint} {old new : FileTree} {here place target : Location} {way : List Location}
  {path folder : Path} {inner : List String} {name : String} {content : File}

/-- A file below a base changes what the base may change, and keeps the tree well-formed. -/
theorem Placed.within (hl : Path.LeadsTo folder inner name path)
    (hp : path.place? old.workingFolder = some (way, target))
    (h : Placed way target content old new) (hr : Rooted here old)
    (hmade : ∀ x ∈ folder.way here, p.made x)
    (hinner : ∀ place, folder.target? here = some place →
      (∀ front, front <+: inner → p.made (place ++ front)) ∧ p.written (place ++ inner ++ [name])) :
    Rooted here new ∧ ChangedWithin p old new := by
  obtain ⟨hnway, hnplace⟩ := isName_of_place? hr.toWellFormed hp
  refine ⟨⟨h.wellFormed hr.toWellFormed hnway hnplace,
    h.workingFolder_eq.trans hr.workingFolder_eq⟩, ?_⟩
  obtain ⟨place, ht, rfl, hnames, hway⟩ := hl.place? hp
  rw [hr.workingFolder_eq] at ht hway
  obtain ⟨hfront, hwritten⟩ := hinner place ht
  refine h.changedWithin (fun x hx => ?_) hwritten
  rcases (hway x).1 hx with hx | hx
  · exact hmade x hx
  · have hinner : ∀ part ∈ inner, isName part = true := fun part hm => hnames part (by simp [hm])
    obtain ⟨front, hf, rfl⟩ := (mem_route_names hinner).1 hx
    exact hfront front hf

/-- A file below a base is a change below it. -/
theorem Placed.below (hl : Path.LeadsTo folder inner name path)
    (hp : path.place? old.workingFolder = some (way, target))
    (h : Placed way target content old new) (hr : Rooted here old) :
    Rooted here new ∧ ChangedWithin (.below here folder) old new := by
  refine h.within hl hp hr (fun x hx => .inl hx) fun place ht => ⟨fun front _ => ?_, ?_⟩
  · exact .inr ⟨place, front, ht, rfl⟩
  · exact ⟨place, inner ++ [name], ht, by simp, by simp⟩

theorem Rooted.write {content : ByteArray} (hr : Rooted here old) (h : old.write path content = .ok new) :
    Rooted here new := by
  obtain ⟨way, place, hp, hplaced⟩ := write_eq_ok hr.home h
  obtain ⟨hway, hplace⟩ := isName_of_place? hr.toWellFormed hp
  exact ⟨hplaced.wellFormed hr.toWellFormed hway hplace, hplaced.workingFolder_eq.trans hr.workingFolder_eq⟩

end FileTree

namespace Run

variable {α : Type} {p : Footprint} {here place : Location} {folder : Path} {x : Run α}
  {Also : FileTree → Prop}

/-- A run that keeps trees well-formed also keeps the folders in them. -/
theorem Within.holding (h : x.Within (fun tree => Rooted here tree ∧ Also tree) p) :
    x.Within (fun tree => Holding here folder place tree ∧ Also tree) p := by
  intro s hs
  obtain ⟨hafter, hchanged⟩ := h s ⟨hs.1.toRooted, hs.2⟩
  exact ⟨⟨⟨hafter.1, hchanged.hasFolder hs.1.toHasFolder⟩, hafter.2⟩, hchanged⟩

end Run

theorem Project.name_of_assemble {settings : Settings} {tree : FileTree} {previous : List Project}
    {guid : String} {db : Database} {project : Project}
    (h : assemble settings tree previous guid db = .ok project) : project.name = db.name := by
  obtain ⟨references, -, h⟩ := bind_eq_ok.1 h
  obtain ⟨folders, -, h⟩ := bind_eq_ok.1 h
  cases h
  rfl

namespace Generate

variable {settings : Settings} {ids : Nat → String} {here place : Location} {folder path : Path}
  {db : Database} {project : Project} {previous : List Project} {s t : RunState}

theorem exec_takeProject_eq_ok : (takeProject settings ids previous db).exec s = (.ok project, t) ↔
    Project.assemble settings s.tree previous (ids s.issued) db = .ok project ∧
      t = { s with issued := s.issued + 1 } := by
  simp only [takeProject, Run.exec_get_bind, Run.exec_liftM_bind]
  cases Project.assemble settings s.tree previous (ids s.issued) db with
  | error e => simp
  | ok found =>
    change (Except.ok found, RunState.mk s.tree (s.issued + 1)) = (.ok project, t) ↔ _
    simp [eq_comm]

theorem tree_takeProject : ((takeProject settings ids previous db).exec s).2.tree = s.tree := by
  simp only [takeProject, Run.exec_get_bind, Run.exec_liftM_bind]
  cases Project.assemble settings s.tree previous (ids s.issued) db with
  | error e => rfl
  | ok found => rfl

theorem exec_writeSolution_eq_ok {name : String} {projects : List Project} :
    (writeSolution ids folder name projects).exec s = (.ok path, t) ↔
      path = folder.join ⟨name ++ ".sln"⟩ ∧ t.issued = s.issued + 1 ∧
        s.tree.write (folder.join ⟨name ++ ".sln"⟩)
          (Solution.ofProjects name (ids s.issued) projects).text.toUTF8 = .ok t.tree := by
  have hfile : (Solution.ofProjects name (ids s.issued) projects).fileName = name ++ ".sln" := rfl
  simp only [writeSolution, Run.exec_bind_eq_ok, Run.exec_modifyGet, Prod.mk.injEq, Except.ok.injEq]
  constructor
  · rintro ⟨_, _, ⟨rfl, rfl⟩, ⟨⟩, middle, hw, hp⟩
    rw [Run.exec_onTree_eq_ok, hfile] at hw
    cases hp
    exact ⟨rfl, hw.2, hw.1⟩
  · rintro ⟨rfl, hi, hw⟩
    exact ⟨_, _, ⟨rfl, rfl⟩, (), t, Run.exec_onTree_eq_ok.2 ⟨hw, hi⟩, rfl⟩

/-- What projects can take over from elsewhere: where below an include there are files, and what a
package file can hold. -/
structure Sources where
  included : String → List String → Prop
  package : String → File → Prop

/-- In all trees of a kind, what a database includes and depends on comes from the sources. -/
structure Sources.Cover (settings : Settings) (db : Database) (Inv : FileTree → Prop)
    (sources : Sources) : Prop where
  included : ∀ tree, Inv tree → ∀ path ∈ db.includes, ∀ source location,
    Project.includeFolder settings tree path = .ok (source, location) → ∀ rest content, rest ≠ [] →
      tree.get? (location ++ rest) = some (.file content) → sources.included path rest
  package : ∀ tree, Inv tree → ∀ name ∈ dacpacs db, ∀ content,
    tree.read? (dacpacSource settings name) = some content → sources.package name content

/-- Sources that anything can come from. -/
def Sources.all : Sources := ⟨fun _ _ => True, fun _ _ => True⟩

theorem Sources.all_cover {Inv : FileTree → Prop} : Sources.all.Cover settings db Inv :=
  ⟨fun _ _ _ _ _ _ _ _ _ _ _ => trivial, fun _ _ _ _ _ _ => trivial⟩

/-- A file right in a folder. -/
def besideFootprint (here : Location) (folder : Path) (name : String) : Footprint where
  made x := x ∈ folder.way here
  written x := ∃ place, folder.target? here = some place ∧ x = place ++ [name]
  added _ _ := False

/-- Files below a folder inside a folder. -/
def insideFootprint (here : Location) (folder : Path) (name : String)
    (allowed : List String → Prop) : Footprint where
  made x := x ∈ folder.way here ∨
    ∃ place rest, folder.target? here = some place ∧ x = place ++ name :: rest
  written x := ∃ place inner, folder.target? here = some place ∧ x = place ++ name :: inner ∧
    inner ≠ [] ∧ allowed inner
  added _ _ := False

/-- Package files that are not there yet. -/
def packageFootprint (here : Location) (folder : Path) (sources : Sources) (db : Database) :
    Footprint where
  made x := x ∈ folder.way here
  written _ := False
  added x content := ∃ place name, folder.target? here = some place ∧ name ∈ dacpacs db ∧
    x = place ++ [Include.lastSegment name] ∧ sources.package name content

/-- Where a file of a database can come from below the folder of its project. -/
def Allowed (sources : Sources) (db : Database) (inner : List String) : Prop :=
  (∃ path ∈ db.includes, sources.included path inner) ∨
    ∃ scripts script, db.scripts = .ok scripts ∧ script ∈ scripts ∧ script.path.fields = inner

/-- What a project of a solution in a folder can change. -/
def projectFootprint (here : Location) (folder : Path) (sources : Sources) (db : Database) :
    Footprint where
  made x := x ∈ folder.way here ∨
    ∃ place rest, folder.target? here = some place ∧ x = place ++ db.name :: rest
  written x := ∃ place rest, folder.target? here = some place ∧ x = place ++ rest ∧
    (rest = [db.name ++ ".sqlproj"] ∨ db.comparison.isSome = true ∧ rest = [db.name ++ ".scmp"] ∨
      ∃ inner, inner ≠ [] ∧ Allowed sources db inner ∧ rest = db.name :: inner)
  added x content := ∃ place name, folder.target? here = some place ∧ name ∈ dacpacs db ∧
    x = place ++ [Include.lastSegment name] ∧ sources.package name content

variable {sources : Sources} {Also : FileTree → Prop} {allowed : List String → Prop}

theorem descriptorFootprint_le : (besideFootprint here folder (db.name ++ ".sqlproj")).Le
    (projectFootprint here folder sources db) :=
  ⟨fun _ hx => .inl hx, fun _ ⟨place, ht, he⟩ => ⟨place, _, ht, he, .inl rfl⟩, fun _ _ h => h.elim⟩

theorem comparisonFootprint_le (hc : db.comparison.isSome = true) :
    (besideFootprint here folder (db.name ++ ".scmp")).Le (projectFootprint here folder sources db) :=
  ⟨fun _ hx => .inl hx, fun _ ⟨place, ht, he⟩ => ⟨place, _, ht, he, .inr (.inl ⟨hc, rfl⟩)⟩,
    fun _ _ h => h.elim⟩

theorem insideFootprint_mono {name : String} {more : List String → Prop}
    (h : ∀ inner, allowed inner → more inner) :
    (insideFootprint here folder name allowed).Le (insideFootprint here folder name more) :=
  ⟨fun _ hx => hx, fun _ ⟨place, inner, ht, he, hne, ha⟩ => ⟨place, inner, ht, he, hne, h inner ha⟩,
    fun _ _ h => h⟩

theorem insideFootprint_le (h : ∀ inner, allowed inner → Allowed sources db inner) :
    (insideFootprint here folder db.name allowed).Le (projectFootprint here folder sources db) :=
  ⟨fun _ hx => hx, fun _ ⟨place, inner, ht, he, hne, ha⟩ =>
    ⟨place, _, ht, he, .inr (.inr ⟨inner, hne, h inner ha, rfl⟩)⟩, fun _ _ h => h.elim⟩

theorem packageFootprint_le :
    (packageFootprint here folder sources db).Le (projectFootprint here folder sources db) :=
  ⟨fun _ hx => .inl hx, fun _ h => h.elim, fun _ _ h => h⟩

/-- A file right in the folder of a solution. -/
theorem within_writeBeside {name : String} (content : ByteArray) (hn : Path.IsSegment name) :
    (Run.onTree (·.write (folder.join ⟨name⟩) content)).Within (Rooted here)
      (besideFootprint here folder name) := by
  refine Run.within_onTree fun tree new hr h => ?_
  obtain ⟨way, place, hp, hplaced⟩ := write_eq_ok hr.home h
  refine hplaced.within (hn.leadsTo folder) hp hr (fun x hx => hx) fun place ht =>
    ⟨fun front hf => ?_, ⟨place, ht, by simp⟩⟩
  rw [List.prefix_nil.1 hf, List.append_nil]
  exact Path.target_mem_way ht

/-- A file below the folder of a project. -/
theorem within_below {old new : FileTree} {way : List Location} {target : Location}
    {content : File} {inner : Path} {names : List String} {last : String}
    (hn : Path.IsSegment db.name) (hf : inner.fields = names ++ [last])
    (hs : ∀ part ∈ names ++ [last], Path.IsSegment part) (hr : Rooted here old)
    (hp : ((folder.join ⟨db.name⟩).join inner).place? old.workingFolder = some (way, target))
    (h : Placed way target content old new) (ha : allowed inner.fields) :
    Rooted here new ∧ ChangedWithin (insideFootprint here folder db.name allowed) old new := by
  refine h.within ((hn.leadsTo folder).join hf hs) hp hr (fun x hx => .inl hx) fun place ht => ?_
  refine ⟨fun front hfront => ?_, ?_⟩
  · cases front with
    | nil =>
      rw [List.append_nil]
      exact .inl (Path.target_mem_way ht)
    | cons first front =>
      obtain ⟨rfl, -⟩ := List.cons_prefix_cons.1 hfront
      exact .inr ⟨place, front, ht, rfl⟩
  · exact ⟨place, inner.fields, ht, by simp [hf], inner.fields_ne_nil, ha⟩

/-- Where a file of an include is copied to. -/
def includeTarget (folder : Path) (db : Database) (rest : List String) : Path :=
  (folder.join ⟨db.name⟩).join ⟨"/".intercalate rest⟩

theorem fields_includeTarget {rest : List String} (hne : rest ≠ [])
    (hs : ∀ part ∈ rest, isName part = true) : (Path.mk ("/".intercalate rest)).fields = rest :=
  Path.fields_intercalate hne fun part hp => (isSegment_of_isName (hs part hp)).no_separator

theorem leadsTo_includeTarget {rest : List String} (hn : Path.IsSegment db.name) (hne : rest ≠ [])
    (hs : ∀ part ∈ rest, isName part = true) :
    Path.LeadsTo folder (db.name :: rest.dropLast) (rest.getLast hne) (includeTarget folder db rest) := by
  have hfields := fields_includeTarget hne hs
  have hlast := List.dropLast_concat_getLast hne
  refine (hn.leadsTo folder).join (hfields.trans hlast.symm) ?_
  rw [hlast]
  exact fun part hm => isSegment_of_isName (hs part hm)

theorem within_copyEntry {source : Path} {tree : FileTree} {location : Location}
    {entry : List String × FileEntry} (hn : Path.IsSegment db.name) (hw : tree.WellFormed)
    (he : entry ∈ tree.below location)
    (ha : ∀ content, tree.get? (location ++ entry.1) = some (.file content) → allowed entry.1) :
    (copyEntry source (folder.join ⟨db.name⟩) entry).Within (Rooted here)
      (insideFootprint here folder db.name allowed) := by
  obtain ⟨rest, found⟩ := entry
  obtain ⟨hne, hget⟩ := mem_below.1 he
  have hs : ∀ part ∈ rest, Path.IsSegment part := fun part hp =>
    isSegment_of_isName (hw.names _ _ hget part (by simp [hp]))
  unfold copyEntry
  cases found with
  | folder =>
    dsimp only
    split
    · exact Run.within_pure _
    · exact Run.within_of_tree_eq fun _ => rfl
  | file content =>
    dsimp only
    refine Run.within_onTree fun old new hr h => ?_
    obtain ⟨way, place, made, origin, original, hp, -, -, -, hplaced⟩ := copy_eq_ok hr.home h
    have hrest := List.dropLast_concat_getLast hne
    have hfields : (Path.mk ("/".intercalate rest)).fields = rest :=
      Path.fields_intercalate hne fun part hp => (hs part hp).no_separator
    refine within_below hn (hfields.trans hrest.symm) (by rwa [hrest]) hr hp hplaced ?_
    rw [hfields]
    exact ha content hget

theorem within_copyInclude {path : String} (hn : Path.IsSegment db.name)
    (hc : sources.Cover settings db Also) (hp : path ∈ db.includes)
    (ha : ∀ old new, Also old → ChangedWithin
      (insideFootprint here folder db.name (sources.included path)) old new → Also new) :
    (copyInclude settings (folder.join ⟨db.name⟩) path).Within
      (fun tree => Rooted here tree ∧ Also tree)
      (insideFootprint here folder db.name (sources.included path)) := by
  intro s hs
  simp only [copyInclude, Run.exec_get_bind, Run.exec_liftM_bind]
  cases hf : Project.includeFolder settings s.tree path with
  | error e => exact ⟨hs, .refl _⟩
  | ok found =>
    obtain ⟨source, location⟩ := found
    have hall : ((s.tree.below location).forM (copyEntry source (folder.join ⟨db.name⟩))).Within
        (fun tree => Rooted here tree ∧ Also tree)
        (insideFootprint here folder db.name (sources.included path)) := by
      refine Run.within_forM fun entry he => ?_
      refine (within_copyEntry hn hs.1.toWellFormed he fun content hget => ?_).and ha
      exact hc.included s.tree hs.2 path hp source location hf entry.1 content (mem_below.1 he).1 hget
    exact hall s hs

theorem within_copyDacpac {name : String} (hname : name ∈ dacpacs db)
    (hc : sources.Cover settings db Also)
    (ha : ∀ old new, Also old →
      ChangedWithin (packageFootprint here folder sources db) old new → Also new) :
    (Run.onTree (copyDacpac settings folder db name)).Within
      (fun tree => Holding here folder place tree ∧ Also tree) (packageFootprint here folder sources db) := by
  refine Run.within_onTree fun tree new hr h => ?_
  obtain ⟨hr, hAlso⟩ := hr
  obtain ⟨content, hread, -, h⟩ := copyDacpac_eq_ok hr.toHasFolder h
  rcases h with ⟨-, rfl⟩ | ⟨-, hi, hnone, hplaced⟩
  · exact ⟨⟨hr, hAlso⟩, .refl _⟩
  · have ht : folder.target? here = some place := by
      rw [← hr.workingFolder_eq]
      exact hr.target_eq
    have hchanged : ChangedWithin (packageFootprint here folder sources db) tree new := by
      refine hplaced.changedWithin_of_none hnone (fun x hx => ?_)
        ⟨place, name, ht, hname, rfl, hc.package tree hAlso name hname content hread⟩
      rwa [hr.workingFolder_eq] at hx
    have hnames : ∀ part ∈ place ++ [Include.lastSegment name], isName part = true := by
      simpa [or_imp, forall_and] using ⟨hr.names _ _ hr.get?_eq, hi⟩
    have hw := hplaced.wellFormed hr.toWellFormed
      (fun x hx => hr.names x _ (hr.folders x hx)) hnames
    exact ⟨⟨⟨⟨hw, hchanged.workingFolder_eq.trans hr.workingFolder_eq⟩,
      hchanged.hasFolder hr.toHasFolder⟩, ha _ _ hAlso hchanged⟩, hchanged⟩

theorem within_copyDacpacs (hc : sources.Cover settings db Also)
    (ha : ∀ old new, Also old →
      ChangedWithin (packageFootprint here folder sources db) old new → Also new) :
    (copyDacpacs settings folder db).Within (fun tree => Holding here folder place tree ∧ Also tree)
      (packageFootprint here folder sources db) :=
  Run.within_forM fun _ hname => within_copyDacpac hname hc ha

theorem within_writeScripts {scripts : List ScriptFile} (hn : Path.IsSegment db.name)
    (hs : ∀ script ∈ scripts, ∃ names last, script.path.fields = names ++ [last] ∧
      ∀ part ∈ names ++ [last], Path.IsSegment part) :
    (writeScripts (folder.join ⟨db.name⟩) scripts).Within (Rooted here)
      (insideFootprint here folder db.name fun inner => ∃ script ∈ scripts, script.path.fields = inner) := by
  refine Run.within_forM fun script hscript => Run.within_onTree fun tree new hr hwrite => ?_
  obtain ⟨names, last, hf, hsegments⟩ := hs script hscript
  obtain ⟨way, place, hp, hplaced⟩ := write_eq_ok hr.home hwrite
  exact within_below hn hf hsegments hr hp hplaced ⟨script, hscript, rfl⟩

theorem within_writeComparison (hn : Path.IsSegment db.name) (hp : project.name = db.name) :
    (writeComparison folder project db).Within (Rooted here)
      (projectFootprint here folder sources db) := by
  unfold writeComparison
  cases hc : db.comparison with
  | none => exact Run.within_pure _
  | some options =>
    rw [Option.forM, Project.comparisonFileName, hp]
    exact (within_writeBeside _ (.of_ending hn.no_separator (by decide) (by decide))).mono
      (comparisonFootprint_le (by rw [hc]; rfl))

theorem within_copyIncludes (hn : Path.IsSegment db.name) (hc : sources.Cover settings db Also)
    (ha : ∀ old new, Also old → ChangedWithin (insideFootprint here folder db.name
      fun inner => ∃ path ∈ db.includes, sources.included path inner) old new → Also new) :
    (copyIncludes settings folder db).Within (fun tree => Rooted here tree ∧ Also tree)
      (insideFootprint here folder db.name
        fun inner => ∃ path ∈ db.includes, sources.included path inner) := by
  refine Run.within_forM fun path hp => ?_
  have hle : (insideFootprint here folder db.name (sources.included path)).Le (insideFootprint here
      folder db.name fun inner => ∃ path ∈ db.includes, sources.included path inner) :=
    insideFootprint_mono fun inner hi => ⟨path, hp, hi⟩
  exact (within_copyInclude hn hc hp fun old new ho h => ha old new ho (h.mono hle)).mono hle

theorem within_generateProject (hn : db.HasSegmentNames) (hc : sources.Cover settings db Also)
    (ha : ∀ old new, Also old →
      ChangedWithin (projectFootprint here folder sources db) old new → Also new) :
    (generateProject settings ids folder previous db).Within
      (fun tree => Rooted here tree ∧ Also tree) (projectFootprint here folder sources db) := by
  unfold generateProject
  refine (Run.within_of_tree_eq fun _ => tree_takeProject).bind fun s project t hs h => ?_
  have hname := Project.name_of_assemble (exec_takeProject_eq_ok.1 h).1
  have hfile : project.fileName = db.name ++ ".sqlproj" := by rw [Project.fileName, hname]
  have hsegment : Path.IsSegment (db.name ++ ".sqlproj") :=
    .of_ending hn.name.no_separator (by decide) (by decide)
  rw [hfile]
  have hdescriptor : (Run.onTree (·.write (folder.join ⟨db.name ++ ".sqlproj"⟩)
      project.descriptor.toUTF8)).Within (Rooted here) (projectFootprint here folder sources db) :=
    (within_writeBeside _ hsegment).mono descriptorFootprint_le
  replace hdescriptor := hdescriptor.and ha
  refine hdescriptor.bind_of fun s _ t hs h => ?_
  -- from here on there is a folder, in which package files can be told from paths through it
  have ht : Rooted here t.tree ∧ Also t.tree := by
    have hafter := (hdescriptor s hs).1
    rwa [h] at hafter
  obtain ⟨way, place, hp, hplaced⟩ := write_eq_ok hs.1.home (Run.exec_onTree_eq_ok.1 h).1
  obtain ⟨place, hfolder, -⟩ := hplaced.hasFolder (hsegment.leadsTo folder) hp
  refine ⟨fun tree => Holding here folder place tree ∧ Also tree, ⟨⟨ht.1, hfolder⟩, ht.2⟩,
    fun _ h => ⟨h.1.toRooted, h.2⟩, ?_⟩
  refine ((within_writeComparison hn.name hname).and ha).holding.bind fun _ _ _ _ _ => ?_
  have hincluded := @insideFootprint_le here folder db sources
    (fun inner => ∃ path ∈ db.includes, sources.included path inner) fun _ => .inl
  refine ((within_copyIncludes hn.name hc fun old new ho h =>
    ha old new ho (h.mono hincluded)).mono hincluded).holding.bind fun _ _ _ _ _ => ?_
  refine ((within_copyDacpacs hc fun old new ho h =>
    ha old new ho (h.mono packageFootprint_le)).mono packageFootprint_le).bind fun _ _ _ _ _ => ?_
  refine (Run.within_liftM _).bind fun s scripts t _ h => ?_
  have hscripts : db.scripts = .ok scripts := congrArg Prod.fst h
  have hwriting : (writeScripts (folder.join ⟨db.name⟩) scripts).Within (Rooted here)
      (projectFootprint here folder sources db) :=
    (within_writeScripts hn.name fun script => hn.segments_of_mem hscripts).mono
      (insideFootprint_le fun inner ⟨script, hs, hi⟩ => .inr ⟨scripts, script, hscripts, hs, hi⟩)
  exact (hwriting.and ha).holding.bind fun _ _ _ _ _ => Run.within_pure _

theorem within_writeSolution {name : String} {projects : List Project} (hn : Path.IsSegment name) :
    (writeSolution ids folder name projects).Within (Rooted here)
      (besideFootprint here folder (name ++ ".sln")) := by
  unfold writeSolution
  refine (Run.within_of_tree_eq fun _ => rfl).bind fun s guid t _ _ => ?_
  refine Run.Within.bind ?_ fun _ _ _ _ _ => Run.within_pure _
  exact within_writeBeside _ (.of_ending hn.no_separator (by decide) (by decide))

theorem within_generateProjects {done : List Project × Nat} {dbs : List Database}
    (hn : ∀ db ∈ dbs, db.HasSegmentNames) (hc : ∀ db ∈ dbs, sources.Cover settings db Also)
    (ha : ∀ old new, Also old →
      ChangedWithin (.any dbs (projectFootprint here folder sources)) old new → Also new) :
    (generateProjects settings ids folder done dbs).Within (fun tree => Rooted here tree ∧ Also tree)
      (.any dbs (projectFootprint here folder sources)) := by
  refine Run.within_foldlM fun db hdb before => ?_
  have hle := @Footprint.le_any _ dbs (projectFootprint here folder sources) db hdb
  refine ((within_generateProject (hn db hdb) (hc db hdb)
    fun old new ho h => ha old new ho (h.mono hle)).mono hle).bind fun _ _ _ _ _ => ?_
  exact Run.within_pure _

theorem within_generateProjects_all {done : List Project × Nat} {dbs : List Database}
    (hn : ∀ db ∈ dbs, db.HasSegmentNames) :
    (generateProjects settings ids folder done dbs).Within (Rooted here)
      (.any dbs (projectFootprint here folder .all)) := by
  have h : (generateProjects settings ids folder done dbs).Within
      (fun tree => Rooted here tree ∧ True) (.any dbs (projectFootprint here folder .all)) :=
    within_generateProjects hn (fun _ _ => Sources.all_cover) fun _ _ _ _ => trivial
  simpa only [and_true] using h

theorem projectFootprint_le_below :
    (projectFootprint here folder sources db).Le (.below here folder) := by
  constructor
  · rintro x (hx | ⟨place, rest, ht, rfl⟩)
    · exact .inl hx
    · exact .inr ⟨place, _, ht, rfl⟩
  · rintro x ⟨place, rest, ht, rfl, hrest⟩
    refine ⟨place, rest, ht, ?_, rfl⟩
    rcases hrest with rfl | ⟨-, rfl⟩ | ⟨inner, -, -, rfl⟩ <;> simp
  · rintro x content ⟨place, package, ht, -, rfl, -⟩
    exact ⟨place, _, ht, by simp, rfl⟩

theorem besideFootprint_le_below {file : String} :
    (besideFootprint here folder file).Le (.below here folder) :=
  ⟨fun _ hx => .inl hx, fun _ ⟨place, ht, he⟩ => ⟨place, [file], ht, by simp, he⟩, fun _ _ h => h.elim⟩

/-- The folder of a solution is below the output folder. -/
theorem below_join_le {out : Path} {name : String} (hn : Path.IsSegment name) :
    (Footprint.below here (out.join ⟨name⟩)).Le (.below here out) := by
  have hbelow : ∀ place rest, (out.join ⟨name⟩).target? here = some place →
      ∃ base more, out.target? here = some base ∧ more ≠ [] ∧ place ++ rest = base ++ more := by
    intro place rest ht
    obtain ⟨base, hb, -, rfl⟩ := hn.target?_join.1 ht
    exact ⟨base, name :: rest, hb, by simp, by simp⟩
  constructor
  · rintro x (hx | ⟨place, rest, ht, rfl⟩)
    · rcases Path.mem_way_of_join hn hx with hx | ⟨base, hb, rfl⟩
      · exact .inl hx
      · exact .inr ⟨base, _, hb, rfl⟩
    · obtain ⟨base, more, hb, -, he⟩ := hbelow place rest ht
      exact .inr ⟨base, more, hb, he⟩
  · rintro x ⟨place, rest, ht, -, rfl⟩
    exact hbelow place rest ht
  · rintro x - ⟨place, rest, ht, -, rfl⟩
    exact hbelow place rest ht

/-- The databases of a solution that get a project. -/
def projectDatabases (decl : SolutionDecl) : List Database :=
  (Registry.empty.constructAll decl.databases).2.databases.values.filter (·.createProject)

/-- What a solution ends with: its file, when there are projects. -/
def concludeSolution (ids : Nat → String) (folder : Path) (name : String)
    (done : List Project × Nat) : Run SolutionOutput :=
  if done.1.isEmpty then pure ⟨name, folder, done.1, none, done.2⟩
  else do
    let path ← writeSolution ids folder name done.1
    return ⟨name, folder, done.1, some path, done.2⟩

theorem exec_generateSolution {decl : SolutionDecl} :
    (generateSolution settings ids decl).exec s =
      match (Registry.empty.constructAll decl.databases).1 with
      | .error e => (.error e, s)
      | .ok () =>
        (generateProjects settings ids (settings.outputFolder.join ⟨decl.name⟩) ([], 0)
          (projectDatabases decl) >>=
            concludeSolution ids (settings.outputFolder.join ⟨decl.name⟩) decl.name).exec s := by
  unfold generateSolution projectDatabases
  cases h : Registry.empty.constructAll decl.databases with
  | mk result registry =>
    simp only [Run.exec_liftM_bind]
    cases result with
    | error e => rfl
    | ok _ =>
      refine congrArg (fun rest => Run.exec (_ >>= rest) s) (funext fun done => ?_)
      unfold concludeSolution
      split <;> simp

/-- A solution that is generated has its databases constructed, its projects made and is concluded. -/
theorem exec_generateSolution_eq_ok {decl : SolutionDecl} {output : SolutionOutput} :
    (generateSolution settings ids decl).exec s = (.ok output, t) ↔
      (Registry.empty.constructAll decl.databases).1 = .ok () ∧ ∃ done middle,
        (generateProjects settings ids (settings.outputFolder.join ⟨decl.name⟩) ([], 0)
          (projectDatabases decl)).exec s = (.ok done, middle) ∧
        (concludeSolution ids (settings.outputFolder.join ⟨decl.name⟩) decl.name done).exec middle =
          (.ok output, t) := by
  rw [exec_generateSolution]
  cases (Registry.empty.constructAll decl.databases).1 with
  | error e => simp
  | ok _ => simp [Run.exec_bind_eq_ok]

/-- A definition that could be read is followed solution by solution. -/
theorem exec_generate {path : Path} : (generate settings ids path).exec s =
    match readDefinition path s.tree with
    | .error e => (.error e, s)
    | .ok none => (.ok [], s)
    | .ok (some definition) => (definition.solutions.mapM (generateSolution settings ids)).exec s := by
  simp only [generate, Run.exec_get_bind, Run.exec_liftM_bind]
  cases readDefinition path s.tree with
  | error e => rfl
  | ok found => cases found <;> rfl

theorem exec_generate_of_read {tree : FileTree} {definition : Definition} {decls : List SolutionDecl}
    {result : Except GenerationError (List SolutionOutput) × RunState}
    (hread : readDefinition path tree = .ok (some definition)) (hdecls : definition.solutions = decls)
    (h : (decls.mapM (generateSolution settings ids)).exec ⟨tree, 0⟩ = result) :
    (generate settings ids path).exec ⟨tree, 0⟩ = result := by
  rw [exec_generate, hread, ← h, ← hdecls]

theorem exists_definition {found : Except GenerationError (Option Definition)}
    {decls : List SolutionDecl} (h : found.toOption.join.map (·.solutions) = some decls) :
    ∃ definition, found = .ok (some definition) ∧ definition.solutions = decls := by
  obtain ⟨definition, hd, hs⟩ := Option.map_eq_some_iff.1 h
  exact ⟨definition, toOption_eq_some.1 (Option.join_eq_some_iff.1 hd), hs⟩

theorem fromUTF8?_toUTF8 (text : String) : String.fromUTF8? text.toUTF8 = some text := by
  simp only [String.fromUTF8?, Option.dite_none_right_eq_some]
  exact ⟨text.isValidUTF8, rfl⟩

/-- A definition is what is in the text of the file. -/
theorem exists_definition_of_text {tree : FileTree} {text : String} {decls : List SolutionDecl}
    (hl : tree.locate? path = some place) (hg : tree.get? place = some (.file text.toUTF8))
    (ht : ((Xml.Document.root? text).bind fun root =>
      (Definition.ofElement root).toOption.join.map (·.solutions)) = some decls) :
    ∃ definition, readDefinition path tree = .ok (some definition) ∧ definition.solutions = decls := by
  refine exists_definition ?_
  obtain ⟨root, hroot, hdecls⟩ := Option.bind_eq_some_iff.1 ht
  rw [readDefinition, read?_eq_some.2 ⟨place, hl, hg⟩, Option.bind_some, fromUTF8?_toUTF8]
  dsimp only
  rw [hroot]
  dsimp only
  rw [← hdecls]
  cases Definition.ofElement root <;> rfl

/-- The databases that get a project are those that their declarations ask one for, in their order. -/
theorem constructed_projectDatabases {decl : SolutionDecl}
    (hok : (Registry.empty.constructAll decl.databases).1 = .ok ()) :
    List.Forall₂ Database.Constructed (decl.databases.filter (·.createProject)) (projectDatabases decl) := by
  obtain ⟨dbs, hall, hvalues, -⟩ := Registry.constructed_of_constructAll (Prod.ext hok rfl)
  rw [projectDatabases, hvalues]
  change List.Forall₂ _ _ (dbs.filter (·.createProject))
  clear hvalues hok
  generalize decl.databases = decls at hall
  induction hall with
  | nil => exact .nil
  | @cons declared db _ _ hdb _ ih =>
    have hsame : db.createProject = declared.createProject := by
      rw [hdb.settings]
      rfl
    simp only [List.filter_cons, hsame]
    split
    · exact .cons hdb ih
    · exact ih

theorem constructed_of_mem {decl : SolutionDecl}
    (hok : (Registry.empty.constructAll decl.databases).1 = .ok ())
    (hdb : db ∈ projectDatabases decl) :
    ∃ declared ∈ decl.databases, db.Constructed declared := by
  obtain ⟨declared, hd, hc⟩ := exists_left_of_forall₂ (constructed_projectDatabases hok) hdb
  exact ⟨declared, List.mem_of_mem_filter hd, hc⟩

/-- No two databases of a solution are declared with one name. -/
theorem nodup_declared {decl : SolutionDecl}
    (hok : (Registry.empty.constructAll decl.databases).1 = .ok ()) :
    (decl.databases.map (·.name)).Nodup := by
  obtain ⟨_, -, -, hkeys⟩ := Registry.constructed_of_constructAll (Prod.ext hok rfl)
  have hnodup : (Registry.empty.constructAll decl.databases).2.databases.keys.Nodup :=
    (Registry.empty.constructAll decl.databases).2.databases.nodup
  rw [hkeys] at hnodup
  simpa [Registry.empty] using hnodup

theorem names_projectDatabases {decl : SolutionDecl}
    (hok : (Registry.empty.constructAll decl.databases).1 = .ok ()) :
    (projectDatabases decl).map (·.name) = (decl.databases.filter (·.createProject)).map (·.name) := by
  have hall := constructed_projectDatabases hok
  generalize projectDatabases decl = dbs at hall
  generalize decl.databases.filter (·.createProject) = decls at hall
  induction hall with
  | nil => rfl
  | cons hfirst _ ih => rw [List.map_cons, List.map_cons, ih, hfirst.name_eq]

/-- No two projects of a solution have one name. -/
theorem nodup_projectDatabases {decl : SolutionDecl}
    (hok : (Registry.empty.constructAll decl.databases).1 = .ok ()) :
    ((projectDatabases decl).map (·.name)).Nodup := by
  rw [names_projectDatabases hok]
  exact (nodup_declared hok).sublist (List.Sublist.map _ List.filter_sublist)

theorem hasSegmentNames_of_mem {decl : SolutionDecl} (hn : decl.HasSegmentNames)
    (hok : (Registry.empty.constructAll decl.databases).1 = .ok ())
    (hdb : db ∈ projectDatabases decl) : db.HasSegmentNames := by
  obtain ⟨declared, hd, hc⟩ := constructed_of_mem hok hdb
  exact hc.hasSegmentNames (hn.databases declared hd)

theorem within_concludeSolution {name : String} {done : List Project × Nat} (hn : Path.IsSegment name) :
    (concludeSolution ids folder name done).Within (Rooted here)
      (besideFootprint here folder (name ++ ".sln")) := by
  unfold concludeSolution
  split
  · exact Run.within_pure _
  · exact (within_writeSolution hn).bind fun _ _ _ _ _ => Run.within_pure _

/-- What a solution changes is below its own folder, whatever comes of it. -/
theorem within_ownFolder {decl : SolutionDecl} (hn : decl.HasSegmentNames) :
    (generateSolution settings ids decl).Within (Rooted here)
      (.below here (settings.outputFolder.join ⟨decl.name⟩)) := by
  intro s hs
  rw [exec_generateSolution]
  cases hok : (Registry.empty.constructAll decl.databases).1 with
  | error e => exact ⟨hs, .refl _⟩
  | ok _ =>
    have hprojects : (generateProjects settings ids (settings.outputFolder.join ⟨decl.name⟩) ([], 0)
        (projectDatabases decl)).Within (Rooted here)
          (.below here (settings.outputFolder.join ⟨decl.name⟩)) :=
      (within_generateProjects_all fun db => hasSegmentNames_of_mem hn hok).mono
        (Footprint.any_le fun db _ => projectFootprint_le_below)
    refine (hprojects.bind fun _ done _ _ _ => ?_) s hs
    exact (within_concludeSolution hn.name).mono besideFootprint_le_below

theorem within_generateSolution {decl : SolutionDecl} (hn : decl.HasSegmentNames) :
    (generateSolution settings ids decl).Within (Rooted here)
      (.below here settings.outputFolder) :=
  (within_ownFolder hn).mono (below_join_le hn.name)

theorem within_mapM_generateSolution {decls : List SolutionDecl}
    (hn : ∀ decl ∈ decls, decl.HasSegmentNames) : (decls.mapM (generateSolution settings ids)).Within
      (Rooted here) (.below here settings.outputFolder) :=
  Run.within_mapM fun decl hd => within_generateSolution (hn decl hd)

end Generate

end DatabaseProject
