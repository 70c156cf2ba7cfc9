import DatabaseProject.Proofs.SolutionFootprint

/-!
# What is there after a solution has been generated

Several kinds of files are written to one folder one after the other, and each kind has a rule of
its own for what it may overwrite. Every step leaves its files behind, and no later step writes
where an earlier artifact is; so all artifacts are there in the end, and nothing else has changed.
-/

namespace DatabaseProject

open FileTree Outcome

namespace Generate

variable {settings : Settings} {ids : Nat → String} {here place : Location} {folder : Path}
  {db other : Database} {dbs : List Database} {project : Project} {previous : List Project}
  {s t : RunState} {initial old new tree : FileTree}

/-- The place that an include path names. -/
def includePlace? (settings : Settings) (here : Location) (path : String) : Option Location :=
  (Include.resolve settings.projectFolder settings.packages path).toOption.bind (·.target? here)

/-- The file that an include has at a place below it. -/
def includedFile? (settings : Settings) (here : Location) (tree : FileTree) (path : String)
    (rest : List String) : Option File :=
  (includePlace? settings here path).bind fun place => tree.fileAt? (place ++ rest)

/-- The file that a dependency on a package names. -/
def packageFile? (settings : Settings) (here : Location) (tree : FileTree) (name : String) :
    Option File :=
  ((dacpacSource settings name).target? here).bind tree.fileAt?

/-- No include of the databases is in a folder, and the folder is in no include. -/
def IncludesApart (settings : Settings) (here : Location) (folder : Path) (dbs : List Database) :
    Prop :=
  ∀ db ∈ dbs, ∀ path ∈ db.includes, ∀ inside ∈ includePlace? settings here path,
    ∀ place ∈ folder.target? here, place.Apart inside

instance (settings : Settings) (here : Location) (folder : Path) (dbs : List Database) :
    Decidable (IncludesApart settings here folder dbs) :=
  inferInstanceAs (Decidable (∀ db ∈ dbs, ∀ path ∈ db.includes,
    ∀ inside ∈ includePlace? settings here path, ∀ place ∈ folder.target? here, place.Apart inside))

/-- Includes that do not lead upwards are where the project is, or a package. -/
theorem includesApart_of_disjoint
    (hup : ∀ db ∈ dbs, ∀ path ∈ db.includes, ".." ∉ Include.segments path)
    (hproject : ∀ base ∈ settings.projectFolder.target? here, ∀ place ∈ folder.target? here, place.Apart base)
    (hpackages : ∀ package base, settings.packages.get? package = some base →
      ∀ place ∈ base.target? here, ∀ other ∈ folder.target? here, other.Apart place) :
    IncludesApart settings here folder dbs := by
  intro db hdb path hp inside hi place ht
  obtain ⟨source, hf, hinside⟩ := Option.bind_eq_some_iff.1 hi
  obtain ⟨base, pieces, hbase, hpieces, rfl⟩ := Include.resolve_eq_ok (toOption_eq_some.1 hf)
  obtain ⟨start, hstart, more, rfl⟩ := Path.target?_joinAll_inside
    (fun piece hm => Include.no_separator_of_mem_segments (hpieces piece hm))
    (fun hm => hup db hdb path hp (hpieces _ hm)) hinside
  have hapart : place.Apart start := by
    rcases hbase with rfl | ⟨package, hpackage⟩
    · exact hproject start hstart place ht
    · exact hpackages package base hpackage start hstart place ht
  have hall := hapart.append [] more
  rwa [List.append_nil] at hall

/-- A tree has the same files as another one, outside a folder. -/
structure SameOutside (here : Location) (folder : Path) (initial tree : FileTree) : Prop where
  workingFolder_eq : tree.workingFolder = here
  files : ∀ x, (∀ place, folder.target? here = some place → ¬ place <+: x) →
    tree.fileAt? x = initial.fileAt? x

theorem SameOutside.trans_changedWithin {p : Footprint} (h : SameOutside here folder initial old)
    (hc : ChangedWithin p old new)
    (hw : ∀ x, p.written x → ∃ place, folder.target? here = some place ∧ place <+: x)
    (ha : ∀ x content, p.added x content → ∃ place, folder.target? here = some place ∧ place <+: x) :
    SameOutside here folder initial new where
  workingFolder_eq := hc.workingFolder_eq.trans h.workingFolder_eq
  files x hx := by
    rw [← h.files x hx]
    apply hc.fileAt?_eq
    · intro hp
      obtain ⟨place, ht, hin⟩ := hw x hp
      exact hx place ht hin
    · intro content hp
      obtain ⟨place, ht, hin⟩ := ha x content hp
      exact hx place ht hin

theorem sameOutside_of_project {sources : Sources} (h : SameOutside here folder initial old)
    (hc : ChangedWithin (projectFootprint here folder sources db) old new) :
    SameOutside here folder initial new := by
  refine h.trans_changedWithin hc ?_ ?_
  · rintro x ⟨place, rest, ht, rfl, -⟩
    exact ⟨place, ht, List.prefix_append _ _⟩
  · rintro x content ⟨place, name, ht, -, rfl, -⟩
    exact ⟨place, ht, List.prefix_append _ _⟩

theorem sameOutside_of_projects {sources : Sources} (h : SameOutside here folder initial old)
    (hc : ChangedWithin (.any dbs (projectFootprint here folder sources)) old new) :
    SameOutside here folder initial new := by
  refine h.trans_changedWithin hc ?_ ?_
  · rintro x ⟨db, -, place, rest, ht, rfl, -⟩
    exact ⟨place, ht, List.prefix_append _ _⟩
  · rintro x content ⟨db, -, place, name, ht, -, rfl, -⟩
    exact ⟨place, ht, List.prefix_append _ _⟩

/-- The sources as they are in a tree; nothing is said of package files in the folder itself. -/
def Sources.ofTree (settings : Settings) (here : Location) (folder : Path) (tree : FileTree) :
    Sources where
  included path rest := ∃ content, includedFile? settings here tree path rest = some content
  package name content :=
    (∀ source place, (dacpacSource settings name).target? here = some source →
      folder.target? here = some place → ¬ place <+: source) →
    packageFile? settings here tree name = some content

theorem includePlace?_of_includeFolder {path : String} {source : Path}
    (h : Project.includeFolder settings tree path = .ok (source, place)) :
    includePlace? settings tree.workingFolder path = some place ∧
      source.target? tree.workingFolder = some place := by
  obtain ⟨hr, hl, -⟩ := Project.includeFolder_eq_ok.1 h
  have ht := target?_of_locate? hl
  exact ⟨by rw [includePlace?, hr]; exact ht, ht⟩

/-- What is in an include lies outside the folder of the solution. -/
theorem IncludesApart.not_prefix (h : IncludesApart settings here folder dbs) (hdb : db ∈ dbs)
    {path : String} (hp : path ∈ db.includes) {inside : Location}
    (hi : includePlace? settings here path = some inside) (ht : folder.target? here = some place)
    (rest : List String) : ¬ place <+: inside ++ rest := by
  have happart := (h db hdb path hp inside hi place ht).append [] rest
  rw [List.append_nil] at happart
  exact happart.1

theorem IncludesApart.included_of_get? (h : IncludesApart settings here folder dbs) (hdb : db ∈ dbs)
    {path : String} (hp : path ∈ db.includes) (ht : SameOutside here folder initial tree)
    {inside : Location} (hi : includePlace? settings here path = some inside) {rest : List String} :
    includedFile? settings here initial path rest = tree.fileAt? (inside ++ rest) := by
  rw [includedFile?, hi, Option.bind_some]
  exact (ht.files _ fun place hplace => h.not_prefix hdb hp hi hplace rest).symm

theorem ofTree_cover (h : IncludesApart settings here folder dbs) (hdb : db ∈ dbs) :
    (Sources.ofTree settings here folder initial).Cover settings db
      (SameOutside here folder initial) where
  included tree ht path hp source location hf rest content _ hget := by
    obtain ⟨hi, -⟩ := includePlace?_of_includeFolder hf
    rw [ht.workingFolder_eq] at hi
    refine ⟨content, ?_⟩
    rw [h.included_of_get? hdb hp ht hi, fileAt?_eq_some.2 hget]
  package tree ht name hn content hr hout := by
    obtain ⟨source, hl, hget⟩ := read?_eq_some.1 hr
    have hsource := target?_of_locate? hl
    rw [ht.workingFolder_eq] at hsource
    rw [packageFile?, hsource, Option.bind_some,
      ← ht.files _ fun place hplace => hout source place hsource hplace, fileAt?_eq_some.2 hget]

theorem written_beside {name : String} {rest : List String} (ht : folder.target? here = some place) :
    (besideFootprint here folder name).written (place ++ rest) ↔ rest = [name] := by
  constructor
  · rintro ⟨other, ho, he⟩
    obtain rfl := Option.some.inj (ht.symm.trans ho)
    exact List.append_cancel_left he
  · rintro rfl
    exact ⟨place, ht, rfl⟩

theorem written_inside {name : String} {allowed : List String → Prop} {rest : List String}
    (ht : folder.target? here = some place) :
    (insideFootprint here folder name allowed).written (place ++ rest) ↔
      ∃ inner, inner ≠ [] ∧ allowed inner ∧ rest = name :: inner := by
  constructor
  · rintro ⟨other, inner, ho, he, hne, ha⟩
    obtain rfl := Option.some.inj (ht.symm.trans ho)
    exact ⟨inner, hne, ha, List.append_cancel_left he⟩
  · rintro ⟨inner, hne, ha, rfl⟩
    exact ⟨place, inner, ht, rfl, hne, ha⟩

theorem written_project {sources : Sources} {rest : List String}
    (ht : folder.target? here = some place) :
    (projectFootprint here folder sources db).written (place ++ rest) ↔
      rest = [db.name ++ ".sqlproj"] ∨ db.comparison.isSome = true ∧ rest = [db.name ++ ".scmp"] ∨
        ∃ inner, inner ≠ [] ∧ Allowed sources db inner ∧ rest = db.name :: inner := by
  constructor
  · rintro ⟨other, rest', ho, he, h⟩
    obtain rfl := Option.some.inj (ht.symm.trans ho)
    rwa [List.append_cancel_left he]
  · intro h
    exact ⟨place, rest, ht, rfl, h⟩

theorem read?_of_leadsTo {p : Footprint} {inner : List String} {name : String} {path : Path}
    {content : File} (hl : Path.LeadsTo folder inner name path)
    (hr : old.read? path = some content) (hc : ChangedWithin p old new)
    (hw : ∀ place, folder.target? old.workingFolder = some place →
      ¬ p.written (place ++ (inner ++ [name]))) : new.read? path = some content := by
  refine hc.read?_eq hr fun x hx => ?_
  obtain ⟨place, ht, rfl, -⟩ := hl.target?_eq_some.1 hx
  rw [List.append_assoc]
  exact hw place ht

theorem leadsTo_inside {inner : Path} (hn : Path.IsSegment db.name) (hne : inner.fields ≠ [])
    (hs : ∀ part ∈ inner.fields, Path.IsSegment part) :
    Path.LeadsTo folder (db.name :: inner.fields.dropLast) (inner.fields.getLast hne)
      ((folder.join ⟨db.name⟩).join inner) := by
  have hlast := List.dropLast_concat_getLast hne
  exact (hn.leadsTo folder).join hlast.symm (by rwa [hlast])

/-- A file below the folder of a project is kept by what does not write to its place. -/
theorem read?_inside {p : Footprint} {inner : Path} {content : File}
    (hn : Path.IsSegment db.name) (hs : ∀ part ∈ inner.fields, Path.IsSegment part)
    (hr : old.read? ((folder.join ⟨db.name⟩).join inner) = some content) (hc : ChangedWithin p old new)
    (hw : ∀ place, folder.target? old.workingFolder = some place →
      ¬ p.written (place ++ db.name :: inner.fields)) :
    new.read? ((folder.join ⟨db.name⟩).join inner) = some content := by
  refine read?_of_leadsTo (leadsTo_inside hn inner.fields_ne_nil hs) hr hc fun place ht => ?_
  rw [List.cons_append, List.dropLast_concat_getLast]
  exact hw place ht

theorem read?_beside {p : Footprint} {name : String} {content : File}
    (hn : Path.IsSegment name) (hr : old.read? (folder.join ⟨name⟩) = some content)
    (hc : ChangedWithin p old new)
    (hw : ∀ place, folder.target? old.workingFolder = some place → ¬ p.written (place ++ [name])) :
    new.read? (folder.join ⟨name⟩) = some content :=
  read?_of_leadsTo (hn.leadsTo folder) hr hc hw

theorem establishes_script {scripts : List ScriptFile} (hn : db.HasSegmentNames)
    (hscripts : db.scripts = .ok scripts) {script : ScriptFile} (hm : script ∈ scripts)
    (hs : Rooted here s.tree)
    (h : (Run.onTree (·.write ((folder.join ⟨db.name⟩).join script.path)
      script.content.toUTF8)).exec s = (.ok (), t)) :
    Rooted here t.tree ∧
      ChangedWithin (insideFootprint here folder db.name (· = script.path.fields)) s.tree t.tree ∧
      t.tree.read? ((folder.join ⟨db.name⟩).join script.path) = some (script.content.toUTF8 : File) := by
  obtain ⟨names, last, hf, hparts⟩ := hn.segments_of_mem hscripts hm
  obtain ⟨way, target, hp, hplaced⟩ := write_eq_ok hs.home (Run.exec_onTree_eq_ok.1 h).1
  have hwithin : Rooted here t.tree ∧ ChangedWithin
      (insideFootprint here folder db.name (· = script.path.fields)) s.tree t.tree :=
    within_below hn.name hf hparts hs hp hplaced rfl
  exact ⟨hwithin.1, hwithin.2, hplaced.read?_eq ((hn.name.leadsTo folder).join hf hparts) hp⟩

theorem writeScripts_establishes {scripts : List ScriptFile} (hn : db.HasSegmentNames)
    (hc : db.Coherent) (hscripts : db.scripts = .ok scripts) (hs : Rooted here s.tree)
    (h : (writeScripts (folder.join ⟨db.name⟩) scripts).exec s = (.ok (), t)) :
    ∀ script ∈ scripts,
      t.tree.read? ((folder.join ⟨db.name⟩).join script.path) = some (script.content.toUTF8 : File) := by
  refine Run.forM_establishes (Rooted here) (fun (script : ScriptFile) tree =>
    tree.read? ((folder.join ⟨db.name⟩).join script.path) = some (script.content.toUTF8 : File))
    (fun script hm s t hs h => ?_) (fun script hm other ho s t hs h hread => ?_) hs h
  · obtain ⟨hr, -, hread⟩ := establishes_script hn hscripts hm hs h
    exact ⟨hr, hread⟩
  · obtain ⟨-, hchanged, hother⟩ := establishes_script hn hscripts ho hs h
    by_cases he : script.path.fields = other.path.fields
    · rwa [Database.script_unique hc hn hscripts hm ho he]
    · obtain ⟨names, last, hf, hparts⟩ := hn.segments_of_mem hscripts hm
      refine read?_inside hn.name (by rwa [hf]) hread hchanged fun place ht hw => he ?_
      rw [hs.workingFolder_eq] at ht
      obtain ⟨inner, -, rfl, hinner⟩ := (written_inside ht).1 hw
      exact (List.cons.inj hinner).2

/-- The content of a file in the last include that has it. -/
def lastIncluded? (settings : Settings) (here : Location) (tree : FileTree) (db : Database)
    (rest : List String) : Option File :=
  db.includes.reverse.findSome? fun path => includedFile? settings here tree path rest

theorem SameOutside.inside {allowed : List String → Prop} (h : SameOutside here folder initial old)
    (hc : ChangedWithin (insideFootprint here folder db.name allowed) old new) :
    SameOutside here folder initial new := by
  refine h.trans_changedWithin hc ?_ fun _ _ h => h.elim
  rintro x ⟨place, inner, ht, rfl, -⟩
  exact ⟨place, ht, List.prefix_append _ _⟩

/-- A file of an include is kept by what does not write to its place. -/
theorem read?_includeTarget {p : Footprint} {rest : List String} {content : File}
    (hn : Path.IsSegment db.name) (hne : rest ≠ []) (hs : ∀ part ∈ rest, isName part = true)
    (hr : old.read? (includeTarget folder db rest) = some content) (hc : ChangedWithin p old new)
    (hw : ∀ place, folder.target? old.workingFolder = some place →
      ¬ p.written (place ++ db.name :: rest)) :
    new.read? (includeTarget folder db rest) = some content := by
  have hfields := fields_includeTarget hne hs
  refine read?_inside hn ?_ hr hc ?_
  · rw [hfields]
    exact fun part hm => isSegment_of_isName (hs part hm)
  · rwa [hfields]

theorem SameOutside.beside {name : String} (h : SameOutside here folder initial old)
    (hc : ChangedWithin (besideFootprint here folder name) old new) :
    SameOutside here folder initial new := by
  refine h.trans_changedWithin hc ?_ fun _ _ h => h.elim
  rintro x ⟨place, ht, rfl⟩
  exact ⟨place, ht, List.prefix_append _ _⟩

theorem copyEntry_establishes {path : String} {source : Path} {location : Location}
    {rest : List String} {content : File} (hn : Path.IsSegment db.name)
    (hapart : IncludesApart settings here folder dbs) (hdb : db ∈ dbs) (hp : path ∈ db.includes)
    (hi : includePlace? settings here path = some location)
    (hsource : source.target? here = some location) (hne : rest ≠ [])
    (hnames : ∀ part ∈ rest, isName part = true)
    (hcontent : includedFile? settings here initial path rest = some content)
    (hs : Rooted here s.tree) (hsame : SameOutside here folder initial s.tree)
    (h : (Run.onTree (·.copy (source.joinAll rest) (includeTarget folder db rest))).exec s =
      (.ok (), t)) :
    t.tree.read? (includeTarget folder db rest) = some content := by
  obtain ⟨way, target, made, origin, original, hplace, hmade, hl, horiginal, hplaced⟩ :=
    copy_eq_ok hs.home (Run.exec_onTree_eq_ok.1 h).1
  have hleads : Path.LeadsTo folder (db.name :: rest.dropLast) (rest.getLast hne)
      (includeTarget folder db rest) := leadsTo_includeTarget hn hne hnames
  -- the source is the file that the include has
  obtain rfl : origin = location ++ rest := by
    have ht := target?_of_locate? hl
    rw [hmade.workingFolder_eq, hs.workingFolder_eq, Path.target?_joinAll_names hsource hnames] at ht
    exact (Option.some.inj ht).symm
  obtain rfl : original = content := by
    rw [hapart.included_of_get? hdb hp hsame hi, fileAt?_eq_some.2 horiginal] at hcontent
    exact Option.some.inj hcontent
  -- and it is not the file that is written
  have hother : location ++ rest ≠ target := by
    obtain ⟨place, ht, rfl, -⟩ := hleads.place? hplace
    rw [hs.workingFolder_eq] at ht
    intro he
    apply hapart.not_prefix hdb hp hi ht rest
    rw [he, List.append_assoc]
    exact List.prefix_append _ _
  rw [if_neg hother] at hplaced
  exact hplaced.read?_eq hleads hplace

/-- Behind the copying of an include every file of it is there. -/
theorem copyInclude_establishes {path : String} {rest : List String} {content : File}
    (hn : Path.IsSegment db.name) (hapart : IncludesApart settings here folder dbs) (hdb : db ∈ dbs)
    (hp : path ∈ db.includes) (hs : Rooted here s.tree) (hsame : SameOutside here folder initial s.tree)
    (h : (copyInclude settings (folder.join ⟨db.name⟩) path).exec s = (.ok (), t)) (hne : rest ≠ [])
    (hcontent : includedFile? settings here initial path rest = some content) :
    t.tree.read? (includeTarget folder db rest) = some content := by
  simp only [copyInclude, Run.exec_get_bind, Run.exec_liftM_bind] at h
  cases hf : Project.includeFolder settings s.tree path with
  | error e => simp [hf] at h
  | ok found =>
    obtain ⟨source, location⟩ := found
    rw [hf] at h
    obtain ⟨hi, hsource⟩ := includePlace?_of_includeFolder hf
    rw [hs.workingFolder_eq] at hi hsource
    have hnames : ∀ entry ∈ s.tree.below location, ∀ part ∈ entry.1, isName part = true :=
      fun entry he part hm => hs.names _ _ (mem_below.1 he).2 part (by simp [hm])
    have hentry : (rest, .file content) ∈ s.tree.below location := by
      rw [hapart.included_of_get? hdb hp hsame hi] at hcontent
      exact mem_below.2 ⟨hne, fileAt?_eq_some.1 hcontent⟩
    have hwithin : ∀ entry ∈ s.tree.below location, ∀ s' t',
        Rooted here s'.tree ∧ SameOutside here folder initial s'.tree →
        (copyEntry source (folder.join ⟨db.name⟩) entry).exec s' = (.ok (), t') →
        (Rooted here t'.tree ∧ SameOutside here folder initial t'.tree) ∧
          ChangedWithin (insideFootprint here folder db.name (· = entry.1)) s'.tree t'.tree := by
      intro entry he s' t' hs' h'
      have hentry : (copyEntry source (folder.join ⟨db.name⟩) entry).Within (Rooted here)
          (insideFootprint here folder db.name (· = entry.1)) :=
        within_copyEntry hn hs.toWellFormed he fun _ _ => rfl
      obtain ⟨hr, hchanged⟩ := hentry.of_exec hs'.1 h'
      exact ⟨⟨hr, hs'.2.inside hchanged⟩, hchanged⟩
    have hcopied : ∀ entry ∈ s.tree.below location, ∀ s' t',
        Rooted here s'.tree ∧ SameOutside here folder initial s'.tree →
        (copyEntry source (folder.join ⟨db.name⟩) entry).exec s' = (.ok (), t') →
        ∀ content, entry.2 = .file content →
          t'.tree.read? (includeTarget folder db entry.1) = some content := by
      rintro ⟨inner, -⟩ he s' t' hs' h' content rfl
      obtain ⟨hinner, hget⟩ := mem_below.1 he
      refine copyEntry_establishes hn hapart hdb hp hi hsource hinner (hnames _ he) ?_ hs'.1 hs'.2 h'
      rw [hapart.included_of_get? hdb hp hsame hi]
      exact fileAt?_eq_some.2 hget
    have hall := Run.forM_establishes
      (fun tree => Rooted here tree ∧ SameOutside here folder initial tree)
      (fun (entry : List String × FileEntry) tree => ∀ content, entry.2 = .file content →
        tree.read? (includeTarget folder db entry.1) = some content)
      (fun entry he s' t' hs' h' => ⟨(hwithin entry he s' t' hs' h').1, hcopied entry he s' t' hs' h'⟩)
      (fun entry he other ho s' t' hs' h' hread content hc => ?_) ⟨hs, hsame⟩ h
    · exact hall _ hentry content rfl
    · by_cases hkey : entry.1 = other.1
      · obtain rfl := List.inj_on_of_nodup_map nodup_keys_below he ho hkey
        exact hcopied entry he s' t' hs' h' content hc
      · refine read?_includeTarget hn (mem_below.1 he).1 (hnames entry he) (hread content hc)
          (hwithin other ho s' t' hs' h').2 fun place ht hw => hkey ?_
        rw [hs'.1.workingFolder_eq] at ht
        obtain ⟨inner, -, rfl, hinner⟩ := (written_inside ht).1 hw
        exact (List.cons.inj hinner).2

/-- Behind the copying of all includes every file of them is there as the last of them has it. -/
theorem copyIncludes_establishes {rest : List String} {content : File}
    (hn : Path.IsSegment db.name) (hapart : IncludesApart settings here folder dbs) (hdb : db ∈ dbs)
    (hs : Rooted here s.tree) (hsame : SameOutside here folder initial s.tree)
    (h : (copyIncludes settings folder db).exec s = (.ok (), t)) (hne : rest ≠ [])
    (hnames : ∀ part ∈ rest, isName part = true)
    (hcontent : lastIncluded? settings here initial db rest = some content) :
    t.tree.read? (includeTarget folder db rest) = some content := by
  obtain ⟨later, path, earlier, hsplit, hfile, hlater⟩ := List.findSome?_eq_some_iff.1 hcontent
  replace hsplit : db.includes = earlier.reverse ++ path :: later.reverse := by
    simpa using congrArg List.reverse hsplit
  have hin : ∀ other ∈ earlier.reverse ++ path :: later.reverse, other ∈ db.includes := by
    rw [hsplit]
    exact fun _ ho => ho
  have hwithin : ∀ other ∈ db.includes, ∀ s' t',
      Rooted here s'.tree ∧ SameOutside here folder initial s'.tree →
      (copyInclude settings (folder.join ⟨db.name⟩) other).exec s' = (.ok (), t') →
      (Rooted here t'.tree ∧ SameOutside here folder initial t'.tree) ∧
        ChangedWithin (insideFootprint here folder db.name
          ((Sources.ofTree settings here folder initial).included other)) s'.tree t'.tree :=
    fun other ho s' t' hs' h' => (within_copyInclude hn (ofTree_cover hapart hdb) ho
      fun _ _ h hc => h.inside hc).of_exec hs' h'
  rw [copyIncludes, hsplit] at h
  obtain ⟨before, hbefore, h⟩ := Run.exec_forM_append.1 h
  obtain ⟨middle, hpath, h⟩ := Run.exec_forM_cons.1 h
  have hstart : Rooted here before.tree ∧ SameOutside here folder initial before.tree :=
    Run.forM_preserves (fun tree => Rooted here tree ∧ SameOutside here folder initial tree)
      (fun other ho s' t' hs' h' => (hwithin other (hin other (by simp [ho])) s' t' hs' h').1)
      ⟨hs, hsame⟩ hbefore
  have hpathin : path ∈ db.includes := hin path (by simp)
  have hread := copyInclude_establishes hn hapart hdb hpathin hstart.1 hstart.2 hpath hne hfile
  have hkept := Run.forM_preserves
    (fun tree => (Rooted here tree ∧ SameOutside here folder initial tree) ∧
      tree.read? (includeTarget folder db rest) = some content)
    (fun other ho s' t' hs' h' => ?_) ⟨(hwithin path hpathin before middle hstart hpath).1, hread⟩ h
  · exact hkept.2
  · obtain ⟨hafter, hchanged⟩ := hwithin other (hin other (by simp [ho])) s' t' hs'.1 h'
    refine ⟨hafter, read?_includeTarget hn hne hnames hs'.2 hchanged fun place ht hw => ?_⟩
    rw [hs'.1.1.workingFolder_eq] at ht
    obtain ⟨inner, -, ⟨found, hfound⟩, hinner⟩ := (written_inside ht).1 hw
    obtain rfl := (List.cons.inj hinner).2
    rw [hlater other (List.mem_reverse.1 ho)] at hfound
    cases hfound

theorem read?_of_writeBeside {name : String} {content : ByteArray} (hn : Path.IsSegment name)
    (hr : Rooted here old) (h : old.write (folder.join ⟨name⟩) content = .ok new) :
    new.read? (folder.join ⟨name⟩) = some content := by
  obtain ⟨way, target, hp, hplaced⟩ := write_eq_ok hr.home h
  exact hplaced.read?_eq (hn.leadsTo folder) hp

/-- The project file and the schema comparison of a project are there. -/
structure HoldsFiles (folder : Path) (tree : FileTree) (db : Database) (project : Project) : Prop where
  descriptor : tree.read? (folder.join ⟨db.name ++ ".sqlproj"⟩) = some (project.descriptor.toUTF8 : File)
  comparison : ∀ options, db.comparison = some options →
    tree.read? (folder.join ⟨db.name ++ ".scmp"⟩) = some ((project.comparison options).toUTF8 : File)

theorem HoldsFiles.mono {p : Footprint} (h : HoldsFiles folder old db project)
    (hn : Path.IsSegment db.name) (hold : old.workingFolder = here) (hc : ChangedWithin p old new)
    (hfiles : ∀ place, folder.target? here = some place →
      ¬ p.written (place ++ [db.name ++ ".sqlproj"]) ∧ ¬ p.written (place ++ [db.name ++ ".scmp"])) :
    HoldsFiles folder new db project where
  descriptor := read?_beside (.of_ending hn.no_separator (by decide) (by decide)) h.descriptor hc
    fun place ht => (hfiles place (hold ▸ ht)).1
  comparison options ho := read?_beside (.of_ending hn.no_separator (by decide) (by decide))
    (h.comparison options ho) hc fun place ht => (hfiles place (hold ▸ ht)).2

/-- Everything that a project consists of is there. -/
structure HoldsProject (settings : Settings) (here : Location) (folder : Path) (initial : FileTree)
    (tree : FileTree) (db : Database) (project : Project) : Prop where
  assembled : ∃ now previous guid, Project.assemble settings now previous guid db = .ok project
  descriptor : tree.read? (folder.join ⟨db.name ++ ".sqlproj"⟩) = some (project.descriptor.toUTF8 : File)
  comparison : ∀ options, db.comparison = some options →
    tree.read? (folder.join ⟨db.name ++ ".scmp"⟩) = some ((project.comparison options).toUTF8 : File)
  scripts : ∃ scripts, db.scripts = .ok scripts ∧ ∀ script ∈ scripts,
    tree.read? ((folder.join ⟨db.name⟩).join script.path) = some (script.content.toUTF8 : File)
  includes : ∀ rest content, rest ≠ [] → lastIncluded? settings here initial db rest = some content →
    (∀ scripts, db.scripts = .ok scripts → ∀ script ∈ scripts, script.path.fields ≠ rest) →
    tree.read? (includeTarget folder db rest) = some content

theorem HoldsProject.files (h : HoldsProject settings here folder initial old db project) :
    HoldsFiles folder old db project := ⟨h.descriptor, h.comparison⟩

theorem isName_of_lastIncluded? {rest : List String} {content : File} (hw : initial.WellFormed)
    (h : lastIncluded? settings here initial db rest = some content) :
    ∀ part ∈ rest, isName part = true := by
  obtain ⟨path, -, hfile⟩ := List.exists_of_findSome?_eq_some h
  obtain ⟨place, -, hget⟩ := Option.bind_eq_some_iff.1 hfile
  exact fun part hp => hw.names _ _ (fileAt?_eq_some.1 hget) part (by simp [hp])

/-- What is neither of the two files of a project nor inside its folder can be written. -/
theorem HoldsProject.mono {p : Footprint} (h : HoldsProject settings here folder initial old db project)
    (hn : db.HasSegmentNames) (hinitial : initial.WellFormed) (hold : old.workingFolder = here)
    (hc : ChangedWithin p old new)
    (hfiles : ∀ place, folder.target? here = some place →
      ¬ p.written (place ++ [db.name ++ ".sqlproj"]) ∧ ¬ p.written (place ++ [db.name ++ ".scmp"]))
    (hinside : ∀ place inner, folder.target? here = some place → inner ≠ [] →
      ¬ p.written (place ++ db.name :: inner)) :
    HoldsProject settings here folder initial new db project where
  assembled := h.assembled
  descriptor := (h.files.mono hn.name hold hc hfiles).descriptor
  comparison := (h.files.mono hn.name hold hc hfiles).comparison
  scripts := by
    obtain ⟨scripts, hs, hread⟩ := h.scripts
    refine ⟨scripts, hs, fun script hm => ?_⟩
    obtain ⟨names, last, hf, hparts⟩ := hn.segments_of_mem hs hm
    exact read?_inside hn.name (by rwa [hf]) (hread script hm) hc
      fun place ht => hinside place _ (hold ▸ ht) script.path.fields_ne_nil
  includes rest content hne hlast hscripts :=
    read?_includeTarget hn.name hne (isName_of_lastIncluded? hinitial hlast)
      (h.includes rest content hne hlast hscripts) hc
      fun place ht => hinside place rest (hold ▸ ht) hne

theorem writeComparison_establishes (hn : Path.IsSegment db.name) (hp : project.name = db.name)
    (hs : Rooted here s.tree) (h : (writeComparison folder project db).exec s = (.ok (), t)) :
    (Rooted here t.tree ∧ ChangedWithin (besideFootprint here folder (db.name ++ ".scmp")) s.tree t.tree) ∧
      ∀ options, db.comparison = some options → t.tree.read? (folder.join ⟨db.name ++ ".scmp"⟩) =
        some ((project.comparison options).toUTF8 : File) := by
  unfold writeComparison at h
  cases hc : db.comparison with
  | none =>
    rw [hc] at h
    cases h
    exact ⟨⟨hs, .refl _⟩, by simp⟩
  | some options =>
    have hsegment : Path.IsSegment (db.name ++ ".scmp") :=
      .of_ending hn.no_separator (by decide) (by decide)
    rw [hc, Option.forM, Project.comparisonFileName, hp] at h
    refine ⟨(within_writeBeside _ hsegment).of_exec hs h, ?_⟩
    rintro _ ⟨⟩
    exact read?_of_writeBeside hsegment hs (Run.exec_onTree_eq_ok.1 h).1

theorem not_written_inside_beside {name other : String} {allowed : List String → Prop}
    (ht : folder.target? here = some place) :
    ¬ (insideFootprint here folder name allowed).written (place ++ [other]) := by
  intro hw
  obtain ⟨inner, hne, -, he⟩ := (written_inside ht).1 hw
  exact hne (List.cons.inj he).2.symm

/-- Behind the includes a project writes nothing but its scripts, and these are there afterwards. -/
theorem scripts_written {scripts : List ScriptFile} {middle : RunState} (hn : db.HasSegmentNames)
    (hcoherent : db.Coherent) (hapart : IncludesApart settings here folder dbs) (hdb : db ∈ dbs)
    (hs : Holding here folder place s.tree) (hsame : SameOutside here folder initial s.tree)
    (hscripts : db.scripts = .ok scripts)
    (hdacpacs : (copyDacpacs settings folder db).exec s = (.ok (), middle))
    (h : (writeScripts (folder.join ⟨db.name⟩) scripts).exec middle = (.ok (), t)) :
    ChangedWithin (.writing (insideFootprint here folder db.name
        fun inner => ∃ script ∈ scripts, script.path.fields = inner).written) s.tree t.tree ∧
      ∀ script ∈ scripts,
        t.tree.read? ((folder.join ⟨db.name⟩).join script.path) = some (script.content.toUTF8 : File) := by
  obtain ⟨⟨⟨hr, -⟩, -⟩, hpackages⟩ := (within_copyDacpacs (ofTree_cover hapart hdb) fun _ _ h hc =>
    sameOutside_of_project h (hc.mono packageFootprint_le)).of_exec ⟨hs, hsame⟩ hdacpacs
  obtain ⟨-, hwritten⟩ := (within_writeScripts hn.name fun script =>
    hn.segments_of_mem hscripts).of_exec hr h
  -- a package is added only where no file is, so its footprint has nothing written
  exact ⟨(hpackages.mono (Footprint.le_writing fun _ h => h.elim)).trans
      (hwritten.mono (Footprint.le_writing fun _ h => h)),
    writeScripts_establishes hn hcoherent hscripts hr h⟩

/-- Behind its two files a project only writes into its own folder. -/
theorem inside_of_rest {scripts : List ScriptFile} {s₁ s₂ : RunState} (hn : db.HasSegmentNames)
    (hs : Holding here folder place s.tree) (hscripts : db.scripts = .ok scripts)
    (hincludes : (copyIncludes settings folder db).exec s = (.ok (), s₁))
    (hdacpacs : (copyDacpacs settings folder db).exec s₁ = (.ok (), s₂))
    (hwritten : (writeScripts (folder.join ⟨db.name⟩) scripts).exec s₂ = (.ok (), t)) :
    ChangedWithin (.writing (insideFootprint here folder db.name fun _ => True).written) s.tree t.tree := by
  obtain ⟨⟨hholding, -⟩, hincluded⟩ := (within_copyIncludes hn.name Sources.all_cover
    fun _ _ _ _ => trivial).holding.of_exec ⟨hs, trivial⟩ hincludes
  obtain ⟨⟨⟨hr, -⟩, -⟩, hpackages⟩ := (within_copyDacpacs Sources.all_cover
    fun _ _ _ _ => trivial).of_exec ⟨hholding, trivial⟩ hdacpacs
  obtain ⟨-, hscripted⟩ := (within_writeScripts hn.name fun script =>
    hn.segments_of_mem hscripts).of_exec hr hwritten
  -- a package is added only where no file is, so its footprint has nothing written
  exact ((hincluded.mono (Footprint.le_writing (insideFootprint_mono fun _ _ => trivial).written)).trans
    (hpackages.mono (Footprint.le_writing fun _ h => h.elim))).trans
    (hscripted.mono (Footprint.le_writing (insideFootprint_mono fun _ _ => trivial).written))

/-- Behind a project its two files are there. -/
theorem generateProject_files {count : Nat} (hn : db.HasSegmentNames) (hs : Rooted here s.tree)
    (h : (generateProject settings ids folder previous db).exec s = (.ok (project, count), t)) :
    HoldsFiles folder t.tree db project := by
  have hsegment : Path.IsSegment (db.name ++ ".sqlproj") :=
    .of_ending hn.name.no_separator (by decide) (by decide)
  simp only [generateProject, Run.exec_bind_eq_ok, Run.exec_liftM, Run.exec_pure, Prod.mk.injEq,
    Except.ok.injEq] at h
  obtain ⟨made, s₁, htake, ⟨⟩, s₂, hdescriptor, ⟨⟩, s₃, hcomparison, ⟨⟩, s₄, hincludes, ⟨⟩, s₅, hdacpacs,
    scripts, _, ⟨hscripts, rfl⟩, ⟨⟩, s₆, hwritten, ⟨rfl, -⟩, rfl⟩ := h
  obtain ⟨hassemble, htaken⟩ := exec_takeProject_eq_ok.1 htake
  have hname := Project.name_of_assemble hassemble
  rw [Project.fileName, hname] at hdescriptor
  have htree : s₁.tree = s.tree := by rw [htaken]
  rw [← htree] at hs
  obtain ⟨hr₂, -⟩ := (within_writeBeside _ hsegment).of_exec hs hdescriptor
  have hread₂ := read?_of_writeBeside hsegment hs (Run.exec_onTree_eq_ok.1 hdescriptor).1
  obtain ⟨⟨hr₃, hc₃⟩, hread₃⟩ := writeComparison_establishes hn.name hname hr₂ hcomparison
  have hkept : s₃.tree.read? (folder.join ⟨db.name ++ ".sqlproj"⟩) = some (made.descriptor.toUTF8 : File) := by
    refine read?_beside hsegment hread₂ hc₃ fun place ht hw => ?_
    rw [hr₂.workingFolder_eq] at ht
    simpa using (written_beside ht).1 hw
  obtain ⟨way, target, hp, hplaced⟩ := write_eq_ok hs.home (Run.exec_onTree_eq_ok.1 hdescriptor).1
  obtain ⟨place, hfolder, -⟩ := hplaced.hasFolder (hsegment.leadsTo folder) hp
  have hinside := inside_of_rest hn ⟨hr₃, hc₃.hasFolder hfolder⟩ hscripts hincludes hdacpacs hwritten
  exact HoldsFiles.mono ⟨hkept, hread₃⟩ hn.name hr₃.workingFolder_eq hinside fun place ht =>
    ⟨not_written_inside_beside ht, not_written_inside_beside ht⟩

/-- Behind a project everything of it is there. -/
theorem generateProject_holds {count : Nat} (hn : db.HasSegmentNames) (hcoherent : db.Coherent)
    (hinitial : initial.WellFormed) (hapart : IncludesApart settings here folder dbs) (hdb : db ∈ dbs)
    (hs : Rooted here s.tree) (hsame : SameOutside here folder initial s.tree)
    (h : (generateProject settings ids folder previous db).exec s = (.ok (project, count), t)) :
    HoldsProject settings here folder initial t.tree db project := by
  have hfiles := generateProject_files hn hs h
  have hsegment : Path.IsSegment (db.name ++ ".sqlproj") :=
    .of_ending hn.name.no_separator (by decide) (by decide)
  simp only [generateProject, Run.exec_bind_eq_ok, Run.exec_liftM, Run.exec_pure, Prod.mk.injEq,
    Except.ok.injEq] at h
  obtain ⟨_, s₁, htake, ⟨⟩, s₂, hdescriptor, ⟨⟩, s₃, hcomparison, ⟨⟩, s₄, hincludes, ⟨⟩, s₅, hdacpacs,
    scripts, _, ⟨hscripts, rfl⟩, ⟨⟩, s₆, hwritten, ⟨rfl, -⟩, rfl⟩ := h
  obtain ⟨hassemble, htaken⟩ := exec_takeProject_eq_ok.1 htake
  have hname := Project.name_of_assemble hassemble
  rw [Project.fileName, hname] at hdescriptor
  have htree : s₁.tree = s.tree := by rw [htaken]
  rw [← htree] at hs hsame
  -- what each step leaves behind, and what it leaves alone
  obtain ⟨hr₂, hc₂⟩ := (within_writeBeside _ hsegment).of_exec hs hdescriptor
  obtain ⟨⟨hr₃, hc₃⟩, -⟩ := writeComparison_establishes hn.name hname hr₂ hcomparison
  have hsame₃ := (hsame.beside hc₂).beside hc₃
  obtain ⟨⟨hr₄, hsame₄⟩, hc₄⟩ := (within_copyIncludes hn.name (ofTree_cover hapart hdb) fun _ _ h hc =>
    h.inside hc).of_exec ⟨hr₃, hsame₃⟩ hincludes
  have hread₄ : ∀ rest content, rest ≠ [] → (∀ part ∈ rest, isName part = true) →
      lastIncluded? settings here initial db rest = some content →
        s₄.tree.read? (includeTarget folder db rest) = some content :=
    fun _ _ => copyIncludes_establishes hn.name hapart hdb hr₃ hsame₃ hincludes
  obtain ⟨way, target, hp, hplaced⟩ := write_eq_ok hs.home (Run.exec_onTree_eq_ok.1 hdescriptor).1
  obtain ⟨place, hfolder, -⟩ := hplaced.hasFolder (hsegment.leadsTo folder) hp
  have hholding : Holding here folder place s₄.tree :=
    ⟨hr₄, hc₄.hasFolder (hc₃.hasFolder hfolder)⟩
  obtain ⟨hc₆, hread₆⟩ := scripts_written hn hcoherent hapart hdb hholding hsame₄ hscripts hdacpacs
    hwritten
  refine ⟨⟨_, _, _, hassemble⟩, hfiles.descriptor, hfiles.comparison, ⟨scripts, hscripts, hread₆⟩,
    fun rest content hne hlast hother => ?_⟩
  have hnames := isName_of_lastIncluded? hinitial hlast
  refine read?_includeTarget hn.name hne hnames (hread₄ rest content hne hnames hlast) hc₆ ?_
  intro place ht hw
  rw [hr₄.workingFolder_eq] at ht
  obtain ⟨inner, -, ⟨script, hm, rfl⟩, he⟩ := (written_inside ht).1 hw
  exact hother scripts hscripts script hm (List.cons.inj he).2.symm

/-- Names with endings whose last characters differ are different. -/
theorem append_ne_append {first second ending other : String} (hne : ending ≠ "" ∧ other ≠ "")
    (h : ending.toList.getLast? ≠ other.toList.getLast?) : first ++ ending ≠ second ++ other := by
  intro he
  have hlast := congrArg (fun name => name.toList.getLast?) he
  simp only [String.toList_append] at hlast
  rw [List.getLast?_append_of_ne_nil _ (by simpa using hne.1),
    List.getLast?_append_of_ne_nil _ (by simpa using hne.2)] at hlast
  exact h hlast

theorem generateProjects_cons {done : List Project × Nat} :
    (generateProjects settings ids folder done (db :: dbs)).exec s =
      (generateProject settings ids folder done.1 db >>= fun made =>
        generateProjects settings ids folder (done.1 ++ [made.1], done.2 + made.2) dbs).exec s := by
  unfold generateProjects
  rw [List.foldlM_cons, bind_assoc]
  rfl

/-- Projects of other names do not write the two files of a project. -/
theorem not_written_others {sources : Sources} (hother : ∀ other ∈ dbs, db.name ≠ other.name)
    (ht : folder.target? here = some place) :
    ¬ (Footprint.any dbs (projectFootprint here folder sources)).written (place ++ [db.name ++ ".sqlproj"]) ∧
      ¬ (Footprint.any dbs (projectFootprint here folder sources)).written
        (place ++ [db.name ++ ".scmp"]) := by
  constructor
  · rintro ⟨other, ho, hw⟩
    rcases (written_project ht).1 hw with he | ⟨-, he⟩ | ⟨inner, hne, -, he⟩
    · exact hother other ho (by simpa using he)
    · exact append_ne_append (by decide) (by decide) (List.cons.inj he).1
    · exact hne (List.cons.inj he).2.symm
  · rintro ⟨other, ho, hw⟩
    rcases (written_project ht).1 hw with he | ⟨-, he⟩ | ⟨inner, hne, -, he⟩
    · exact append_ne_append (by decide) (by decide) (List.cons.inj he).1
    · exact hother other ho (by simpa using he)
    · exact hne (List.cons.inj he).2.symm

/-- Behind all projects the two files of each of them are there. -/
theorem generateProjects_files {done result : List Project × Nat} (hn : ∀ db ∈ dbs, db.HasSegmentNames)
    (hnames : (dbs.map (·.name)).Nodup) (hs : Rooted here s.tree)
    (h : (generateProjects settings ids folder done dbs).exec s = (.ok result, t)) :
    ∃ made, result.1 = done.1 ++ made ∧ List.Forall₂ (HoldsFiles folder t.tree) dbs made := by
  induction dbs generalizing done s with
  | nil =>
    cases h
    exact ⟨[], by simp, .nil⟩
  | cons db dbs ih =>
    rw [List.forall_mem_cons] at hn
    rw [List.map_cons, List.nodup_cons] at hnames
    rw [generateProjects_cons] at h
    obtain ⟨⟨project, count⟩, middle, hproject, hrest⟩ := Run.exec_bind_eq_ok.1 h
    have hs' : Rooted here s.tree ∧ True := ⟨hs, trivial⟩
    obtain ⟨⟨hr, -⟩, -⟩ := (within_generateProject hn.1 Sources.all_cover
      fun _ _ _ _ => trivial).of_exec hs' hproject
    obtain ⟨made, hmade, hothers⟩ := ih hn.2 hnames.2 hr hrest
    have hother : ∀ other ∈ dbs, db.name ≠ other.name := fun other ho he =>
      hnames.1 (List.mem_map.2 ⟨other, ho, he.symm⟩)
    have hfiles := (generateProject_files hn.1 hs hproject).mono hn.1.name hr.workingFolder_eq
      ((within_generateProjects_all hn.2).of_exec hr hrest).2 fun place => not_written_others hother
    exact ⟨project :: made, by simp [hmade], .cons hfiles hothers⟩

/-- Behind all projects everything of each of them is there. -/
theorem generateProjects_holds {all : List Database} {done result : List Project × Nat}
    (hn : ∀ db ∈ dbs, db.HasSegmentNames) (hcoherent : ∀ db ∈ dbs, db.Coherent)
    (hnames : (dbs.map (·.name)).Nodup) (hinitial : initial.WellFormed)
    (hapart : IncludesApart settings here folder all) (hall : ∀ db ∈ dbs, db ∈ all)
    (hs : Rooted here s.tree) (hsame : SameOutside here folder initial s.tree)
    (h : (generateProjects settings ids folder done dbs).exec s = (.ok result, t)) :
    ∃ made, result.1 = done.1 ++ made ∧
      List.Forall₂ (HoldsProject settings here folder initial t.tree) dbs made := by
  induction dbs generalizing done s with
  | nil =>
    cases h
    exact ⟨[], by simp, .nil⟩
  | cons db dbs ih =>
    rw [List.forall_mem_cons] at hn hcoherent hall
    rw [List.map_cons, List.nodup_cons] at hnames
    rw [generateProjects_cons] at h
    obtain ⟨⟨project, count⟩, middle, hproject, hrest⟩ := Run.exec_bind_eq_ok.1 h
    have hholds := generateProject_holds hn.1 hcoherent.1 hinitial hapart hall.1 hs hsame hproject
    obtain ⟨⟨hr, hmiddle⟩, -⟩ := (within_generateProject hn.1 (ofTree_cover hapart hall.1)
      fun _ _ => sameOutside_of_project).of_exec ⟨hs, hsame⟩ hproject
    obtain ⟨made, hmade, hothers⟩ := ih hn.2 hcoherent.2 hnames.2 hall.2 hr hmiddle hrest
    refine ⟨project :: made, by simp [hmade], .cons ?_ hothers⟩
    -- the projects behind have other names, and so other files
    have hchanged := ((within_generateProjects_all hn.2).of_exec hr hrest).2
    have hother : ∀ other ∈ dbs, db.name ≠ other.name := fun other ho he =>
      hnames.1 (List.mem_map.2 ⟨other, ho, he.symm⟩)
    refine hholds.mono hn.1 hinitial hr.workingFolder_eq hchanged (fun place => not_written_others hother)
      fun place inner ht hne => ?_
    rintro ⟨other, ho, hw⟩
    rcases (written_project ht).1 hw with he | ⟨-, he⟩ | ⟨inner', -, -, he⟩
    · exact hne (List.cons.inj he).2
    · exact hne (List.cons.inj he).2
    · exact hother other ho (List.cons.inj he).1

/-- What a solution with projects of the databases can change. -/
def solutionFootprint (here : Location) (folder : Path) (sources : Sources) (name : String)
    (dbs : List Database) : Footprint where
  made x := ∃ db ∈ dbs, (projectFootprint here folder sources db).made x
  written x := (∃ db ∈ dbs, (projectFootprint here folder sources db).written x) ∨
    dbs ≠ [] ∧ (besideFootprint here folder (name ++ ".sln")).written x
  added x content := ∃ db ∈ dbs, (projectFootprint here folder sources db).added x content

/-- Everything that a solution consists of is there, and every other file is as it was. -/
structure HoldsSolution (settings : Settings) (here : Location) (folder : Path) (initial tree : FileTree)
    (decl : SolutionDecl) (output : SolutionOutput) : Prop where
  projects : List.Forall₂ (HoldsProject settings here folder initial tree) (projectDatabases decl)
    output.projects
  solution : output.projects ≠ [] → ∃ guid, tree.read? (folder.join ⟨decl.name ++ ".sln"⟩) =
    some ((Solution.ofProjects decl.name guid output.projects).text.toUTF8 : File)
  changed : ChangedWithin (solutionFootprint here folder (.ofTree settings here folder initial)
    decl.name (projectDatabases decl)) initial tree
  kept : ∀ x content, initial.fileAt? x = some content →
    ¬ (solutionFootprint here folder (.ofTree settings here folder initial) decl.name
      (projectDatabases decl)).written x → tree.fileAt? x = some content

theorem any_le_solutionFootprint {sources : Sources} {name : String} :
    (Footprint.any dbs (projectFootprint here folder sources)).Le
      (solutionFootprint here folder sources name dbs) :=
  ⟨fun _ h => h, fun _ h => .inl h, fun _ _ h => h⟩

theorem beside_le_solutionFootprint {sources : Sources} {name : String} (hne : dbs ≠ []) :
    (besideFootprint here folder (name ++ ".sln")).Le
      (solutionFootprint here folder sources name dbs) := by
  refine ⟨fun _ hx => ?_, fun _ h => .inr ⟨hne, h⟩, fun _ _ h => h.elim⟩
  obtain ⟨db, hdb⟩ := List.exists_mem_of_ne_nil dbs hne
  exact ⟨db, hdb, .inl hx⟩

theorem concludeSolution_establishes {name : String} {done : List Project × Nat}
    {output : SolutionOutput} (hn : Path.IsSegment name) (hs : Rooted here s.tree)
    (h : (concludeSolution ids folder name done).exec s = (.ok output, t)) :
    output.projects = done.1 ∧ (done.1 = [] ∧ t = s ∨ done.1 ≠ [] ∧
      ChangedWithin (besideFootprint here folder (name ++ ".sln")) s.tree t.tree ∧
      ∃ guid, t.tree.read? (folder.join ⟨name ++ ".sln"⟩) =
        some ((Solution.ofProjects name guid done.1).text.toUTF8 : File)) := by
  unfold concludeSolution at h
  split at h
  · rename_i hempty
    cases h
    exact ⟨rfl, .inl ⟨List.isEmpty_iff.1 hempty, rfl⟩⟩
  · rename_i hempty
    obtain ⟨path, written, hwritten, hdone⟩ := Run.exec_bind_eq_ok.1 h
    cases hdone
    refine ⟨rfl, .inr ⟨fun he => hempty (List.isEmpty_iff.2 he),
      ((within_writeSolution hn).of_exec hs hwritten).2, ids s.issued, ?_⟩⟩
    obtain ⟨-, -, hwrite⟩ := exec_writeSolution_eq_ok.1 hwritten
    exact read?_of_writeBeside (.of_ending hn.no_separator (by decide) (by decide)) hs hwrite

theorem not_written_solution {name : String} (ht : folder.target? here = some place) :
    ¬ (besideFootprint here folder (name ++ ".sln")).written (place ++ [db.name ++ ".sqlproj"]) ∧
      ¬ (besideFootprint here folder (name ++ ".sln")).written (place ++ [db.name ++ ".scmp"]) := by
  rw [written_beside ht, written_beside ht]
  exact ⟨fun he => append_ne_append (by decide) (by decide) (List.cons.inj he).1,
    fun he => append_ne_append (by decide) (by decide) (List.cons.inj he).1⟩

/-- Writing the solution file leaves everything of a project as it is. -/
theorem HoldsProject.concluded {name : String}
    (h : HoldsProject settings here folder initial old db project) (hn : db.HasSegmentNames)
    (hinitial : initial.WellFormed) (hold : old.workingFolder = here)
    (hc : ChangedWithin (besideFootprint here folder (name ++ ".sln")) old new) :
    HoldsProject settings here folder initial new db project := by
  refine h.mono hn hinitial hold hc (fun place => not_written_solution) fun place inner ht hne => ?_
  rw [written_beside ht]
  exact fun he => hne (List.cons.inj he).2

/-- The two files of each project are there when a solution has been generated. -/
theorem projects_hold_files {decl : SolutionDecl} {output : SolutionOutput} (hn : decl.HasSegmentNames)
    (hw : s.tree.WellFormed) (h : (generateSolution settings ids decl).exec s = (.ok output, t)) :
    List.Forall₂ (HoldsFiles (settings.outputFolder.join ⟨decl.name⟩) t.tree) (projectDatabases decl)
      output.projects := by
  have hs : Rooted s.tree.workingFolder s.tree := ⟨hw, rfl⟩
  obtain ⟨hok, done, middle, hprojects, hconclude⟩ := exec_generateSolution_eq_ok.1 h
  have hsegments : ∀ db ∈ projectDatabases decl, db.HasSegmentNames := fun db =>
    hasSegmentNames_of_mem hn hok
  obtain ⟨made, hmade, hfiles⟩ :=
    generateProjects_files hsegments (nodup_projectDatabases hok) hs hprojects
  obtain ⟨hr, -⟩ := (within_generateProjects_all hsegments).of_exec hs hprojects
  obtain ⟨houtput, hend⟩ := concludeSolution_establishes hn.name hr hconclude
  rw [houtput, hmade, List.nil_append]
  rcases hend with ⟨-, rfl⟩ | ⟨-, hconcluded, -⟩
  · exact hfiles
  · exact ((List.forall₂_and_left _ _).2 ⟨hsegments, hfiles⟩).imp fun db project ⟨hsegment, hfiles⟩ =>
      hfiles.mono hsegment.name hr.workingFolder_eq hconcluded fun place => not_written_solution

/-- Everything of each project is there when a solution has been generated. -/
theorem projects_hold {decl : SolutionDecl} {output : SolutionOutput} (hn : decl.HasSegmentNames)
    (hw : s.tree.WellFormed)
    (hapart : IncludesApart settings s.tree.workingFolder (settings.outputFolder.join ⟨decl.name⟩)
      (projectDatabases decl))
    (h : (generateSolution settings ids decl).exec s = (.ok output, t)) :
    List.Forall₂ (HoldsProject settings s.tree.workingFolder (settings.outputFolder.join ⟨decl.name⟩)
      s.tree t.tree) (projectDatabases decl) output.projects := by
  have hs : Rooted s.tree.workingFolder s.tree := ⟨hw, rfl⟩
  have hsame : SameOutside s.tree.workingFolder (settings.outputFolder.join ⟨decl.name⟩) s.tree
      s.tree := ⟨rfl, fun _ _ => rfl⟩
  obtain ⟨hok, done, middle, hprojects, hconclude⟩ := exec_generateSolution_eq_ok.1 h
  have hsegments : ∀ db ∈ projectDatabases decl, db.HasSegmentNames := fun db =>
    hasSegmentNames_of_mem hn hok
  have hcoherent : ∀ db ∈ projectDatabases decl, db.Coherent := by
    intro db hdb
    obtain ⟨declared, -, hc⟩ := constructed_of_mem hok hdb
    exact hc.coherent
  obtain ⟨made, hmade, hholds⟩ := generateProjects_holds hsegments hcoherent
    (nodup_projectDatabases hok) hw hapart (fun _ h => h) hs hsame hprojects
  obtain ⟨hr, -⟩ := (within_generateProjects_all hsegments).of_exec hs hprojects
  obtain ⟨houtput, hend⟩ := concludeSolution_establishes hn.name hr hconclude
  rw [houtput, hmade, List.nil_append]
  rcases hend with ⟨-, rfl⟩ | ⟨-, hconcluded, -⟩
  · exact hholds
  · exact ((List.forall₂_and_left _ _).2 ⟨hsegments, hholds⟩).imp fun db project ⟨hsegment, hholds⟩ =>
      hholds.concluded hsegment hw hr.workingFolder_eq hconcluded

/-- Everything that a run makes of a solution survives to its end, and nothing else is touched:
every file of every project is there with its content, and so is the solution file; a file that was
there before and is none of these is as it was. -/
theorem artifacts_survive {decl : SolutionDecl} {output : SolutionOutput} (hn : decl.HasSegmentNames)
    (hw : s.tree.WellFormed)
    (hapart : IncludesApart settings s.tree.workingFolder (settings.outputFolder.join ⟨decl.name⟩)
      (projectDatabases decl))
    (h : (generateSolution settings ids decl).exec s = (.ok output, t)) :
    HoldsSolution settings s.tree.workingFolder (settings.outputFolder.join ⟨decl.name⟩) s.tree t.tree
      decl output := by
  have hs : Rooted s.tree.workingFolder s.tree := ⟨hw, rfl⟩
  have hsame : SameOutside s.tree.workingFolder (settings.outputFolder.join ⟨decl.name⟩) s.tree
      s.tree := ⟨rfl, fun _ _ => rfl⟩
  have hholds := projects_hold hn hw hapart h
  obtain ⟨hok, done, middle, hprojects, hconclude⟩ := exec_generateSolution_eq_ok.1 h
  have hsegments : ∀ db ∈ projectDatabases decl, db.HasSegmentNames := fun db =>
    hasSegmentNames_of_mem hn hok
  obtain ⟨⟨hr, -⟩, hchanged⟩ := (within_generateProjects hsegments (fun db hdb =>
    ofTree_cover hapart hdb) fun old new ho hc => sameOutside_of_projects ho hc).of_exec
      ⟨hs, hsame⟩ hprojects
  replace hchanged := hchanged.mono (@any_le_solutionFootprint _ _ _ _ decl.name)
  obtain ⟨houtput, hend⟩ := concludeSolution_establishes hn.name hr hconclude
  have hall : ChangedWithin (solutionFootprint s.tree.workingFolder
      (settings.outputFolder.join ⟨decl.name⟩) (.ofTree settings s.tree.workingFolder
        (settings.outputFolder.join ⟨decl.name⟩) s.tree) decl.name (projectDatabases decl))
      s.tree t.tree := by
    rcases hend with ⟨-, rfl⟩ | ⟨hsome, hconcluded, -⟩
    · exact hchanged
    · refine hchanged.trans (hconcluded.mono (beside_le_solutionFootprint ?_))
      intro hnil
      rw [hnil] at hholds
      exact hsome (houtput.symm.trans (List.forall₂_nil_left_iff.1 hholds))
  refine ⟨hholds, fun hne => ?_, hall, fun x content hx hw => ?_⟩
  · rcases hend with ⟨hnone, -⟩ | ⟨-, -, hsolution⟩
    · exact absurd (houtput.trans hnone) hne
    · rwa [houtput]
  · exact fileAt?_eq_some.2 (hall.get?_of_file (fileAt?_eq_some.1 hx) hw)

def sampleSettings : Settings := ⟨⟨"/work/out"⟩, ⟨"/work/project"⟩, none, ∅⟩

/-- Two includes have a file in a folder of one name, and so has the folder of an earlier project. -/
def sampleTree : FileTree := .ofEntries [
  (["work"], .folder),
  (["work", "project"], .folder),
  (["work", "project", "First"], .folder),
  (["work", "project", "First", "sub"], .folder),
  (["work", "project", "First", "sub", "x.txt"], .file "1".toUTF8),
  (["work", "project", "Second"], .folder),
  (["work", "project", "Second", "sub"], .folder),
  (["work", "project", "Second", "sub", "x.txt"], .file "2".toUTF8),
  (["work", "out"], .folder),
  (["work", "out", "Store"], .folder),
  (["work", "out", "Store", "Shop"], .folder),
  (["work", "out", "Store", "Shop", "sub"], .folder),
  (["work", "out", "Store", "Shop", "sub", "x.txt"], .file "0".toUTF8)]

def sampleSolution (includes : List String) : SolutionDecl :=
  ⟨"Store", [{ DatabaseDecl.named "Shop" with createProject := true, includes }]⟩

theorem sample_artifacts_survive :
    let decl := sampleSolution ["First", "Second"]
    decl.HasSegmentNames ∧ sampleTree.WellFormed ∧
      IncludesApart sampleSettings [] (sampleSettings.outputFolder.join ⟨"Store"⟩)
        (projectDatabases decl) ∧
      ∃ output t, (generateSolution sampleSettings toString decl).exec ⟨sampleTree, 0⟩ = (.ok output, t) ∧
        HoldsSolution sampleSettings [] (sampleSettings.outputFolder.join ⟨"Store"⟩) sampleTree t.tree
          decl output := by
  intro decl
  have hn : decl.HasSegmentNames := by decide
  have hw : sampleTree.WellFormed := by decide
  have hapart : IncludesApart sampleSettings [] (sampleSettings.outputFolder.join ⟨"Store"⟩)
      (projectDatabases decl) := by decide
  have hok : ((generateSolution sampleSettings toString decl).exec ⟨sampleTree, 0⟩).1.isOk = true := by
    unfold generateSolution generateProjects generateProject copyIncludes copyInclude takeProject
      Project.assemble Project.listFolders Project.addInclude foldersBelow
    rw [below_eq_insertionSort]
    decide +kernel
  obtain ⟨output, h⟩ := Run.exists_of_isOk hok
  exact ⟨hn, hw, hapart, output, _, h, artifacts_survive hn hw hapart h⟩

/-- An include can lead into the folder of the project itself; then it is not copied as it was
before the run. -/
theorem include_inside_project_overwritten :
    let decl := sampleSolution ["First", "../out/Store/Shop/sub", "Second"]
    let finish := (generateSolution sampleSettings toString decl).exec ⟨sampleTree, 0⟩
    decl.HasSegmentNames ∧ sampleTree.WellFormed ∧
      (∀ base ∈ sampleSettings.projectFolder.target? [],
        ∀ place ∈ sampleSettings.outputFolder.target? [], place.Apart base) ∧
      finish.1.isOk = true ∧ ∃ db ∈ projectDatabases decl, db.scripts.toOption = some [] ∧
        lastIncluded? sampleSettings [] sampleTree db ["x.txt"] = some ("0".toUTF8 : File) ∧
        finish.2.tree.read? (includeTarget (sampleSettings.outputFolder.join ⟨"Store"⟩) db ["x.txt"]) =
          some ("1".toUTF8 : File) := by
  intro decl finish
  refine ⟨by decide, by decide, by decide, ?_, ?_⟩
  all_goals
    unfold finish generateSolution generateProjects generateProject copyIncludes copyInclude takeProject
      Project.assemble Project.listFolders Project.addInclude foldersBelow
    rw [below_eq_insertionSort]
    decide +kernel

end Generate

end DatabaseProject
