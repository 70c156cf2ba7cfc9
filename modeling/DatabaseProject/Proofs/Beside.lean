import DatabaseProject.Proofs.Regeneration

/-!
# A solution in another tree

A solution writes into a folder of its own, and what it takes over from elsewhere no solution
changes. Two trees that solutions have left can differ in much else; where they are alike in the
folder of a solution, it has the same outcome in both of them and leaves its folder alike again.
-/

namespace DatabaseProject

open FileTree Outcome

namespace FileTree

variable {tree old new : FileTree} {way : List Location} {here place : Location} {folder : Path}
  {name : String} {content later : File}

/-- A place that belongs to one solution: in its folder, and not on the way to the output folder. -/
def OwnPlace (here : Location) (out : Path) (name : String) (x : Location) : Prop :=
  x ∉ out.way here ∧ ∃ base rest, out.target? here = some base ∧ x = base ++ name :: rest

theorem ownPlace_of_not_mem_way {out : Path} {rest : List String} (hn : Path.IsSegment name)
    (ht : (out.join ⟨name⟩).target? here = some place) (hx : place ++ rest ∉ (out.join ⟨name⟩).way here) :
    OwnPlace here out name (place ++ rest) := by
  obtain ⟨base, hbase, -, rfl⟩ := hn.target?_join.1 ht
  refine ⟨fun hout => hx ((Path.mem_way_join hn.isAbsolute_eq hbase).2 (.inl hout)), base, rest, hbase, ?_⟩
  rw [List.append_assoc, List.singleton_append]

/-- A tree with the file and the folders on its way already there, as far as files and folders go,
covers what comes of placing it. -/
theorem Placed.covered_of_covered (hp : Placed way place content old new) (h : old.CoveredBy tree)
    (hway : ∀ x ∈ way, tree.get? x = some .folder) (hplace : tree.get? place = some (.file later)) :
    new.CoveredBy tree := by
  refine ⟨h.workingFolder_eq.trans hp.workingFolder_eq.symm, fun x entry hx => ?_⟩
  rw [hp.get?_eq] at hx
  split_ifs at hx with hxp hxw
  · cases hx
    exact ⟨_, hxp ▸ hplace, .file _ _⟩
  · cases hx
    exact ⟨_, hway x hxw, .folder⟩
  · exact h.entries x entry hx

/-- Where a text joined to a folder leads, whatever else is in the tree. -/
theorem locate?_join_eq (hf : tree.HasFolder folder place) (hsep : '/' ∉ name.toList) :
    tree.locate? (folder.join ⟨name⟩) =
      if (folder.join ⟨name⟩).text ≠ "" ∧ fits (folder.join ⟨name⟩) then step? place name else none := by
  obtain ⟨front, hfields, hd, hroute⟩ := Generate.descend?_join hf hsep
  have hfollow : tree.follow? ((folder.join ⟨name⟩).origin tree.workingFolder) (folder.join ⟨name⟩).fields =
      step? place name := by
    rw [hfields, follow?_append_of_route hd hroute, follow?, if_pos hf.get?_eq]
    exact Option.bind_fun_some _
  unfold locate?
  split_ifs
  · exact hfollow
  · rfl

end FileTree

namespace Generate

open Run

variable {settings : Settings} {ids others : Nat → String} {here place : Location} {out folder : Path}
  {db : Database} {decl : SolutionDecl} {initial tree other new : FileTree} {final a a' b : RunState}
  {Pair : String → String → Prop} {name : String}

/-- The includes and the package files of a solution are there. -/
structure SourcesThere (settings : Settings) (tree : FileTree) (decl : SolutionDecl) : Prop where
  includes : ∀ db ∈ projectDatabases decl, ∀ path ∈ db.includes,
    (Project.includeFolder settings tree path).isOk = true
  packages : ∀ db ∈ projectDatabases decl, ∀ name ∈ dacpacs db,
    (tree.read? (dacpacSource settings name)).isSome = true

/-- An include that has been there is the same in all trees that a run comes to. -/
theorem include_of_reached (hapart : SourcesApart settings here decl)
    (hthere : SourcesThere settings initial decl) (hr : Reached here settings.outputFolder initial tree)
    (hdb : db ∈ projectDatabases decl) {path : String} (hp : path ∈ db.includes) : ∃ source location,
      Project.includeFolder settings initial path = .ok (source, location) ∧
      Project.includeFolder settings tree path = .ok (source, location) ∧
      ∀ rest, tree.get? (location ++ rest) = initial.get? (location ++ rest) := by
  have hok := hthere.includes db hdb path hp
  cases hf : Project.includeFolder settings initial path with
  | error e =>
    rw [hf] at hok
    cases hok
  | ok found =>
    obtain ⟨source, location⟩ := found
    obtain ⟨hresolve, hlocate, hfolder⟩ := Project.includeFolder_eq_ok.1 hf
    have hlocate' : tree.locate? source = some location :=
      locate?_mono hlocate hr.changed.workingFolder_eq fun _ _ => hr.changed.folder
    have hf' : Project.includeFolder settings tree path = .ok (source, location) :=
      Project.includeFolder_eq_ok.2 ⟨hresolve, hlocate', hr.changed.folder hfolder⟩
    refine ⟨source, location, rfl, hf', fun rest => ?_⟩
    have hinside := (includePlace?_of_includeFolder hf').1
    rw [hr.workingFolder_eq] at hinside
    exact hr.changed.get?_outside (hapart.not_made hdb hp hinside rest)

theorem package_of_reached (hapart : SourcesApart settings here decl)
    (hthere : SourcesThere settings initial decl) (hr : Reached here settings.outputFolder initial tree)
    (hdb : db ∈ projectDatabases decl) (hname : name ∈ dacpacs db) :
    tree.read? (dacpacSource settings name) = initial.read? (dacpacSource settings name) := by
  obtain ⟨content, hread⟩ := Option.isSome_iff_exists.1 (hthere.packages db hdb name hname)
  rw [hread]
  refine hr.changed.read?_eq hread fun source hsource => ?_
  rw [← hr.changed.workingFolder_eq, hr.workingFolder_eq] at hsource
  exact hapart.not_written hdb hname hsource

/-- The states of a run of one solution and of the same run in another tree. Only in the folder of
the solution the trees have to be alike. -/
structure Beside (here : Location) (out : Path) (name : String) (Pair : String → String → Prop)
    (initial : FileTree) (final a a' b : RunState) : Prop where
  same : b = a'
  first : Reached here out initial a.tree
  second : Reached here out initial a'.tree
  issued_eq : a'.issued = a.issued
  first_covered : a.tree.CoveredBy final.tree
  second_covered : a'.tree.CoveredBy final.tree
  alike : ∀ x, OwnPlace here out name x → Option.Rel (FileEntry.Alike Pair) (a.tree.get? x) (a'.tree.get? x)

namespace Beside

variable {inner : List String} {file : String} {path : Path} {content content' : File} {new' : FileTree}

/-- The same file written in both trees. -/
theorem placed {way : List Location} (h : Beside here out name Pair initial final a a' b)
    (hle : new.CoveredBy final.tree) (hfirst : Reached here out initial new)
    (hsecond : Reached here out initial new') (hp : Placed way place content a.tree new)
    (hp' : Placed way place content' a'.tree new')
    (hc : (FileEntry.file content).Alike Pair (.file content')) :
    Beside here out name Pair initial final ⟨new, a.issued⟩ ⟨new', a'.issued⟩ ⟨new', a'.issued⟩ where
  same := rfl
  first := hfirst
  second := hsecond
  issued_eq := h.issued_eq
  first_covered := hle
  second_covered := by
    obtain ⟨later, hlater⟩ := hle.file hp.get?_place
    exact hp'.covered_of_covered h.second_covered (fun x hx => hle.folder (hp.folder_of_mem hx)) hlater
  alike x hx := by
    simp only [hp.get?_eq, hp'.get?_eq]
    split_ifs
    · exact .some hc
    · exact .some (.same _)
    · exact h.alike x hx

theorem workingFolder_eq (h : Beside here out name Pair initial final a a' b) :
    a'.tree.workingFolder = a.tree.workingFolder :=
  h.second.workingFolder_eq.trans h.first.workingFolder_eq.symm

/-- Both trees come to one that covers them, so what the one becomes does not clash with the other. -/
theorem compatible (h : Beside here out name Pair initial final a a' b) (hle : new.CoveredBy final.tree) :
    Compatible new a'.tree :=
  hle.compatible_of_common h.second_covered

/-- Where a file of the solution could be put in the one tree, it can be in the other one. -/
theorem openWhere (h : Beside here out name Pair initial final a a' b) (hn : Path.IsSegment name)
    (hl : Path.LeadsTo (out.join ⟨name⟩) inner file path) :
    OpenWhere (path.place? a.tree.workingFolder) a.tree new a'.tree := by
  intro way place _ hp hplaced
  obtain ⟨folder, ht, rfl, -, hway⟩ := hl.place? hp
  rw [h.first.workingFolder_eq] at ht hway
  have hown : OwnPlace here out name (folder ++ (inner ++ [file])) := by
    refine ownPlace_of_not_mem_way hn ht fun hx => hplaced.place_not_mem ?_
    rw [List.append_assoc]
    exact (hway _).2 (.inl hx)
  rw [List.append_assoc] at hplaced ⊢
  rw [isReadOnly_eq_of_rel (h.alike _ hown), hplaced.place_open]

theorem write (h : Beside here out name Pair initial final a a' b) {content content' : ByteArray}
    (hn : Path.IsSegment name) (hl : Path.LeadsTo (out.join ⟨name⟩) inner file path)
    (hs : a.tree.write path content = .ok new) (hle : new.CoveredBy final.tree)
    (hc : (FileEntry.file content).Alike Pair (.file content')) :
    ∃ new', a'.tree.write path content' = .ok new' ∧
      Beside here out name Pair initial final ⟨new, a.issued⟩ ⟨new', a'.issued⟩ ⟨new', a'.issued⟩ := by
  obtain ⟨way, place, new', hp, hplaced, hs', hplaced'⟩ := store_again h.first.home h.second.home
    h.workingFolder_eq hs (h.compatible hle) (h.openWhere hn hl) content'
  have hp' : path.place? a'.tree.workingFolder = some (way, place) := by
    rw [h.workingFolder_eq]
    exact hp
  have hinside := (hn.leadsTo out).trans hl
  exact ⟨new', hs', h.placed hle (h.first.trans (hplaced.below hinside hp h.first.toRooted))
    (h.second.trans (hplaced'.below hinside hp' h.second.toRooted)) hplaced hplaced' hc⟩

/-- A file below an include is the same in both trees, and so is its copy. -/
theorem copy (h : Beside here out name Pair initial final a a' b) (hn : Path.IsSegment name)
    (hl : Path.LeadsTo (out.join ⟨name⟩) inner file path) {source : Path} {location : Location}
    {rest : List String} (hnames : ∀ part ∈ rest, isName part = true)
    (hsource : source.target? here = some location)
    (hway : ∀ x ∈ source.way here, a'.tree.get? x = some .folder)
    (hget : ∀ more, a.tree.get? (location ++ more) = a'.tree.get? (location ++ more))
    (hs : a.tree.copy (source.joinAll rest) path = .ok new) (hle : new.CoveredBy final.tree) :
    ∃ new', a'.tree.copy (source.joinAll rest) path = .ok new' ∧
      Beside here out name Pair initial final ⟨new, a.issued⟩ ⟨new', a'.issued⟩ ⟨new', a'.issued⟩ := by
  have hseparators : ∀ part ∈ rest, '/' ∉ part.toList := fun part hm =>
    (isSegment_of_isName (hnames part hm)).no_separator
  have horigin {origin : Location} (ho : (source.joinAll rest).target? here = some origin) :
      origin = location ++ rest := by
    rw [Path.target?_joinAll_names hsource hnames] at ho
    exact (Option.some.inj ho).symm
  rw [← h.first.workingFolder_eq] at hsource horigin hway
  obtain ⟨way, place, origin, original, original', new', hp, ho, hfile, hfile', hplaced, hs', hplaced'⟩ :=
    copy_beside h.first.home h.second.home h.workingFolder_eq hs (h.compatible hle) (h.openWhere hn hl) (by
      intro x hx hfolder
      rcases (Path.mem_way_joinAll hseparators hsource).1 hx with hx | hx
      · exact hway x hx
      · obtain ⟨front, -, rfl⟩ := (mem_route_names hnames).1 hx
        rwa [← hget]) (by
      intro origin content ho hfile
      rw [horigin ho, hget] at hfile
      exact ⟨content, horigin ho ▸ hfile⟩)
  obtain rfl : original' = original := by
    rw [horigin ho] at hfile hfile'
    exact FileEntry.file.inj (Option.some.inj (hfile'.symm.trans ((hget rest).symm.trans hfile)))
  have hp' : path.place? a'.tree.workingFolder = some (way, place) := by
    rwa [h.workingFolder_eq]
  have hinside := (hn.leadsTo out).trans hl
  exact ⟨new', hs', h.placed hle (h.first.trans (hplaced.below hinside hp h.first.toRooted))
    (h.second.trans (hplaced'.below hinside hp' h.second.toRooted)) hplaced hplaced' (.same _)⟩

/-- From the folder of the solution a text leads to something in both trees or in none. -/
theorem exists?_eq (h : Beside here out name Pair initial final a a' b) (hn : Path.IsSegment name)
    (hf : a.tree.HasFolder (out.join ⟨name⟩) place) (hf' : a'.tree.HasFolder (out.join ⟨name⟩) place)
    (hsep : '/' ∉ file.toList) : a'.tree.exists? ((out.join ⟨name⟩).join ⟨file⟩) =
      a.tree.exists? ((out.join ⟨name⟩).join ⟨file⟩) := by
  have htarget := hf.target_eq
  rw [h.first.workingFolder_eq] at htarget
  obtain ⟨base, hbase, -, rfl⟩ := hn.target?_join.1 htarget
  have hfolder {x : Location} (hx : x ∈ (out.join ⟨name⟩).way here) :
      a.tree.get? x = some .folder ∧ a'.tree.get? x = some .folder :=
    ⟨hf.folders x (h.first.workingFolder_eq.symm ▸ hx), hf'.folders x (h.second.workingFolder_eq.symm ▸ hx)⟩
  have hout {x : Location} (hx : x ∈ out.way here) : x ∈ (out.join ⟨name⟩).way here :=
    (Path.mem_way_join hn.isAbsolute_eq hbase).2 (.inl hx)
  have hsome {x : Location} (hx : step? (base ++ [name]) file = some x) :
      (a'.tree.get? x).isSome = (a.tree.get? x).isSome := by
    unfold step? at hx
    split_ifs at hx with hfiller hup hname
    -- the folder itself, the output folder, or a name in the folder
    · obtain ⟨hfirst, hsecond⟩ := hfolder (Path.target_mem_way htarget)
      rw [← Option.some.inj hx, hfirst, hsecond]
    · obtain ⟨hfirst, hsecond⟩ := hfolder (hout (Path.target_mem_way hbase))
      rw [← Option.some.inj hx, List.dropLast_concat, hfirst, hsecond]
    · obtain rfl := Option.some.inj hx
      by_cases hx : base ++ [name] ++ [file] ∈ out.way here
      · obtain ⟨hfirst, hsecond⟩ := hfolder (hout hx)
        rw [hfirst, hsecond]
      · exact isSome_of_optionRel (h.alike _ ⟨hx, base, [file], hbase, by simp⟩)
  rw [exists?, exists?, entry?, entry?, locate?_join_eq hf hsep, locate?_join_eq hf' hsep]
  split_ifs
  · cases hstep : step? (base ++ [name]) file with
    | none => rfl
    | some x => exact hsome hstep
  · rfl

/-- An include is the same in both trees, with all that is below it. -/
theorem includes (h : Beside here settings.outputFolder decl.name Pair initial final a a' b)
    (hapart : SourcesApart settings here decl) (hthere : SourcesThere settings initial decl)
    (hdb : db ∈ projectDatabases decl) {path : String} (hp : path ∈ db.includes) :
    ∃ source location, Project.includeFolder settings initial path = .ok (source, location) ∧
      Project.includeFolder settings a.tree path = .ok (source, location) ∧
      Project.includeFolder settings a'.tree path = .ok (source, location) ∧
      ∀ rest, a.tree.get? (location ++ rest) = a'.tree.get? (location ++ rest) := by
  obtain ⟨source, location, hf, hfirst, hget⟩ := include_of_reached hapart hthere h.first hdb hp
  obtain ⟨_, _, hf', hsecond, hget'⟩ := include_of_reached hapart hthere h.second hdb hp
  cases hf.symm.trans hf'
  exact ⟨source, location, hf, hfirst, hsecond, fun rest => (hget rest).trans (hget' rest).symm⟩

theorem shownAlike (h : Beside here settings.outputFolder decl.name Pair initial final a a' b)
    (hapart : SourcesApart settings here decl) (hthere : SourcesThere settings initial decl)
    (hdb : db ∈ projectDatabases decl) {path : String} (hp : path ∈ db.includes) :
    Project.ShownAlike settings a.tree a'.tree path := by
  intro _ _ hf
  obtain ⟨source, location, -, hfirst, hsecond, hget⟩ := h.includes hapart hthere hdb hp
  cases hf.symm.trans hfirst
  refine ⟨hsecond, forall₂_below fun rest => ?_⟩
  rw [hget]
  exact (SameShape.refl a'.tree).kinds _

/-- Where a package file could be put in the one tree, it can be in the other one. -/
theorem openWhere_package (h : Beside here out name Pair initial final a a' b) (hn : Path.IsSegment name) :
    OpenWhere (path.placeIn? a.tree.workingFolder (out.join ⟨name⟩)) a.tree new a'.tree := by
  intro way place _ hp hplaced
  obtain ⟨folder, last, -, -, -, -, rfl, hd, rfl⟩ := Path.placeIn?_eq_some.1 hp
  rw [h.first.workingFolder_eq, ← Path.target?_eq_descend?] at hd
  have hown : OwnPlace here out name (folder ++ [last]) :=
    ownPlace_of_not_mem_way hn hd fun hx => hplaced.place_not_mem
      (Path.mem_way.1 (h.first.workingFolder_eq ▸ hx))
  rw [isReadOnly_eq_of_rel (h.alike _ hown), hplaced.place_open]

/-- A package file is copied in both trees or in none. -/
theorem package (h : Beside here settings.outputFolder decl.name Pair initial final a a' b)
    (hapart : SourcesApart settings here decl) (hthere : SourcesThere settings initial decl)
    (hn : Path.IsSegment decl.name) (hdb : db ∈ projectDatabases decl) (hname : name ∈ dacpacs db)
    (hf : a.tree.HasFolder (settings.outputFolder.join ⟨decl.name⟩) place)
    (hf' : a'.tree.HasFolder (settings.outputFolder.join ⟨decl.name⟩) place)
    (hs : copyDacpac settings (settings.outputFolder.join ⟨decl.name⟩) db name a.tree = .ok new)
    (hle : new.CoveredBy final.tree) : ∃ new',
      copyDacpac settings (settings.outputFolder.join ⟨decl.name⟩) db name a'.tree = .ok new' ∧
      Beside here settings.outputFolder decl.name Pair initial final
        ⟨new, a.issued⟩ ⟨new', a'.issued⟩ ⟨new', a'.issued⟩ := by
  obtain ⟨content, hread, -, hcase⟩ := copyDacpac_eq_ok hf hs
  have hread' : a'.tree.read? (dacpacSource settings name) = some content := by
    rw [package_of_reached hapart hthere h.second hdb hname,
      ← package_of_reached hapart hthere h.first hdb hname, hread]
  have hexists := h.exists?_eq hn hf hf' (Include.no_separator_lastSegment name)
  rcases hcase with ⟨he, rfl⟩ | ⟨he, hi, -, -⟩
  · rw [he] at hexists
    exact ⟨a'.tree, copyDacpac_of_exists hread' hexists, rfl, h.first, h.second, h.issued_eq,
      h.first_covered, h.second_covered, h.alike⟩
  · have hne : Include.lastSegment name ≠ "" := by
      rintro hempty
      rw [hempty] at hi
      exact absurd hi (by decide)
    have hstore := hs
    rw [he] at hexists
    rw [copyDacpac_of_absent hread he hne] at hstore
    obtain ⟨way, target, new', hp, hplaced, hs', hplaced'⟩ := store_again h.first.home h.second.home
      h.workingFolder_eq hstore (h.compatible hle) (h.openWhere_package hn) content
    rw [← copyDacpac_of_absent hread' hexists hne] at hs'
    exact ⟨new', hs', h.placed hle (reached_copyDacpac h.first hn hname hf hs)
      (reached_copyDacpac h.second hn hname hf' hs') hplaced hplaced' (.same _)⟩

end Beside

theorem keptByIds_beside : KeptByIds (Beside here out name Pair initial final) where
  issued_eq _ _ _ h := ⟨h.issued_eq, (congrArg RunState.issued h.same).trans h.issued_eq⟩
  issue a a' b h := by
    obtain rfl := h.same
    exact ⟨rfl, h.first, h.second, congrArg (· + 1) h.issued_eq, h.first_covered, h.second_covered, h.alike⟩

/-- The same, behind the first file of a folder. -/
def BesideIn (here : Location) (out : Path) (name : String) (Pair : String → String → Prop)
    (initial : FileTree) (final : RunState) : StateRelation := fun a a' b =>
  Beside here out name Pair initial final a a' b ∧
    ∃ place, a.tree.HasFolder (out.join ⟨name⟩) place ∧ a'.tree.HasFolder (out.join ⟨name⟩) place

section Steps

variable {inner : List String} {file : String} {path : Path} {text text' : String}
  {change change' : FileTree → Except GenerationError FileTree}

theorem replays_beside {R S : StateRelation} (ha : (Run.onTree change).Advances final)
    (hsame : ∀ a a' b, R a a' b → b = a')
    (h : ∀ a a' new, R a a' a' → change a.tree = .ok new → new.CoveredBy final.tree →
      ∃ new', change' a'.tree = .ok new' ∧ S ⟨new, a.issued⟩ ⟨new', a'.issued⟩ ⟨new', a'.issued⟩) :
    Replays final R S Eq (Run.onTree change) (Run.onTree change') := by
  refine replays_onTree ha fun a a' b new hr hs hle => ?_
  obtain rfl := hsame a a' b hr
  obtain ⟨new', hs', hnew⟩ := h a b new hr hs hle.covered
  exact ⟨new', new', hs', hs', hnew⟩

/-- Behind the first file of a folder the folder stays in both trees. -/
theorem replays_besideIn (ha : ∀ old new, change old = .ok new → old.KeptBy new)
    (ha' : ∀ old new, change' old = .ok new → old.KeptBy new)
    (h : ∀ a a' new, BesideIn here out name Pair initial final a a' a' → change a.tree = .ok new →
      new.CoveredBy final.tree → ∃ new', change' a'.tree = .ok new' ∧
        Beside here out name Pair initial final ⟨new, a.issued⟩ ⟨new', a'.issued⟩ ⟨new', a'.issued⟩) :
    Replays final (BesideIn here out name Pair initial final) (BesideIn here out name Pair initial final) Eq
      (Run.onTree change) (Run.onTree change') := by
  refine replays_beside (advances_onTree_ending ha) (fun _ _ _ hr => hr.1.same) fun a a' new hr hs hle => ?_
  obtain ⟨new', hs', hnew⟩ := h a a' new hr hs hle
  obtain ⟨-, place, hf, hf'⟩ := hr
  exact ⟨new', hs', hnew, place, (ha _ _ hs).toCoveredBy.hasFolder hf, (ha' _ _ hs').toCoveredBy.hasFolder hf'⟩

theorem replays_writeBeside (hn : Path.IsSegment name) (hl : Path.LeadsTo (out.join ⟨name⟩) inner file path)
    (h : Renamed Pair text text') :
    Replays final (BesideIn here out name Pair initial final) (BesideIn here out name Pair initial final) Eq
      (Run.onTree (·.write path text.toUTF8)) (Run.onTree (·.write path text'.toUTF8)) :=
  replays_besideIn (fun _ _ => keptBy_store) (fun _ _ => keptBy_store)
    fun _ _ _ hr hs hle => hr.1.write hn hl hs hle (.text h)

theorem replays_writeFirstBeside (hn : Path.IsSegment name) (hf : Path.IsSegment file)
    (h : Renamed Pair text text') :
    Replays final (Beside here out name Pair initial final) (BesideIn here out name Pair initial final) Eq
      (Run.onTree (·.write ((out.join ⟨name⟩).join ⟨file⟩) text.toUTF8))
      (Run.onTree (·.write ((out.join ⟨name⟩).join ⟨file⟩) text'.toUTF8)) := by
  refine replays_beside advances_write (fun _ _ _ hr => hr.same) fun a a' new hr hs hle => ?_
  obtain ⟨new', hs', hnew⟩ := hr.write hn (hf.leadsTo _) hs hle (.text h)
  have hfolder {old new : FileTree} {text : String} (hh : old.get? old.workingFolder = some .folder)
      (hs : old.write ((out.join ⟨name⟩).join ⟨file⟩) text.toUTF8 = .ok new) :
      ∃ place, new.HasFolder (out.join ⟨name⟩) place := by
    obtain ⟨way, target, hp, hplaced⟩ := write_eq_ok hh hs
    obtain ⟨place, hfolder, -⟩ := hplaced.hasFolder (hf.leadsTo _) hp
    exact ⟨place, hfolder⟩
  obtain ⟨place, hf⟩ := hfolder hr.first.home hs
  obtain ⟨place', hf'⟩ := hfolder hr.second.home hs'
  have htarget := hf.target_eq
  rw [← hnew.workingFolder_eq, hf'.target_eq] at htarget
  exact ⟨new', hs', hnew, place, hf, Option.some.inj htarget ▸ hf'⟩

/-- What is below an include in the one state is below it in all further ones, and is copied in both
trees. -/
theorem replays_copyBeside {location : Location} {source : Path} {rest : List String} {content : File}
    {path : String} (hapart : SourcesApart settings here decl) (hthere : SourcesThere settings initial decl)
    (hn : Path.IsSegment decl.name) (hdb : db ∈ projectDatabases decl) (hdbn : Path.IsSegment db.name)
    (hp : path ∈ db.includes)
    (h : Beside here settings.outputFolder decl.name Pair initial final a a' b)
    (hf : Project.includeFolder settings a.tree path = .ok (source, location))
    (he : (rest, .file content) ∈ a.tree.below location) :
    Replays final (BesideIn here settings.outputFolder decl.name Pair initial final)
      (BesideIn here settings.outputFolder decl.name Pair initial final) Eq
      (Run.onTree (·.copy (source.joinAll rest)
        (includeTarget (settings.outputFolder.join ⟨decl.name⟩) db rest)))
      (Run.onTree (·.copy (source.joinAll rest)
        (includeTarget (settings.outputFolder.join ⟨decl.name⟩) db rest))) := by
  obtain ⟨hne, hget⟩ := mem_below.1 he
  have hnames : ∀ part ∈ rest, isName part = true := fun part hm =>
    h.first.names _ _ hget part (by simp [hm])
  obtain ⟨_, _, hinitial, hfirst, -, -⟩ := h.includes hapart hthere hdb hp
  cases hf.symm.trans hfirst
  refine replays_besideIn (fun _ _ => keptBy_copy) (fun _ _ => keptBy_copy)
    fun c c' new hr hs hle => ?_
  obtain ⟨_, _, hinitial', -, hsecond, hget'⟩ := hr.1.includes hapart hthere hdb hp
  cases hinitial.symm.trans hinitial'
  obtain ⟨-, hlocate, hfolder⟩ := Project.includeFolder_eq_ok.1 hsecond
  have htarget : source.target? here = some location := by
    rw [← hr.1.second.workingFolder_eq]
    exact target?_of_locate? hlocate
  have hway : ∀ x ∈ source.way here, c'.tree.get? x = some .folder := fun x hx => by
    rw [← hr.1.second.workingFolder_eq] at hx
    exact folder_of_mem_route (locate?_eq_some.1 hlocate).2.2 hfolder (Path.mem_way.1 hx)
  exact hr.1.copy hn (leadsTo_includeTarget hdbn hne hnames) hnames htarget hway hget' hs hle

end Steps

/-- Every step of a solution goes on in the other tree. -/
theorem keptBySolution_beside (hn : decl.HasSegmentNames)
    (hok : (Registry.empty.constructAll decl.databases).1 = .ok ())
    (hapart : SourcesApart settings here decl) (hthere : SourcesThere settings initial decl) :
    KeptBySolution settings Pair final decl
      (Beside here settings.outputFolder decl.name Pair initial final) where
  solution text text' h := by
    have hsegment : Path.IsSegment (decl.name ++ ".sln") :=
      .of_ending hn.name.no_separator (by decide) (by decide)
    exact replays_beside advances_write (fun _ _ _ hr => hr.same) fun _ _ _ hr hs hle =>
      hr.write hn.name (hsegment.leadsTo _) hs hle (.text h)
  project db hdb := by
    have hdbn := hasSegmentNames_of_mem hn hok hdb
    refine ⟨BesideIn here settings.outputFolder decl.name Pair initial final, keeps_ending final,
      fun _ _ _ h => h.1, ?_, ?_, ?_, ?_, ?_, ?_⟩
    · intro a a' b h path hp
      have hshown := h.shownAlike hapart hthere hdb hp
      obtain rfl := h.same
      exact ⟨hshown, hshown⟩
    · exact fun _ _ h => replays_writeFirstBeside hn.name
        (.of_ending hdbn.name.no_separator (by decide) (by decide)) h
    · intro _ _ h
      have hsegment : Path.IsSegment (db.name ++ ".scmp") :=
        .of_ending hdbn.name.no_separator (by decide) (by decide)
      exact replays_writeBeside hn.name (hsegment.leadsTo _) h
    · exact fun a a' b h path hp source location hf rest content he =>
        replays_copyBeside hapart hthere hn.name hdb hdbn.name hp h.1 hf he
    · intro name hname
      exact replays_besideIn (fun _ _ => keptBy_copyDacpac) (fun _ _ => keptBy_copyDacpac)
        fun _ _ _ ⟨hr, _, hf, hf'⟩ hs hle => hr.package hapart hthere hn.name hdb hname hf hf' hs hle
    · intro scripts hscripts script hs
      obtain ⟨names, last, hfields, hparts⟩ := hdbn.segments_of_mem hscripts hs
      exact replays_writeBeside hn.name ((hdbn.name.leadsTo _).join hfields hparts) (.same _)

/-- A solution that is generated is generated as well in another tree that is alike in its folder,
with as many ids issued before, and leaves its folder alike. -/
theorem generateSolution_beside {s s' t : RunState} {output : SolutionOutput} (hn : decl.HasSegmentNames)
    (hapart : SourcesApart settings here decl) (hthere : SourcesThere settings initial decl)
    (hp : Plain (IdPair ids others final.issued))
    (hbeside : Beside here settings.outputFolder decl.name (IdPair ids others final.issued) initial final
      s s' s')
    (h : (generateSolution settings ids decl).exec s = (.ok output, t)) (ht : t.Leads final) :
    ∃ output' t', (generateSolution settings others decl).exec s' = (.ok output', t') ∧
      output.Alike (IdPair ids others final.issued) output' ∧
      Beside here settings.outputFolder decl.name (IdPair ids others final.issued) initial final t t' t' := by
  obtain ⟨output', t', _, hrun, -, halike, hafter⟩ :=
    (replays_generateSolution hp keptByIds_beside fun hok =>
      keptBySolution_beside hn hok hapart hthere).replay s s' s' hbeside output t h ht
  obtain rfl := hafter.same
  exact ⟨output', _, hrun, halike, hafter⟩

end Generate

end DatabaseProject
