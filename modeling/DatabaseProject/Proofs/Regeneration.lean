import DatabaseProject.Proofs.Artifacts
import DatabaseProject.Proofs.Replay

/-!
# Generating again

A run and the same run in the tree that it leaves go side by side, with a third one between them:
the run in the first tree, but with the ids of the second run. Place by place the tree of the second
run is either what the one between has come to, or still as it was left; and what has been left by
the whole run and is not written again must have come out the same, whatever the ids. What is written
again can be written over: of the files in the folder of a solution only copies are read-only, and
those of includes only when what they are copied from is.
-/

namespace DatabaseProject

open FileTree Outcome

namespace FileTree

variable {here : Location} {out : Path} {initial old new : FileTree}

/-- A tree that another one becomes by changes below an output folder. -/
structure Reached (here : Location) (out : Path) (initial tree : FileTree) : Prop
    extends Rooted here tree where
  changed : ChangedWithin (.below here out) initial tree

theorem Reached.trans (h : Reached here out initial old)
    (h' : Rooted here new ∧ ChangedWithin (.below here out) old new) : Reached here out initial new :=
  ⟨h'.1, h.changed.trans h'.2⟩

end FileTree

namespace Generate

open Run

variable {settings : Settings} {ids others : Nat → String} {here place : Location} {out folder : Path}
  {db : Database} {initial new : FileTree} {final a a' b : RunState} {Pair : String → String → Prop}

theorem reached_copyDacpac {tree : FileTree} {solution name : String}
    (h : Reached here settings.outputFolder initial tree) (hn : Path.IsSegment solution)
    (hname : name ∈ dacpacs db)
    (hf : tree.HasFolder (settings.outputFolder.join ⟨solution⟩) place)
    (hs : copyDacpac settings (settings.outputFolder.join ⟨solution⟩) db name tree = .ok new) :
    Reached here settings.outputFolder initial new := by
  have hwithin : (Run.onTree (copyDacpac settings (settings.outputFolder.join ⟨solution⟩) db name)).Within
      (fun tree => Holding here (settings.outputFolder.join ⟨solution⟩) place tree ∧ True)
      (.below here settings.outputFolder) :=
    (((within_copyDacpac hname Sources.all_cover fun _ _ _ _ => trivial).mono packageFootprint_le).mono
      projectFootprint_le_below).mono (below_join_le hn)
  have hexec : (Run.onTree (copyDacpac settings (settings.outputFolder.join ⟨solution⟩) db name)).exec
      ⟨tree, 0⟩ = (.ok (), ⟨new, 0⟩) := exec_onTree_eq_ok.2 ⟨hs, rfl⟩
  obtain ⟨⟨hholding, -⟩, hchanged⟩ := hwithin.of_exec ⟨⟨h.toRooted, hf⟩, trivial⟩ hexec
  exact h.trans ⟨hholding.toRooted, hchanged⟩

/-- A place in the folder of a solution, and there is that folder. -/
def InSolution (out : Path) (tree : FileTree) (x : Location) : Prop :=
  tree.get? tree.workingFolder = some .folder ∧ ∃ name base rest, Path.IsSegment name ∧
    tree.HasFolder (out.join ⟨name⟩) base ∧ x = base ++ rest

theorem InSolution.of_covered {tree : FileTree} {x : Location} (hc : tree.CoveredBy new)
    (h : InSolution out tree x) : InSolution out new x := by
  obtain ⟨hh, name, base, rest, hn, hf, rfl⟩ := h
  exact ⟨hc.home hh, name, base, rest, hn, hc.hasFolder hf, rfl⟩

/-- A state as the end of a run in which no file in the folder of a solution becomes read-only. -/
abbrev endingIn (out : Path) (final : RunState) : Ending := ⟨final, InSolution out, InSolution.of_covered⟩

/-- A package file that is copied is no other file in the folder of a solution. -/
theorem file_of_copyDacpac {tree : FileTree} {solution name : String} {content : File} {x : Location}
    (hn : Path.IsSegment solution)
    (h : copyDacpac settings (out.join ⟨solution⟩) db name tree = .ok new)
    (hx : InSolution out tree x) (hget : tree.get? x = some (.file content)) :
    new.get? x = some (.file content) := by
  obtain ⟨hh, other, base, rest, hother, hf, rfl⟩ := hx
  by_cases hsame : other = solution
  · subst hsame
    obtain ⟨copied, -, -, ⟨-, rfl⟩ | ⟨-, -, hnone, hplaced⟩⟩ := copyDacpac_eq_ok hf h
    · exact hget
    · refine hplaced.file_eq hget fun he => ?_
      rw [he, hnone] at hget
      cases hget
  · obtain ⟨copied, -, ⟨-, rfl⟩ | ⟨-, -, hstore⟩⟩ := copyDacpac_stores h
    · exact hget
    · obtain ⟨way, place, hp, hplaced⟩ := store_eq_ok hh hstore
      refine hplaced.file_eq hget fun hplace => hsame ?_
      -- the two folders are next to each other
      obtain ⟨folder, file, -, -, -, -, rfl, hd, -⟩ := Path.placeIn?_eq_some.1 hp
      rw [← Path.target?_eq_descend?] at hd
      obtain ⟨start, hstart, -, rfl⟩ := hn.target?_join.1 hd
      obtain ⟨start', hstart', -, rfl⟩ := hother.target?_join.1 hf.target_eq
      obtain rfl := Option.some.inj (hstart.symm.trans hstart')
      simp only [List.append_assoc, List.append_cancel_left_eq, List.singleton_append] at hplace
      exact (List.cons.inj hplace).1

/-- The states of a run, of this run with other ids, and of that one in the tree which the first has
left in the end. -/
structure Settling (here : Location) (out : Path) (Pair : String → String → Prop) (initial : FileTree)
    (final a a' b : RunState) : Prop where
  first : Reached here out initial a.tree
  between : Reached here out initial a'.tree
  issued_eq : a'.issued = a.issued ∧ b.issued = a.issued
  alike : a.tree.Alike Pair a'.tree
  reaches : a.tree.CoveredBy final.tree
  again : SameShape final.tree b.tree
  settled : ∀ x, b.tree.get? x = a'.tree.get? x ∨
    b.tree.get? x = final.tree.get? x ∧ a.tree.get? x = a'.tree.get? x

namespace Settling

/-- Two trees with a file in one place and folders on the way, where the file of the one tree is
that of the final tree, have one shape. -/
theorem sameShape_placed {tree old new : FileTree} {way : List Location} {content later : File}
    (h : SameShape tree old) (hp : Placed way place content old new)
    (hplace : tree.get? place = some (.file later)) (hway : ∀ x ∈ way, tree.get? x = some .folder) :
    SameShape tree new := by
  refine ⟨hp.workingFolder_eq.trans h.workingFolder_eq, fun x => ?_⟩
  rw [hp.get?_eq]
  split_ifs with hx hm
  · rw [hx, hplace]
    exact .some (.file _ _)
  · rw [hway x hm]
    exact .some .folder
  · exact h.kinds x

/-- The same file written in all three trees. -/
theorem placed (h : Settling here out Pair initial final a a' b) {new' u : FileTree}
    {way : List Location} {content content' : File} (hle : new.CoveredBy final.tree)
    (hfirst : Reached here out initial new) (hbetween : Reached here out initial new')
    (hp : Placed way place content a.tree new) (hp' : Placed way place content' a'.tree new')
    (hb : Placed way place content' b.tree u)
    (hc : (FileEntry.file content).Alike Pair (.file content')) :
    Settling here out Pair initial final ⟨new, a.issued⟩ ⟨new', a'.issued⟩ ⟨u, b.issued⟩ where
  first := hfirst
  between := hbetween
  issued_eq := h.issued_eq
  alike := h.alike.placed hp hp' hc
  reaches := hle
  again := by
    obtain ⟨later, hlater⟩ := hle.file hp.get?_place
    exact sameShape_placed h.again hb hlater fun x hx => hle.folder (hp.folder_of_mem hx)
  settled x := by
    simp only [hp.get?_eq, hp'.get?_eq, hb.get?_eq]
    split_ifs with hx hm
    · exact .inl rfl
    · exact .inl rfl
    · exact h.settled x

theorem covered (h : Settling here out Pair initial final a a' b) : a.tree.CoveredBy b.tree :=
  h.reaches.trans h.again.covered

/-- Outside of the output folder all three trees are as the first one was. -/
theorem outside (h : Settling here out Pair initial final a a' b)
    (hfinal : ChangedWithin (.below here out) initial final.tree) {x : Location}
    (hx : ¬ (Footprint.below here out).made x) :
    a.tree.get? x = initial.get? x ∧ a'.tree.get? x = initial.get? x ∧ b.tree.get? x = initial.get? x := by
  have hbetween := h.between.changed.get?_outside hx
  refine ⟨h.first.changed.get?_outside hx, hbetween, ?_⟩
  rcases h.settled x with he | ⟨he, -⟩
  · rw [he, hbetween]
  · rw [he, hfinal.get?_outside hx]

/-- Where the first run has put a file that can be written over, there is none in the tree of the second
run that cannot: what the first run has left there in the end can still be written over. -/
theorem openWhere (h : Settling here out Pair initial final a a' b) {solution name : String}
    {inner : List String} {path : Path} {way : List Location} {content : File} {n : Nat}
    (hn : Path.IsSegment solution) (hl : Path.LeadsTo (out.join ⟨solution⟩) inner name path)
    (hp : path.place? a.tree.workingFolder = some (way, place)) (hplaced : Placed way place content a.tree new)
    (hc : content.readOnly = false) (hle : (RunState.mk new n).Leads (endingIn out final)) :
    OpenWhere (path.place? a.tree.workingFolder) a.tree new b.tree := by
  intro way' place' content' hp' hplaced'
  cases hp.symm.trans hp'
  rcases h.settled place with he | ⟨he, -⟩
  · exact (isReadOnly_congr he).trans (h.alike.isReadOnly_eq.trans hplaced.place_open)
  · obtain ⟨folder, hfolder, rfl⟩ := hplaced.hasFolder hl hp
    have hhome : new.get? new.workingFolder = some .folder :=
      (h.first.trans (hplaced.below ((hn.leadsTo out).trans hl) hp h.first.toRooted)).home
    have hin : InSolution out new (folder ++ inner ++ [name]) :=
      ⟨hhome, solution, folder, inner ++ [name], hn, hfolder, List.append_assoc _ _ _⟩
    exact (isReadOnly_congr he).trans (hle.unlocked _ content hin hplaced.get?_place hc)

theorem write (h : Settling here out Pair initial final a a' b) {solution name : String}
    {inner : List String} {path : Path} {content content' : ByteArray} (hn : Path.IsSegment solution)
    (hl : Path.LeadsTo (out.join ⟨solution⟩) inner name path)
    (hs : a.tree.write path content = .ok new) (hle : (RunState.mk new a.issued).Leads (endingIn out final))
    (hc : (FileEntry.file content).Alike Pair (.file content')) :
    ∃ new' u, a'.tree.write path content' = .ok new' ∧ b.tree.write path content' = .ok u ∧
      Settling here out Pair initial final ⟨new, a.issued⟩ ⟨new', a'.issued⟩ ⟨u, b.issued⟩ := by
  obtain ⟨way, place, hp, hplaced⟩ := write_eq_ok h.first.home hs
  have hopen := h.openWhere hn hl hp hplaced rfl hle
  obtain ⟨way₁, place₁, new', hp₁, -, hn', hplaced'⟩ := store_again h.first.home h.between.home
    h.alike.workingFolder_eq hs (h.alike.compatible hplaced) (h.alike.openWhere _) content'
  obtain ⟨way₂, place₂, u, hp₂, -, hu, hplacedb⟩ := store_again h.first.home (h.covered.home h.first.home)
    h.covered.workingFolder_eq hs (hle.covered.trans h.again.covered).compatible hopen content'
  cases hp.symm.trans hp₁
  cases hp.symm.trans hp₂
  have hp' : path.place? a'.tree.workingFolder = some (way, place) := by
    rw [h.alike.workingFolder_eq]
    exact hp
  have hinside := (hn.leadsTo out).trans hl
  exact ⟨new', u, hn', hu, h.placed hle.covered (h.first.trans (hplaced.below hinside hp h.first.toRooted))
    (h.between.trans (hplaced'.below hinside hp' h.between.toRooted)) hplaced hplaced' hplacedb hc⟩

theorem copy (h : Settling here out Pair initial final a a' b) {solution name : String}
    {inner : List String} {source target : Path} (hfinal : ChangedWithin (.below here out) initial final.tree)
    (hn : Path.IsSegment solution) (hl : Path.LeadsTo (out.join ⟨solution⟩) inner name target)
    (hsource : ∀ origin, source.target? here = some origin →
      ¬ (Footprint.below here out).made origin ∧ initial.isReadOnly origin = false)
    (hs : a.tree.copy source target = .ok new) (hle : (RunState.mk new a.issued).Leads (endingIn out final)) :
    ∃ new' u, a'.tree.copy source target = .ok new' ∧ b.tree.copy source target = .ok u ∧
      Settling here out Pair initial final ⟨new, a.issued⟩ ⟨new', a'.issued⟩ ⟨u, b.issued⟩ := by
  obtain ⟨way, place, _, _, _, hp, -, -, -, hplaced⟩ := copy_eq_ok h.first.home hs
  obtain ⟨way₁, place₁, origin, original, original', new', hp₁, ho, hfile, hfile', hplaced, hn', hplaced'⟩ :=
    copy_again h.first.home h.between.home hs h.alike.covered (h.alike.compatible hplaced) (h.alike.openWhere _)
  have hhere := ho
  rw [h.first.workingFolder_eq] at hhere
  obtain ⟨hfirst, hbetween, hagain⟩ := h.outside hfinal (hsource origin hhere).1
  have hwritable : (if origin = place₁ then .empty else original : File).readOnly = false := by
    split
    · rfl
    · rw [← isReadOnly_of_get? hfile, isReadOnly_congr hfirst, (hsource origin hhere).2]
  obtain ⟨way₂, place₂, origin₂, original₂, again, u, hp₂, ho₂, -, hfileb, -, hu, hplacedb⟩ :=
    copy_again h.first.home (h.covered.home h.first.home) hs h.covered
      (hle.covered.trans h.again.covered).compatible (h.openWhere hn hl hp₁ hplaced hwritable hle)
  cases hp₁.symm.trans hp₂
  cases ho.symm.trans ho₂
  -- what is copied is outside, and so is the same in all three trees
  obtain rfl : original' = original :=
    FileEntry.file.inj (Option.some.inj (hfile'.symm.trans (hbetween.trans (hfirst.symm.trans hfile))))
  obtain rfl : again = original' :=
    FileEntry.file.inj (Option.some.inj (hfileb.symm.trans (hagain.trans (hfirst.symm.trans hfile))))
  have hp' : target.place? a'.tree.workingFolder = some (way₁, place₁) := by
    rwa [h.alike.workingFolder_eq]
  have hinside := (hn.leadsTo out).trans hl
  exact ⟨new', u, hn', hu, h.placed hle.covered (h.first.trans (hplaced.below hinside hp₁ h.first.toRooted))
    (h.between.trans (hplaced'.below hinside hp' h.between.toRooted)) hplaced hplaced' hplacedb (.same _)⟩

/-- A file from outside is the same whatever the ids. -/
theorem content_eq (h : Settling here out Pair initial final a a' b) {path : Path}
    {content content' : File}
    (hpath : ∀ source, path.target? here = some source → ¬ (Footprint.below here out).written source)
    (hread : a.tree.read? path = some content) (hread' : a'.tree.read? path = some content') :
    content' = content := by
  obtain ⟨source, hl, hget⟩ := read?_eq_some.1 hread
  obtain ⟨source', hl', hget'⟩ := read?_eq_some.1 hread'
  obtain rfl := Option.some.inj ((h.alike.covered.locate? hl).symm.trans hl')
  have ht := target?_of_locate? hl
  rw [h.first.workingFolder_eq] at ht
  have hsame := (h.between.changed.fileAt?_outside (hpath source ht)).trans
    (h.first.changed.fileAt?_outside (hpath source ht)).symm
  rw [fileAt?_eq_some.2 hget, fileAt?_eq_some.2 hget'] at hsame
  exact Option.some.inj hsame

/-- A package file that the first run copies is there already when the run is repeated. -/
theorem package (h : Settling here settings.outputFolder Pair initial final a a' b)
    {solution name : String} (hn : Path.IsSegment solution) (hname : name ∈ dacpacs db)
    (hf : a.tree.HasFolder (settings.outputFolder.join ⟨solution⟩) place)
    (hsource : ∀ source, (dacpacSource settings name).target? here = some source →
      ¬ (Footprint.below here settings.outputFolder).written source)
    (hs : copyDacpac settings (settings.outputFolder.join ⟨solution⟩) db name a.tree = .ok new)
    (hle : new.CoveredBy final.tree) :
    ∃ new', copyDacpac settings (settings.outputFolder.join ⟨solution⟩) db name a'.tree = .ok new' ∧
      copyDacpac settings (settings.outputFolder.join ⟨solution⟩) db name b.tree = .ok b.tree ∧
      Settling here settings.outputFolder Pair initial final ⟨new, a.issued⟩ ⟨new', a'.issued⟩ b := by
  have hnewb := hle.trans h.again.covered
  have hf' := h.alike.covered.hasFolder hf
  obtain ⟨content, hread, hexists, hcase⟩ := copyDacpac_eq_ok hf hs
  obtain ⟨new', hs', hnew⟩ := copyDacpac_alike h.alike h.first.home hs
  obtain ⟨content', hread', -, hcase'⟩ := copyDacpac_eq_ok hf' hs'
  obtain ⟨_, _, _, _, _, hagain⟩ := h.covered.read? hread
  refine ⟨new', hs', copyDacpac_of_exists hagain (hnewb.exists? hexists), ?_⟩
  rcases hcase with ⟨he, rfl⟩ | ⟨he, -, hnone, hplaced⟩
  · rcases hcase' with ⟨-, rfl⟩ | ⟨he', -⟩
    · exact h
    · rw [h.alike.covered.exists? he] at he'
      cases he'
  · rcases hcase' with ⟨he', -⟩ | ⟨-, -, hnone', hplaced'⟩
    · rw [h.alike.covers.exists? he'] at he
      cases he
    · obtain rfl := h.content_eq hsource hread hread'
      refine ⟨reached_copyDacpac h.first hn hname hf hs, reached_copyDacpac h.between hn hname hf' hs',
        h.issued_eq, hnew, hle, h.again, fun x => ?_⟩
      have hway : ∀ x ∈ (settings.outputFolder.join ⟨solution⟩).way a.tree.workingFolder,
          b.tree.get? x = some .folder := fun x hx =>
        hnewb.folder (hplaced.folder_of_mem hx)
      rw [h.alike.workingFolder_eq] at hplaced'
      simp only [hplaced.get?_eq, hplaced'.get?_eq]
      split_ifs with hx hm
      · refine .inr ⟨?_, rfl⟩
        subst hx
        rcases h.settled (place ++ [Include.lastSegment name]) with hb | ⟨hb, -⟩
        · obtain ⟨later, hlater⟩ := hnewb.file hplaced.get?_place
          rw [hb, hnone'] at hlater
          cases hlater
        · exact hb
      · exact .inl (hway x hm)
      · exact h.settled x

end Settling

/-- What a solution takes over is not what a run changes: its includes are apart from the output
folder and from the way to it, and its package files are not in the output folder. -/
structure SourcesApart (settings : Settings) (here : Location) (decl : SolutionDecl) : Prop where
  includes : IncludesApart settings here settings.outputFolder (projectDatabases decl)
  passed : ∀ db ∈ projectDatabases decl, ∀ path ∈ db.includes, ∀ inside ∈ includePlace? settings here path,
    ∀ x ∈ settings.outputFolder.way here, ¬ inside <+: x
  packages : ∀ db ∈ projectDatabases decl, ∀ name ∈ dacpacs db,
    ∀ source ∈ (dacpacSource settings name).target? here,
      ∀ base ∈ settings.outputFolder.target? here, ¬ base <+: source

/-- No file that an include of a solution brings in is read-only. -/
def IncludesWritable (settings : Settings) (here : Location) (tree : FileTree) (decl : SolutionDecl) : Prop :=
  ∀ db ∈ projectDatabases decl, ∀ path ∈ db.includes, ∀ inside ∈ includePlace? settings here path,
    ∀ file ∈ tree.filesBelow inside, tree.isReadOnly (inside ++ file.1) = false

theorem IncludesWritable.isReadOnly {decl : SolutionDecl} {tree : FileTree} {path : String}
    {inside : Location} {rest : List String} (h : IncludesWritable settings here tree decl)
    (hdb : db ∈ projectDatabases decl) (hp : path ∈ db.includes)
    (hi : includePlace? settings here path = some inside) (hne : rest ≠ []) :
    tree.isReadOnly (inside ++ rest) = false := by
  by_contra hlocked
  obtain ⟨content, hget, -⟩ := isReadOnly_eq_true.1 (by simpa using hlocked)
  exact hlocked (h db hdb path hp inside hi _ (mem_filesBelow.2 ⟨hne, content, hget, rfl⟩))

/-- Where no path leads upwards it is enough that the output folder is apart from the folders of the
project and of the packages. -/
theorem sourcesApart_of_disjoint {decl : SolutionDecl} {base : Location}
    (hbase : settings.outputFolder.target? here = some base) (hout : ".." ∉ settings.outputFolder.parts)
    (hincludes : ∀ db ∈ projectDatabases decl, ∀ path ∈ db.includes, ".." ∉ Include.segments path)
    (hdacpacs : ∀ db ∈ projectDatabases decl, ∀ name ∈ dacpacs db, ".." ∉ Include.segments name)
    (hproject : ∀ place ∈ settings.projectFolder.target? here, base.Apart place)
    (hpackages : ∀ package folder, settings.packages.get? package = some folder →
      ∀ place ∈ folder.target? here, base.Apart place) : SourcesApart settings here decl := by
  have hincluded : IncludesApart settings here settings.outputFolder (projectDatabases decl) := by
    refine includesApart_of_disjoint hincludes (fun place hp other ho => ?_)
      fun package folder hf place hp other ho => ?_
    · rw [← Option.some.inj (hbase.symm.trans ho)]
      exact hproject place hp
    · rw [← Option.some.inj (hbase.symm.trans ho)]
      exact hpackages package folder hf place hp
  refine ⟨hincluded, fun db hdb path hp inside hi x hx hle => ?_, ?_⟩
  · exact (hincluded db hdb path hp inside hi base hbase).2
      (hle.trans (prefix_of_mem_route hout hbase hx))
  · intro db hdb name hn source hs other ho hle
    obtain rfl := Option.some.inj (hbase.symm.trans ho)
    obtain ⟨place, hplace, more, rfl⟩ := Path.target?_joinAll_inside
      (fun piece => Include.no_separator_of_mem_segments) (hdacpacs db hdb name hn) hs
    have happart := (hproject place hplace).append [] more
    rw [List.append_nil] at happart
    exact happart.1 hle

theorem SourcesApart.not_made {decl : SolutionDecl} (h : SourcesApart settings here decl)
    (hdb : db ∈ projectDatabases decl) {path : String} (hp : path ∈ db.includes) {inside : Location}
    (hi : includePlace? settings here path = some inside) (rest : List String) :
    ¬ (Footprint.below here settings.outputFolder).made (inside ++ rest) := by
  rintro (hx | ⟨base, more, hb, he⟩)
  · exact h.passed db hdb path hp inside hi _ hx (List.prefix_append _ _)
  · apply h.includes.not_prefix hdb hp hi hb rest
    rw [he]
    exact List.prefix_append _ _

theorem SourcesApart.not_written {decl : SolutionDecl} (h : SourcesApart settings here decl)
    (hdb : db ∈ projectDatabases decl) {name : String} (hn : name ∈ dacpacs db) {source : Location}
    (hs : (dacpacSource settings name).target? here = some source) :
    ¬ (Footprint.below here settings.outputFolder).written source := by
  rintro ⟨base, rest, hb, -, rfl⟩
  exact h.packages db hdb name hn _ hs base hb (List.prefix_append _ _)

/-- A run leaves what an include brings in as it was, so that none of it is read-only in the end. -/
theorem IncludesWritable.readOnly_eq {decl : SolutionDecl} {last tree : FileTree} {path : String}
    {source : Path} {location : Location} {rest : List String} {content : File}
    (h : IncludesWritable settings here initial decl) (hapart : SourcesApart settings here decl)
    (hlast : Reached here settings.outputFolder initial last) (hdb : db ∈ projectDatabases decl)
    (hp : path ∈ db.includes) (htree : tree.workingFolder = here)
    (hf : Project.includeFolder settings tree path = .ok (source, location)) (hne : rest ≠ [])
    (hnames : ∀ part ∈ rest, isName part = true)
    (hread : last.read? (source.joinAll rest) = some content) : content.readOnly = false := by
  obtain ⟨origin, hl, hget⟩ := read?_eq_some.1 hread
  obtain ⟨hi, hsource⟩ := includePlace?_of_includeFolder hf
  rw [htree] at hi hsource
  have horigin := target?_of_locate? hl
  rw [hlast.workingFolder_eq, Path.target?_joinAll_names hsource hnames] at horigin
  obtain rfl := Option.some.inj horigin
  have hkept := hlast.changed.get?_outside (hapart.not_made hdb hp hi rest)
  rw [← isReadOnly_of_get? hget, isReadOnly_congr hkept, h.isReadOnly hdb hp hi hne]

/-- What the first run takes over through an include is still there when it is repeated. -/
theorem Settling.shownAlike {decl : SolutionDecl} {path : String}
    (h : Settling here settings.outputFolder Pair initial final a a' b)
    (hapart : SourcesApart settings here decl)
    (hfinal : ChangedWithin (.below here settings.outputFolder) initial final.tree)
    (hdb : db ∈ projectDatabases decl) (hp : path ∈ db.includes) :
    Project.ShownAlike settings a.tree b.tree path := by
  refine Project.shownAlike_of_rel h.covered ?_
  intro source location hf rest
  obtain ⟨hi, -⟩ := includePlace?_of_includeFolder hf
  rw [h.first.workingFolder_eq] at hi
  obtain ⟨ha, -, hb⟩ := h.outside hfinal (hapart.not_made hdb hp hi rest)
  rw [ha, hb]
  exact (SameShape.refl initial).kinds _

theorem keptByIds_settling : KeptByIds (Settling here out Pair initial final) where
  issued_eq _ _ _ h := h.issued_eq
  issue _ _ _ h := ⟨h.first, h.between, ⟨congrArg (· + 1) h.issued_eq.1, congrArg (· + 1) h.issued_eq.2⟩,
    h.alike, h.reaches, h.again, h.settled⟩

/-- The same, behind the first file of a folder. -/
def SettlingIn (here : Location) (out : Path) (Pair : String → String → Prop) (initial : FileTree)
    (final : RunState) (folder : Path) : StateRelation := fun a a' b =>
  Settling here out Pair initial final a a' b ∧ ∃ place, a.tree.HasFolder folder place

section Steps

variable {inner : List String} {solution file name : String} {path : Path} {text text' : String}

theorem replays_settlingIn {change change' : FileTree → Except GenerationError FileTree}
    (hk : ∀ old new, change old = .ok new → old.KeptBy new)
    (h : Replays (endingIn out final) (Settling here out Pair initial final)
      (Settling here out Pair initial final) Eq (Run.onTree change) (Run.onTree change')) :
    Replays (endingIn out final) (SettlingIn here out Pair initial final folder)
      (SettlingIn here out Pair initial final folder) Eq (Run.onTree change) (Run.onTree change') := by
  refine ⟨h.advances, fun a a' b hr v t hx ht => ?_⟩
  obtain ⟨hr, place, hf⟩ := hr
  obtain ⟨v', t', u, ha', hb, hq, hs⟩ := h.replay a a' b hr v t hx ht
  exact ⟨v', t', u, ha', hb, hq, hs, place,
    (hk _ _ (exec_onTree_eq_ok.1 hx).1).toCoveredBy.hasFolder hf⟩

theorem replays_write (hn : Path.IsSegment solution) (hl : Path.LeadsTo (out.join ⟨solution⟩) inner name path)
    (h : Renamed Pair text text') : Replays (endingIn out final) (Settling here out Pair initial final)
      (Settling here out Pair initial final) Eq
      (Run.onTree (·.write path text.toUTF8)) (Run.onTree (·.write path text'.toUTF8)) :=
  replays_onTree advances_write fun _ _ _ _ hr hs hle => hr.write hn hl hs hle (.text h)

theorem replays_writeFirst (hn : Path.IsSegment solution) (hf : Path.IsSegment file)
    (h : Renamed Pair text text') : Replays (endingIn out final) (Settling here out Pair initial final)
      (SettlingIn here out Pair initial final (out.join ⟨solution⟩)) Eq
      (Run.onTree (·.write ((out.join ⟨solution⟩).join ⟨file⟩) text.toUTF8))
      (Run.onTree (·.write ((out.join ⟨solution⟩).join ⟨file⟩) text'.toUTF8)) := by
  refine replays_onTree advances_write fun a a' b new hr hs hle => ?_
  obtain ⟨way, place, hp, hplaced⟩ := write_eq_ok hr.first.home hs
  obtain ⟨place, hfolder, -⟩ := hplaced.hasFolder (hf.leadsTo _) hp
  obtain ⟨new', u, hn', hu, hsettling⟩ := hr.write hn (hf.leadsTo _) hs hle (.text h)
  exact ⟨new', u, hn', hu, hsettling, place, hfolder⟩

/-- A file of an include comes from outside, so that copying it can be repeated. -/
theorem replays_copySettling {decl : SolutionDecl} {path : String} {source : Path} {location : Location}
    {rest : List String} {content : File} (hn : Path.IsSegment solution)
    (hapart : SourcesApart settings here decl) (hwritable : IncludesWritable settings here initial decl)
    (hfinal : Reached here settings.outputFolder initial final.tree) (hdb : db ∈ projectDatabases decl)
    (hdbn : Path.IsSegment db.name) (hp : path ∈ db.includes)
    (h : Settling here settings.outputFolder Pair initial final a a' b)
    (hf : Project.includeFolder settings a.tree path = .ok (source, location))
    (he : (rest, .file content) ∈ a.tree.below location) :
    Replays (endingIn settings.outputFolder final)
      (SettlingIn here settings.outputFolder Pair initial final (settings.outputFolder.join ⟨solution⟩))
      (SettlingIn here settings.outputFolder Pair initial final (settings.outputFolder.join ⟨solution⟩)) Eq
      (Run.onTree (·.copy (source.joinAll rest)
        (includeTarget (settings.outputFolder.join ⟨solution⟩) db rest)))
      (Run.onTree (·.copy (source.joinAll rest)
        (includeTarget (settings.outputFolder.join ⟨solution⟩) db rest))) := by
  obtain ⟨hne, hget⟩ := mem_below.1 he
  have hnames : ∀ part ∈ rest, isName part = true := fun part hm =>
    h.first.names _ _ hget part (by simp [hm])
  obtain ⟨hi, hsource⟩ := includePlace?_of_includeFolder hf
  rw [h.first.workingFolder_eq] at hi hsource
  have hadvances : (copyEntry source ((settings.outputFolder.join ⟨solution⟩).join ⟨db.name⟩)
      (rest, .file content)).Advances (endingIn settings.outputFolder final) :=
    advances_copyEntry fun _ _ _ _ hread =>
      hwritable.readOnly_eq hapart hfinal hdb hp h.first.workingFolder_eq hf hne hnames hread
  refine replays_settlingIn (fun _ _ => keptBy_copy)
    (replays_onTree hadvances fun c c' d new hr hs hle => ?_)
  refine hr.copy hfinal.changed hn (leadsTo_includeTarget hdbn hne hnames) (fun origin ho => ?_) hs hle
  obtain rfl := Option.some.inj ((Path.target?_joinAll_names hsource hnames).symm.trans ho)
  exact ⟨hapart.not_made hdb hp hi rest, hwritable.isReadOnly hdb hp hi hne⟩

end Steps

/-- What a solution takes over makes no file in the folder of a solution read-only. -/
theorem keeps_endingIn {decl : SolutionDecl} (hn : Path.IsSegment decl.name)
    (hapart : SourcesApart settings here decl) (hwritable : IncludesWritable settings here initial decl)
    (hfinal : Reached here settings.outputFolder initial final.tree) (hdb : db ∈ projectDatabases decl) :
    Keeps settings (settings.outputFolder.join ⟨decl.name⟩) db (endingIn settings.outputFolder final) where
  included _ _ _ path hp source location hf rest _ hbelow content hread := by
    obtain ⟨hne, hget⟩ := mem_below.1 hbelow
    exact hwritable.readOnly_eq hapart hfinal hdb hp hfinal.workingFolder_eq hf hne
      (fun part hm => hfinal.names _ _ hget part (by simp [hm])) hread
  package _ _ _ hs _ _ hx hget := file_of_copyDacpac hn hs hx hget

/-- Every step of a solution can be repeated. -/
theorem keptBySolution_settling {decl : SolutionDecl} (hn : decl.HasSegmentNames)
    (hok : (Registry.empty.constructAll decl.databases).1 = .ok ())
    (hapart : SourcesApart settings here decl) (hwritable : IncludesWritable settings here initial decl)
    (hfinal : Reached here settings.outputFolder initial final.tree) :
    KeptBySolution settings Pair (endingIn settings.outputFolder final) decl
      (Settling here settings.outputFolder Pair initial final) where
  solution text text' h := by
    have hsegment : Path.IsSegment (decl.name ++ ".sln") :=
      .of_ending hn.name.no_separator (by decide) (by decide)
    exact replays_write hn.name (hsegment.leadsTo _) h
  project db hdb := by
    have hdbn := hasSegmentNames_of_mem hn hok hdb
    have hkeeps := keeps_endingIn hn.name hapart hwritable hfinal hdb
    refine ⟨SettlingIn here settings.outputFolder Pair initial final
      (settings.outputFolder.join ⟨decl.name⟩), hkeeps, fun _ _ _ h => h.1, ?_, ?_, ?_, ?_, ?_, ?_⟩
    · exact fun a a' b h path hp =>
        ⟨Project.shownAlike_of_alike h.alike, h.shownAlike hapart hfinal.changed hdb hp⟩
    · exact fun _ _ h =>
        replays_writeFirst hn.name (.of_ending hdbn.name.no_separator (by decide) (by decide)) h
    · intro _ _ h
      have hsegment : Path.IsSegment (db.name ++ ".scmp") :=
        .of_ending hdbn.name.no_separator (by decide) (by decide)
      exact replays_settlingIn (fun _ _ => keptBy_store) (replays_write hn.name (hsegment.leadsTo _) h)
    · exact fun a a' b h path hp source location hf rest content he =>
        replays_copySettling hn.name hapart hwritable hfinal hdb hdbn.name hp h.1 hf he
    · intro name hname
      refine replays_onTree (advances_copyDacpac hkeeps) fun a a' b new hr hs hle => ?_
      obtain ⟨hr, place, hf⟩ := hr
      obtain ⟨new', hs', hsb, hsettling⟩ := hr.package hn.name hname hf
        (fun _ => hapart.not_written hdb hname) hs hle.covered
      exact ⟨new', b.tree, hs', hsb, hsettling, place, (keptBy_copyDacpac hs).toCoveredBy.hasFolder hf⟩
    · intro scripts hscripts script hs
      obtain ⟨names, last, hfields, hparts⟩ := hdbn.segments_of_mem hscripts hs
      exact replays_settlingIn (fun _ _ => keptBy_store) (replays_write hn.name
        ((hdbn.name.leadsTo _).join hfields hparts) (.same _))

/-- What a definition in a file needs so that it can be generated again: all names are segments,
neither what is taken over nor the file itself is changed by a run, and no file is taken over that
could not be written over once it has been copied. -/
structure Repeatable (settings : Settings) (tree : FileTree) (path : Path) (definition : Definition) :
    Prop where
  names : ∀ decl ∈ definition.solutions, decl.HasSegmentNames
  sources : ∀ decl ∈ definition.solutions, SourcesApart settings tree.workingFolder decl
  writable : ∀ decl ∈ definition.solutions, IncludesWritable settings tree.workingFolder tree decl
  file : ∀ source ∈ path.target? tree.workingFolder,
    ∀ base ∈ settings.outputFolder.target? tree.workingFolder, ¬ base <+: source

/-- A definition file outside of the output folder is read again as it has been. -/
theorem readDefinition_again {path : Path} {tree : FileTree} {definition : Definition}
    (h : readDefinition path tree = .ok (some definition))
    (hfile : ∀ source ∈ path.target? tree.workingFolder,
      ∀ base ∈ settings.outputFolder.target? tree.workingFolder, ¬ base <+: source)
    (hc : ChangedWithin (.below tree.workingFolder settings.outputFolder) tree new) :
    readDefinition path new = .ok (some definition) := by
  cases hread : tree.read? path with
  | none => simp [readDefinition, hread] at h
  | some content =>
    have hagain : new.read? path = some content := by
      refine hc.read?_eq hread ?_
      rintro source hs ⟨base, rest, hb, -, rfl⟩
      exact hfile _ hs base hb (List.prefix_append _ _)
    unfold readDefinition at h ⊢
    rwa [hagain, ← hread]

theorem mapM_generateSolution_again {path : Path} {tree : FileTree} {definition : Definition}
    {outputs : List SolutionOutput} (hw : tree.WellFormed)
    (hr : Repeatable settings tree path definition)
    (hp : Plain (IdPair ids others final.issued))
    (h : (definition.solutions.mapM (generateSolution settings ids)).exec ⟨tree, 0⟩ = (.ok outputs, final)) :
    ∃ outputs' t' u,
      (definition.solutions.mapM (generateSolution settings others)).exec ⟨tree, 0⟩ = (.ok outputs', t') ∧
      (definition.solutions.mapM (generateSolution settings others)).exec ⟨final.tree, 0⟩ =
        (.ok outputs', u) ∧
      List.Forall₂ (SolutionOutput.Alike (IdPair ids others final.issued)) outputs outputs' ∧
      Settling tree.workingFolder settings.outputFolder (IdPair ids others final.issued) tree final
        final t' u := by
  obtain ⟨hrooted, hchanged⟩ := (within_mapM_generateSolution hr.names).of_exec ⟨hw, rfl⟩ h
  have hfinal : Reached tree.workingFolder settings.outputFolder tree final.tree := ⟨hrooted, hchanged⟩
  have hreplays := @replays_mapM _ _ _ (endingIn settings.outputFolder final) _ _ definition.solutions _ _
    fun decl hd => replays_generateSolution hp keptByIds_settling fun hok =>
      keptBySolution_settling (hr.names decl hd) hok (hr.sources decl hd) (hr.writable decl hd) hfinal
  have hstart : Settling tree.workingFolder settings.outputFolder (IdPair ids others final.issued) tree
      final ⟨tree, 0⟩ ⟨tree, 0⟩ ⟨final.tree, 0⟩ :=
    ⟨⟨⟨hw, rfl⟩, .refl _⟩, ⟨⟨hw, rfl⟩, .refl _⟩, ⟨rfl, rfl⟩, .refl _,
      (hreplays.advances.of_exec h (.refl (endingIn settings.outputFolder final))).covered, .refl _,
      fun _ => .inr ⟨rfl, rfl⟩⟩
  exact hreplays.replay _ _ _ hstart outputs final h (.refl (endingIn settings.outputFolder final))

/-- Generating again changes nothing but the ids. Whatever ids the second run takes, it succeeds,
and its outputs and the tree that it leaves are those of the first run with each id replaced by its
partner; and the tree is as if the second run had been the only one. -/
theorem regeneration_settles {tree : FileTree} {path : Path} {outputs : List SolutionOutput}
    {t : RunState} (hw : tree.WellFormed)
    (hr : ∀ definition, readDefinition path tree = .ok (some definition) →
      Repeatable settings tree path definition)
    (hp : Plain (IdPair ids others t.issued))
    (h : (generate settings ids path).exec ⟨tree, 0⟩ = (.ok outputs, t)) :
    ∃ outputs' again direct,
      (generate settings others path).exec ⟨t.tree, 0⟩ = (.ok outputs', again) ∧
      (generate settings others path).exec ⟨tree, 0⟩ = (.ok outputs', direct) ∧
      List.Forall₂ (SolutionOutput.Alike (IdPair ids others t.issued)) outputs outputs' ∧
      t.tree.Alike (IdPair ids others t.issued) again.tree ∧ again.issued = t.issued ∧
      (∀ x, again.tree.get? x = direct.tree.get? x) ∧
      (Set.InjOn ids {turn | turn < t.issued} → Set.InjOn others {turn | turn < t.issued} →
        Relator.BiUnique (IdPair ids others t.issued)) := by
  rw [exec_generate] at h
  simp only [exec_generate]
  cases hread : readDefinition path tree with
  | error e => simp [hread] at h
  | ok found =>
    rw [hread] at h
    cases found with
    | none =>
      cases h
      rw [hread]
      exact ⟨[], _, _, rfl, rfl, .nil, .refl _, rfl, fun _ => rfl, biUnique_idPair⟩
    | some definition =>
      dsimp only at h
      obtain ⟨outputs', direct, again, hdirect, hagain, halike, hs⟩ :=
        mapM_generateSolution_again hw (hr definition hread) hp h
      have hsame : ∀ x, again.tree.get? x = direct.tree.get? x := fun x => by
        rcases hs.settled x with hx | ⟨hx, hbetween⟩
        · exact hx
        · exact hx.trans hbetween
      rw [readDefinition_again hread (hr definition hread).file hs.first.changed]
      refine ⟨outputs', again, direct, hagain, hdirect, halike, ⟨hs.again.workingFolder_eq, fun x => ?_⟩,
        hs.issued_eq.2, hsame, biUnique_idPair⟩
      rw [hsame]
      exact hs.alike.entries x

/-- A run of a definition file outside of the output folder, and the next run, are runs of its
solutions. -/
theorem exec_generate_again {tree : FileTree} {path : Path} {definition : Definition}
    {outputs : List SolutionOutput} {t : RunState}
    (hread : readDefinition path tree = .ok (some definition))
    (hn : ∀ decl ∈ definition.solutions, decl.HasSegmentNames) (hw : tree.WellFormed)
    (hfile : ∀ source ∈ path.target? tree.workingFolder,
      ∀ base ∈ settings.outputFolder.target? tree.workingFolder, ¬ base <+: source)
    (h : (definition.solutions.mapM (generateSolution settings ids)).exec ⟨tree, 0⟩ = (.ok outputs, t)) :
    (generate settings ids path).exec ⟨tree, 0⟩ = (.ok outputs, t) ∧
      (generate settings others path).exec ⟨t.tree, 0⟩ =
        (definition.solutions.mapM (generateSolution settings others)).exec ⟨t.tree, 0⟩ := by
  have hchanged := ((within_mapM_generateSolution hn).of_exec ⟨hw, rfl⟩ h).2
  rw [exec_generate, exec_generate, hread, readDefinition_again hread hfile hchanged]
  exact ⟨h, rfl⟩

def includingDefinition : String :=
  "<Sql><SqlProject Name=\"Store\"><Databases>" ++
    "<Database Name=\"Shop\" CreateProject=\"true\"><DatabaseIncludes>" ++
      "<Folder Path=\"../out/Store/Shop/sub\"/><Folder Path=\"Inc\"/>" ++
    "</DatabaseIncludes></Database></Databases></SqlProject></Sql>"

/-- Both includes of the definition are there; the file of the second one may be read-only. -/
def includingTree (locked : Bool) : FileTree := .ofEntries [
  (["work"], .folder),
  (["work", "definition.xml"], .file includingDefinition.toUTF8),
  (["work", "project"], .folder),
  (["work", "project", "Inc"], .folder),
  (["work", "project", "Inc", "sub"], .folder),
  (["work", "project", "Inc", "sub", "y.txt"], .file { bytes := "1".toUTF8, readOnly := locked }),
  (["work", "out"], .folder),
  (["work", "out", "Store"], .folder),
  (["work", "out", "Store", "Shop"], .folder),
  (["work", "out", "Store", "Shop", "sub"], .folder),
  (["work", "out", "Store", "Shop", "sub", "x.txt"], .file "0".toUTF8)]

def includingSolution : SolutionDecl := sampleSolution ["../out/Store/Shop/sub", "Inc"]

theorem read_includingDefinition (locked : Bool) : ∃ definition,
    readDefinition ⟨"/work/definition.xml"⟩ (includingTree locked) = .ok (some definition) ∧
      definition.solutions = [includingSolution] := by
  have hl : (includingTree locked).locate? ⟨"/work/definition.xml"⟩ = some ["work", "definition.xml"] := by
    cases locked <;> decide
  have hg : (includingTree locked).get? ["work", "definition.xml"] =
      some (.file includingDefinition.toUTF8) := by
    cases locked <;> rfl
  exact exists_definition_of_text hl hg (by decide +kernel)

/-- Settings whose output folder is apart from both includes. -/
def elsewhere : Settings := { sampleSettings with outputFolder := ⟨"/work/new"⟩ }

theorem including_settles : ∃ outputs t outputs' again, (includingTree false).WellFormed ∧
    (∀ definition, readDefinition ⟨"/work/definition.xml"⟩ (includingTree false) = .ok (some definition) →
      Repeatable elsewhere (includingTree false) ⟨"/work/definition.xml"⟩ definition) ∧
    (generate elsewhere (ProjectId.nth 1) ⟨"/work/definition.xml"⟩).exec ⟨includingTree false, 0⟩ =
      (.ok outputs, t) ∧
    (generate elsewhere (ProjectId.nth 2) ⟨"/work/definition.xml"⟩).exec ⟨t.tree, 0⟩ =
      (.ok outputs', again) ∧
    t.tree.Alike (IdPair (ProjectId.nth 1) (ProjectId.nth 2) t.issued) again.tree := by
  obtain ⟨definition, hread, hsolutions⟩ := read_includingDefinition false
  have hw : (includingTree false).WellFormed := by decide +kernel
  have hwritable : IncludesWritable elsewhere (includingTree false).workingFolder (includingTree false)
      includingSolution := by
    unfold IncludesWritable filesBelow
    rw [below_eq_insertionSort]
    decide +kernel
  have hr : ∀ found, readDefinition ⟨"/work/definition.xml"⟩ (includingTree false) = .ok (some found) →
      Repeatable elsewhere (includingTree false) ⟨"/work/definition.xml"⟩ found := by
    intro found hf
    obtain rfl : found = definition := by
      rw [hread] at hf
      cases hf
      rfl
    refine ⟨?_, ?_, ?_, by decide +kernel⟩
    · rw [hsolutions]
      decide
    · rw [hsolutions, List.forall_mem_singleton]
      exact ⟨by decide +kernel, by decide +kernel, by decide +kernel⟩
    · rw [hsolutions, List.forall_mem_singleton]
      exact hwritable
  have hok : ((generate elsewhere (ProjectId.nth 1) ⟨"/work/definition.xml"⟩).exec
      ⟨includingTree false, 0⟩).1.isOk = true := by
    rw [exec_generate, hread]
    dsimp only
    rw [hsolutions]
    unfold generateSolution generateProjects generateProject copyIncludes copyInclude takeProject
      Project.assemble Project.listFolders Project.addInclude foldersBelow
    rw [below_eq_insertionSort]
    decide +kernel
  obtain ⟨outputs, hrun⟩ := exists_of_isOk hok
  generalize ((generate elsewhere (ProjectId.nth 1) ⟨"/work/definition.xml"⟩).exec
    ⟨includingTree false, 0⟩).2 = t at hrun
  obtain ⟨outputs', again, -, hagain, -, -, halike, -⟩ := regeneration_settles hw hr
    (plain_idPair (ProjectId.escape_nth 1) (ProjectId.escape_nth 2)) hrun
  exact ⟨outputs, t, outputs', again, hw, hr, hrun, hagain, halike⟩

theorem run_includingSolution :
    let run := fun settings tree =>
      ([includingSolution].mapM (generateSolution settings toString)).exec ⟨tree, 0⟩
    let first := run sampleSettings (includingTree false)
    let again := run sampleSettings first.2.tree
    let locked := run elsewhere (includingTree true)
    first.1.isOk = true ∧ again.1.isOk = true ∧
      first.2.tree.fileAt? ["work", "out", "Store", "Shop", "y.txt"] = none ∧
      again.2.tree.fileAt? ["work", "out", "Store", "Shop", "y.txt"] = some ("1".toUTF8 : File) ∧
      locked.1.isOk = true ∧
      (run elsewhere locked.2.tree).1 = .error (.unwritable ⟨"/work/new/Store/Shop/sub/y.txt"⟩) := by
  unfold generateSolution generateProjects generateProject copyIncludes copyInclude takeProject
    Project.assemble Project.listFolders Project.addInclude foldersBelow
  rw [below_eq_insertionSort]
  decide +kernel

/-- An include that leads into the folder of the project is not the same when the solution is
generated again: what the other include has brought there is copied as well. And a file that is
read-only can be copied once, but the copy cannot be written over. -/
theorem generating_again_grows_or_fails :
    (∃ definition outputs t outputs' again,
      readDefinition ⟨"/work/definition.xml"⟩ (includingTree false) = .ok (some definition) ∧
      (∀ decl ∈ definition.solutions, decl.HasSegmentNames) ∧ (includingTree false).WellFormed ∧
      (∀ place ∈ sampleSettings.outputFolder.target? (includingTree false).workingFolder,
        place.Apart ["work", "project"] ∧ place.Apart ["work", "definition.xml"]) ∧
      (generate sampleSettings toString ⟨"/work/definition.xml"⟩).exec ⟨includingTree false, 0⟩ =
        (.ok outputs, t) ∧
      (generate sampleSettings toString ⟨"/work/definition.xml"⟩).exec ⟨t.tree, 0⟩ =
        (.ok outputs', again) ∧
      t.tree.fileAt? ["work", "out", "Store", "Shop", "y.txt"] = none ∧
      again.tree.fileAt? ["work", "out", "Store", "Shop", "y.txt"] = some ("1".toUTF8 : File)) ∧
    ∃ definition outputs t again,
      readDefinition ⟨"/work/definition.xml"⟩ (includingTree true) = .ok (some definition) ∧
      (∀ decl ∈ definition.solutions, decl.HasSegmentNames) ∧ (includingTree true).WellFormed ∧
      (∀ place ∈ elsewhere.outputFolder.target? (includingTree true).workingFolder,
        place.Apart ["work", "project"] ∧ place.Apart ["work", "definition.xml"]) ∧
      (generate elsewhere toString ⟨"/work/definition.xml"⟩).exec ⟨includingTree true, 0⟩ =
        (.ok outputs, t) ∧
      (generate elsewhere toString ⟨"/work/definition.xml"⟩).exec ⟨t.tree, 0⟩ =
        (.error (.unwritable ⟨"/work/new/Store/Shop/sub/y.txt"⟩), again) := by
  obtain ⟨hfirst, hagain, hnone, hsome, hlocked, hfails⟩ := run_includingSolution
  have hnames : ∀ definition : Definition, definition.solutions = [includingSolution] →
      ∀ decl ∈ definition.solutions, decl.HasSegmentNames := by
    intro definition hsolutions
    rw [hsolutions]
    decide
  constructor
  · obtain ⟨definition, hread, hsolutions⟩ := read_includingDefinition false
    have hn := hnames definition hsolutions
    have hw : (includingTree false).WellFormed := by decide
    rw [← hsolutions] at hfirst hagain hnone hsome
    obtain ⟨outputs, hfirst⟩ := exists_of_isOk hfirst
    obtain ⟨outputs', hagain⟩ := exists_of_isOk hagain
    obtain ⟨hrun, hrepeat⟩ := exec_generate_again hread hn hw (by decide) hfirst
    exact ⟨definition, outputs, _, outputs', _, hread, hn, hw, by decide, hrun,
      hrepeat.trans hagain, hnone, hsome⟩
  · obtain ⟨definition, hread, hsolutions⟩ := read_includingDefinition true
    have hn := hnames definition hsolutions
    have hw : (includingTree true).WellFormed := by decide
    rw [← hsolutions] at hlocked hfails
    obtain ⟨outputs, hlocked⟩ := exists_of_isOk hlocked
    obtain ⟨hrun, hrepeat⟩ := exec_generate_again hread hn hw (by decide) hlocked
    exact ⟨definition, outputs, _, _, hread, hn, hw, by decide, hrun,
      hrepeat.trans (Prod.ext hfails rfl)⟩

end Generate

end DatabaseProject
