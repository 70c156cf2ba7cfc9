import DatabaseProject.Proofs.Beside

/-!
# What a run takes over

A run of solutions that succeeds has found all includes and package files, and nothing is lost in it.
When no path leads upwards, and the output folder is apart from the folders of the project and of the
packages, what has been found was there before the run and is as it has been.
-/

namespace DatabaseProject

open FileTree Outcome

namespace Generate

open Run

variable {settings : Settings} {ids : Nat → String} {here place base : Location} {folder : Path}
  {db : Database} {decl : SolutionDecl} {decls : List SolutionDecl} {initial old new tree : FileTree}
  {s t : RunState} {output : SolutionOutput} {outputs : List SolutionOutput}

/-- All that a database takes over is there. -/
structure TakenOver (settings : Settings) (tree : FileTree) (db : Database) : Prop where
  includes : ∀ path ∈ db.includes, (Project.includeFolder settings tree path).isOk = true
  packages : ∀ name ∈ dacpacs db, (tree.read? (dacpacSource settings name)).isSome = true

theorem includeFolder_isOk_of_covered {path : String} (hc : old.CoveredBy new)
    (h : (Project.includeFolder settings old path).isOk = true) :
    (Project.includeFolder settings new path).isOk = true := by
  cases hf : Project.includeFolder settings old path with
  | error e =>
    rw [hf] at h
    cases h
  | ok found =>
    obtain ⟨hresolve, hlocate, hfolder⟩ := Project.includeFolder_eq_ok.1 hf
    rw [Project.includeFolder_eq_ok.2 ⟨hresolve, hc.locate? hlocate, hc.folder hfolder⟩]
    rfl

theorem read?_isSome_of_covered {path : Path} (hc : old.CoveredBy new) (h : (old.read? path).isSome = true) :
    (new.read? path).isSome = true := by
  obtain ⟨content, hread⟩ := Option.isSome_iff_exists.1 h
  obtain ⟨_, later, -, -, -, hread'⟩ := hc.read? hread
  rw [hread']
  rfl

theorem TakenOver.of_covered (h : TakenOver settings old db) (hc : old.CoveredBy new) :
    TakenOver settings new db :=
  ⟨fun path hp => includeFolder_isOk_of_covered hc (h.includes path hp),
    fun name hn => read?_isSome_of_covered hc (h.packages name hn)⟩

theorem isOk_of_listFolders {folders : List String} (h : Project.listFolders settings tree db = .ok folders) :
    ∀ path ∈ db.includes, (Project.includeFolder settings tree path).isOk = true := by
  unfold Project.listFolders at h
  generalize Project.scriptFolders db = listed at h
  generalize db.includes = paths at h
  induction paths generalizing listed with
  | nil => simp
  | cons path paths ih =>
    rw [List.foldlM_cons, bind_eq_ok] at h
    obtain ⟨added, ha, hrest⟩ := h
    obtain ⟨found, hf, -⟩ := bind_eq_ok.1 ha
    refine List.forall_mem_cons.2 ⟨?_, ih added hrest⟩
    rw [hf]
    rfl

theorem read?_of_copyDacpac {name : String} (h : copyDacpac settings folder db name old = .ok new) :
    (old.read? (dacpacSource settings name)).isSome = true := by
  obtain ⟨content, hread, -⟩ := copyDacpac_stores h
  rw [hread]
  rfl

/-- Behind the loop over the package files of a database each of them is there. -/
theorem packages_of_copyDacpacs (h : (copyDacpacs settings folder db).exec s = (.ok (), t)) :
    ∀ name ∈ dacpacs db, (t.tree.read? (dacpacSource settings name)).isSome = true := by
  have hcovered : ∀ name s t, (Run.onTree (copyDacpac settings folder db name)).exec s = (.ok (), t) →
      s.tree.CoveredBy t.tree := fun name s t h =>
    ((advances_copyDacpac (keeps_ending t)).of_exec h (.refl t)).covered
  refine forM_establishes (fun _ => True)
    (fun name tree => (tree.read? (dacpacSource settings name)).isSome = true) ?_ ?_ trivial h
  · intro name _ s t _ hstep
    exact ⟨trivial, read?_isSome_of_covered (hcovered name s t hstep)
      (read?_of_copyDacpac (exec_onTree_eq_ok.1 hstep).1)⟩
  · intro _ _ other _ s t _ hstep hread
    exact read?_isSome_of_covered (hcovered other s t hstep) hread

/-- A generated project has found what it takes over, and nothing is lost. -/
theorem takenOver_generateProject {previous : List Project} {made : Project × Nat}
    (h : (generateProject settings ids folder previous db).exec s = (.ok made, t)) :
    TakenOver settings t.tree db := by
  have hwhole := ((advances_generateProject (keeps_ending t)).of_exec h (.refl t)).covered
  rw [generateProject_eq] at h
  obtain ⟨project, taken, htake, hfinish⟩ := exec_bind_eq_ok.1 h
  obtain ⟨hassemble, rfl⟩ := exec_takeProject_eq_ok.1 htake
  have hincludes := isOk_of_listFolders (Project.listFolders_of_assemble hassemble)
  refine ⟨fun path hp => includeFolder_isOk_of_covered hwhole (hincludes path hp), fun name hn => ?_⟩
  obtain ⟨_, _, -, h⟩ := exec_bind_eq_ok.1 hfinish
  obtain ⟨_, _, -, h⟩ := exec_bind_eq_ok.1 h
  obtain ⟨_, _, -, h⟩ := exec_bind_eq_ok.1 h
  obtain ⟨_, packaged, hpackages, h⟩ := exec_bind_eq_ok.1 h
  obtain ⟨scripts, _, hscripts, h⟩ := exec_bind_eq_ok.1 h
  obtain ⟨_, _, hwritten, hlast⟩ := exec_bind_eq_ok.1 h
  cases hlast
  rw [exec_liftM, Prod.mk.injEq] at hscripts
  obtain ⟨-, rfl⟩ := hscripts
  have hcovered := ((advances_forM fun _ _ => advances_write).of_exec hwritten (.refl t)).covered
  exact read?_isSome_of_covered hcovered (packages_of_copyDacpacs hpackages name hn)

theorem takenOver_generateProjects {dbs : List Database} {before after : List Project × Nat}
    (h : (generateProjects settings ids folder before dbs).exec s = (.ok after, t)) :
    s.tree.KeptBy t.tree ∧ ∀ db ∈ dbs, TakenOver settings t.tree db := by
  induction dbs generalizing before s with
  | nil =>
    cases h
    exact ⟨.refl _, by simp⟩
  | cons db dbs ih =>
    unfold generateProjects at h
    rw [List.foldlM_cons] at h
    obtain ⟨next, middle, hfirst, hrest⟩ := exec_bind_eq_ok.1 h
    obtain ⟨made, _, hmade, hnext⟩ := exec_bind_eq_ok.1 hfirst
    cases hnext
    obtain ⟨hkept, hothers⟩ := ih hrest
    have hstep := ((advances_generateProject (keeps_ending middle)).of_exec hmade (.refl middle)).keptBy
    exact ⟨hstep.trans hkept, List.forall_mem_cons.2
      ⟨(takenOver_generateProject hmade).of_covered hkept.toCoveredBy, hothers⟩⟩

/-- After a solution has been generated, everything that it takes over is there. -/
theorem sourcesThere_generateSolution
    (h : (generateSolution settings ids decl).exec s = (.ok output, t)) :
    s.tree.KeptBy t.tree ∧ SourcesThere settings t.tree decl := by
  obtain ⟨-, projects, middle, hprojects, hconclude⟩ := exec_generateSolution_eq_ok.1 h
  obtain ⟨hbefore, hall⟩ := takenOver_generateProjects hprojects
  have hafter := advances_concludeSolution.of_exec hconclude (.refl t)
  exact ⟨hbefore.trans hafter.keptBy, fun db hdb => ((hall db hdb).of_covered hafter.covered).includes,
    fun db hdb => ((hall db hdb).of_covered hafter.covered).packages⟩

theorem sourcesThere_mapM (h : (decls.mapM (generateSolution settings ids)).exec s = (.ok outputs, t)) :
    s.tree.KeptBy t.tree ∧ ∀ decl ∈ decls, SourcesThere settings t.tree decl := by
  induction decls generalizing s outputs with
  | nil =>
    cases h
    exact ⟨.refl _, by simp⟩
  | cons decl decls ih =>
    rw [List.mapM_cons] at h
    obtain ⟨output, middle, hfirst, h⟩ := exec_bind_eq_ok.1 h
    obtain ⟨rest, _, hrest, hlast⟩ := exec_bind_eq_ok.1 h
    cases hlast
    obtain ⟨hkept, hothers⟩ := ih hrest
    have hcovered := hkept.toCoveredBy
    obtain ⟨hfirst, hthere⟩ := sourcesThere_generateSolution hfirst
    refine ⟨hfirst.trans hkept, List.forall_mem_cons.2 ⟨⟨?_, ?_⟩, hothers⟩⟩
    · exact fun db hdb path hp => includeFolder_isOk_of_covered hcovered (hthere.includes db hdb path hp)
    · exact fun db hdb name hn => read?_isSome_of_covered hcovered (hthere.packages db hdb name hn)

/-- What is below a folder that has been there, and that a run does not change, has been there as well
when it is there after the run. -/
theorem locate?_of_reached {root : Path} {pieces : List String} {last : Location}
    (hr : Reached here settings.outputFolder initial tree) (hf : initial.HasFolder root place)
    (happart : ∀ rest, ¬ (Footprint.below here settings.outputFolder).made (place ++ rest))
    (hsep : ∀ piece ∈ pieces, '/' ∉ piece.toList) (hup : ".." ∉ pieces)
    (hl : tree.locate? (root.joinAll pieces) = some last) :
    initial.locate? (root.joinAll pieces) = some last ∧ initial.get? last = tree.get? last := by
  have hhere : initial.workingFolder = here := hr.changed.workingFolder_eq.symm.trans hr.workingFolder_eq
  have hsame : ∀ x, place <+: x → initial.get? x = tree.get? x := by
    rintro x ⟨rest, rfl⟩
    exact (hr.changed.get?_outside (happart rest)).symm
  have htarget := hf.target_eq
  rw [hhere, ← hr.workingFolder_eq] at htarget
  refine ⟨locate?_mono hl (hhere.trans hr.workingFolder_eq.symm) fun x hx hfolder => ?_, hsame last ?_⟩
  · rcases (Path.mem_way_joinAll hsep htarget).1 hx with hx | hx
    · refine hf.folders x ?_
      rwa [hhere, ← hr.workingFolder_eq]
    · rw [hsame x (start_prefix_of_mem_route hup hx)]
      exact hfolder
  · obtain ⟨start, hstart, hprefix⟩ := Path.target?_joinAll_inside hsep hup (target?_of_locate? hl)
    rwa [Option.some.inj (htarget.symm.trans hstart)]

/-- A place apart from the output folder is not touched, nor is what is below it. -/
theorem not_made_of_apart (hbase : settings.outputFolder.target? here = some base)
    (hout : ".." ∉ settings.outputFolder.parts) (happart : base.Apart place) (rest : List String) :
    ¬ (Footprint.below here settings.outputFolder).made (place ++ rest) := by
  rintro (hx | ⟨other, more, hother, he⟩)
  · exact happart.2 ((List.prefix_append _ _).trans (prefix_of_mem_route hout hbase hx))
  · obtain rfl := Option.some.inj (hbase.symm.trans hother)
    have hall := (happart.append more rest).1
    rw [he] at hall
    exact hall List.prefix_rfl

/-- The folders of the project and of the packages are there, apart from the output folder, and no path
leads upwards. -/
structure FoldersDisjoint (settings : Settings) (tree : FileTree) (decl : SolutionDecl) (base : Location) :
    Prop where
  target_eq : settings.outputFolder.target? tree.workingFolder = some base
  output : ".." ∉ settings.outputFolder.parts
  includes : ∀ db ∈ projectDatabases decl, ∀ path ∈ db.includes, ".." ∉ Include.segments path
  dacpacs : ∀ db ∈ projectDatabases decl, ∀ name ∈ dacpacs db, ".." ∉ Include.segments name
  project : ∃ place, tree.HasFolder settings.projectFolder place ∧ base.Apart place
  packages : ∀ package folder, settings.packages.get? package = some folder →
    ∃ place, tree.HasFolder folder place ∧ base.Apart place

theorem FoldersDisjoint.sourcesApart (h : FoldersDisjoint settings tree decl base) :
    SourcesApart settings tree.workingFolder decl := by
  refine sourcesApart_of_disjoint h.target_eq h.output h.includes h.dacpacs ?_ ?_
  · obtain ⟨place, hf, happart⟩ := h.project
    intro other hother
    rwa [← Option.some.inj (hf.target_eq.symm.trans hother)]
  · intro package folder hfolder other hother
    obtain ⟨place, hf, happart⟩ := h.packages package folder hfolder
    rwa [← Option.some.inj (hf.target_eq.symm.trans hother)]

/-- What a run has found it would have found before, when no path leads upwards. -/
theorem FoldersDisjoint.sourcesThere (h : FoldersDisjoint settings initial decl base)
    (hr : Reached initial.workingFolder settings.outputFolder initial tree)
    (hthere : SourcesThere settings tree decl) : SourcesThere settings initial decl where
  includes db hdb path hp := by
    have hok := hthere.includes db hdb path hp
    cases hf : Project.includeFolder settings tree path with
    | error e =>
      rw [hf] at hok
      cases hok
    | ok found =>
      obtain ⟨source, location⟩ := found
      obtain ⟨hresolve, hlocate, hfolder⟩ := Project.includeFolder_eq_ok.1 hf
      obtain ⟨root, pieces, hroot, hpieces, rfl⟩ := Include.resolve_eq_ok hresolve
      obtain ⟨place, hplace, happart⟩ : ∃ place, initial.HasFolder root place ∧ base.Apart place := by
        rcases hroot with rfl | ⟨package, hpackage⟩
        · exact h.project
        · exact h.packages package root hpackage
      obtain ⟨hl, hg⟩ := locate?_of_reached hr hplace (not_made_of_apart h.target_eq h.output happart)
        (fun piece hm => Include.no_separator_of_mem_segments (hpieces piece hm))
        (fun hm => h.includes db hdb path hp (hpieces _ hm)) hlocate
      rw [Project.includeFolder_eq_ok.2 ⟨hresolve, hl, hg.trans hfolder⟩]
      rfl
  packages db hdb name hn := by
    obtain ⟨content, hread⟩ := Option.isSome_iff_exists.1 (hthere.packages db hdb name hn)
    obtain ⟨source, hlocate, hget⟩ := read?_eq_some.1 hread
    obtain ⟨place, hplace, happart⟩ := h.project
    obtain ⟨hl, hg⟩ := locate?_of_reached hr hplace (not_made_of_apart h.target_eq h.output happart)
      (fun piece => Include.no_separator_of_mem_segments) (h.dacpacs db hdb name hn) hlocate
    exact Option.isSome_iff_exists.2 ⟨content, read?_eq_some.2 ⟨source, hl, hg.trans hget⟩⟩

end Generate

end DatabaseProject
