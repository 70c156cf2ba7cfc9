import DatabaseProject.Proofs.TakenOver
import DatabaseProject.Proofs.Turns

/-!
# Solutions do not depend on each other

A run goes on from solution to solution in one tree, but of what the earlier ones have left there a
solution sees nothing: its folder is as it has been, and so is all that it takes over from
elsewhere. So the solutions of a definition can be generated in any order, or only some of them, and
each comes out as it does alone, up to the ids.
-/

namespace DatabaseProject

open FileTree Outcome

namespace Generate

open Run

variable {settings : Settings} {ids others : Nat → String} {here : Location} {out : Path}
  {decl : SolutionDecl} {decls decls' done more : List SolutionDecl} {initial old new tree : FileTree}
  {s s' t : RunState} {output : SolutionOutput} {outputs : List SolutionOutput}

theorem OwnPlace.name_eq {name other : String} {x : Location} (h : OwnPlace here out name x)
    (h' : OwnPlace here out other x) : name = other := by
  obtain ⟨-, base, rest, hb, rfl⟩ := h
  obtain ⟨-, base', rest', hb', he⟩ := h'
  obtain rfl := Option.some.inj (hb.symm.trans hb')
  exact (List.cons.inj (List.append_cancel_left he)).1

/-- A solution leaves the places of others alone. -/
theorem others_generateSolution (hn : decl.HasSegmentNames) (hr : Rooted here s.tree)
    (h : (generateSolution settings ids decl).exec s = (.ok output, t)) {x : Location}
    (hx : x ∉ settings.outputFolder.way here) (hown : ¬ OwnPlace here settings.outputFolder decl.name x) :
    t.tree.get? x = s.tree.get? x := by
  refine ((within_ownFolder hn).of_exec hr h).2.get?_outside ?_
  rintro (hway | ⟨place, rest, ht, rfl⟩)
  · rcases Path.mem_way_of_join hn.name hway with hway | ⟨base, hb, rfl⟩
    · exact hx hway
    · exact hown ⟨hx, base, [], hb, rfl⟩
  · obtain ⟨base, hb, -, rfl⟩ := hn.name.target?_join.1 ht
    exact hown ⟨hx, base, rest, hb, by simp⟩

/-- With a project there are folders on the way to the output folder when a solution is finished; without
one nothing happens. -/
theorem way_generateSolution (hn : decl.HasSegmentNames) (hr : Rooted here s.tree)
    (h : (generateSolution settings ids decl).exec s = (.ok output, t)) {x : Location}
    (hx : x ∈ settings.outputFolder.way here) :
    t.tree.get? x = if (projectDatabases decl).isEmpty then s.tree.get? x else some .folder := by
  obtain ⟨hok, -⟩ := exec_generateSolution_eq_ok.1 h
  obtain ⟨hnone, rfl⟩ | ⟨hsome, done, middle, content, hprojects, -, hwrite⟩ := generateSolution_cases h
  · rw [hnone]
    rfl
  · have hmiddle : Rooted here middle.tree :=
      ((within_generateProjects_all fun db => hasSegmentNames_of_mem hn hok).of_exec hr hprojects).1
    have hsegment : Path.IsSegment (decl.name ++ ".sln") :=
      .of_ending hn.name.no_separator (by decide) (by decide)
    obtain ⟨way, place, hp, hplaced⟩ := write_eq_ok hmiddle.home hwrite
    obtain ⟨folder, hfolder, -⟩ := hplaced.hasFolder (hsegment.leadsTo _) hp
    have hafter : t.tree.workingFolder = here := hplaced.workingFolder_eq.trans hmiddle.workingFolder_eq
    have htarget := hfolder.target_eq
    rw [hafter] at htarget
    obtain ⟨base, hb, -, -⟩ := hn.name.target?_join.1 htarget
    rw [if_neg fun he => hsome (List.isEmpty_iff.1 he)]
    apply hfolder.folders
    rw [hafter]
    exact (Path.mem_way_join hn.name.isAbsolute_eq hb).2 (.inl hx)

/-- What a tree has come to when solutions have been generated in it. -/
structure Progress (settings : Settings) (here : Location) (initial : FileTree)
    (done : List SolutionDecl) (tree : FileTree) : Prop
    extends Reached here settings.outputFolder initial tree where
  others : ∀ x ∉ settings.outputFolder.way here,
    (∀ decl ∈ done, ¬ OwnPlace here settings.outputFolder decl.name x) → tree.get? x = initial.get? x
  way : ∀ x ∈ settings.outputFolder.way here, tree.get? x =
    if done.all fun decl => (projectDatabases decl).isEmpty then initial.get? x else some .folder

namespace Progress

theorem start (h : Rooted here tree) : Progress settings here tree [] tree :=
  ⟨⟨h, .refl tree⟩, fun _ _ _ => rfl, fun _ _ => rfl⟩

theorem trans (h : Progress settings here initial done old) (h' : Progress settings here old more new) :
    Progress settings here initial (done ++ more) new where
  toReached := h.toReached.trans ⟨h'.toRooted, h'.changed⟩
  others x hx hown := by
    simp only [List.mem_append, or_imp, forall_and] at hown
    rw [h'.others x hx hown.2, h.others x hx hown.1]
  way x hx := by
    rw [h'.way x hx, h.way x hx, List.all_append]
    cases done.all fun decl => (projectDatabases decl).isEmpty <;>
      cases more.all fun decl => (projectDatabases decl).isEmpty <;> rfl

/-- The place of a solution that is not among them is as it was. -/
theorem own (h : Progress settings here initial done tree)
    (hother : ∀ other ∈ done, other.name ≠ decl.name) {x : Location}
    (hx : OwnPlace here settings.outputFolder decl.name x) : tree.get? x = initial.get? x :=
  h.others x hx.1 fun other ho hx' => hother other ho (OwnPlace.name_eq hx' hx)

end Progress

theorem progress_generateSolution (hn : decl.HasSegmentNames) (hr : Rooted here s.tree)
    (h : (generateSolution settings ids decl).exec s = (.ok output, t)) :
    Progress settings here s.tree [decl] t.tree where
  toReached := (Progress.start hr).toReached.trans ((within_generateSolution hn).of_exec hr h)
  others x hx hown := others_generateSolution hn hr h hx (hown decl (List.mem_singleton.2 rfl))
  way x hx := by
    rw [way_generateSolution hn hr h hx, List.all_cons, List.all_nil, Bool.and_true]

theorem progress_mapM (hn : ∀ decl ∈ decls, decl.HasSegmentNames) (hr : Rooted here s.tree)
    (h : (decls.mapM (generateSolution settings ids)).exec s = (.ok outputs, t)) :
    Progress settings here s.tree decls t.tree ∧ t.issued = s.issued + turns decls := by
  induction decls generalizing s outputs with
  | nil =>
    cases h
    exact ⟨.start hr, rfl⟩
  | cons decl decls ih =>
    rw [List.forall_mem_cons] at hn
    rw [List.mapM_cons, exec_bind_eq_ok] at h
    obtain ⟨output, middle, hfirst, h⟩ := h
    obtain ⟨rest, last, hrest, hlast⟩ := exec_bind_eq_ok.1 h
    cases hlast
    have hprogress := progress_generateSolution hn.1 hr hfirst
    obtain ⟨hmore, hissued⟩ := ih hn.2 hprogress.toRooted hrest
    refine ⟨hprogress.trans hmore, ?_⟩
    rw [hissued, issued_generateSolution hfirst, turns, Nat.add_assoc]

theorem name_generateSolution (h : (generateSolution settings ids decl).exec s = (.ok output, t)) :
    output.name = decl.name := by
  obtain ⟨-, done, middle, -, hconclude⟩ := exec_generateSolution_eq_ok.1 h
  unfold concludeSolution at hconclude
  split at hconclude
  · cases hconclude
    rfl
  · obtain ⟨path, last, -, hlast⟩ := exec_bind_eq_ok.1 hconclude
    cases hlast
    rfl

/-- A run of solutions has generated one of them in its turn. Up to then the places of the solution
are as at the start, and from then on they are as in the end. -/
structure InTurn (settings : Settings) (ids : Nat → String) (here : Location) (decls : List SolutionDecl)
    (initial final : FileTree) (decl : SolutionDecl) (output : SolutionOutput) (a b : RunState) : Prop where
  run : (generateSolution settings ids decl).exec a = (.ok output, b)
  issued_eq : a.issued = firstTurn decls decl.name
  reached : Reached here settings.outputFolder initial a.tree
  before : ∀ x, OwnPlace here settings.outputFolder decl.name x → a.tree.get? x = initial.get? x
  kept : b.tree.KeptBy final
  after : ∀ x, OwnPlace here settings.outputFolder decl.name x → final.get? x = b.tree.get? x

theorem exists_inTurn (hn : ∀ decl ∈ decls, decl.HasSegmentNames) (hd : (decls.map (·.name)).Nodup)
    (hr : Rooted here tree)
    (h : (decls.mapM (generateSolution settings ids)).exec ⟨tree, 0⟩ = (.ok outputs, t))
    (hm : decl ∈ decls) : ∃ output ∈ outputs, output.name = decl.name ∧
      ∃ a b, InTurn settings ids here decls tree t.tree decl output a b := by
  obtain ⟨before, after, rfl⟩ := List.append_of_mem hm
  simp only [List.forall_mem_append, List.forall_mem_cons] at hn
  obtain ⟨hbefore, hdecl, hafter⟩ := hn
  rw [List.map_append, List.map_cons, List.nodup_middle, List.nodup_cons] at hd
  simp only [List.mem_append, List.mem_map, not_or, not_exists, not_and] at hd
  rw [List.mapM_append] at h
  obtain ⟨first, a, hfirst, h⟩ := exec_bind_eq_ok.1 h
  obtain ⟨later, _, hlater, hlast⟩ := exec_bind_eq_ok.1 h
  cases hlast
  rw [List.mapM_cons] at hlater
  obtain ⟨output, b, hrun, hlater⟩ := exec_bind_eq_ok.1 hlater
  obtain ⟨rest, _, hrest, hlast⟩ := exec_bind_eq_ok.1 hlater
  cases hlast
  obtain ⟨hprogress, hissued⟩ := progress_mapM hbefore hr hfirst
  have hstep := progress_generateSolution hdecl hprogress.toRooted hrun
  obtain ⟨hmore, -⟩ := progress_mapM hafter hstep.toRooted hrest
  refine ⟨output, by simp, name_generateSolution hrun, a, b, hrun, ?_, hprogress.toReached,
    fun x hx => hprogress.own hd.1.1 hx, (sourcesThere_mapM hrest).1, fun x hx => hmore.own hd.1.2 hx⟩
  rw [hissued, firstTurn_append hd.1.1]
  exact Nat.zero_add _

/-- Another run is on its way: what it has generated is as the first run has left it in the end, up to
ids, and all else is as at the start. -/
structure Midway (settings : Settings) (here : Location) (Pair : String → String → Prop)
    (initial final : FileTree) (done : List SolutionDecl) (s : RunState) : Prop
    extends Progress settings here initial done s.tree where
  issued_eq : s.issued = turns done
  covered : s.tree.CoveredBy final
  alike : ∀ decl ∈ done, ∀ x, OwnPlace here settings.outputFolder decl.name x →
    Option.Rel (FileEntry.Alike Pair) (final.get? x) (s.tree.get? x)

variable {Pair : String → String → Prop} {final : FileTree} {a b : RunState}

/-- What the first run has generated in its turn, the other one generates when it comes to it. -/
theorem Midway.next (h : Midway settings here Pair initial final done s')
    (hturn : InTurn settings ids here decls initial final decl output a b) (hn : decl.HasSegmentNames)
    (hapart : SourcesApart settings here decl) (hthere : SourcesThere settings initial decl)
    (hdone : ∀ other ∈ done, other.name ≠ decl.name) (hp : Plain Pair)
    (hpair : ∀ id other, IdPair (fun turn => ids (a.issued + turn)) (fun turn => others (s'.issued + turn))
      (idsTaken decl) id other → Pair id other) :
    ∃ output' t', (generateSolution settings others decl).exec s' = (.ok output', t') ∧
      output.Alike Pair output' ∧ Midway settings here Pair initial final (done ++ [decl]) t' := by
  have hstep := progress_generateSolution hn hturn.reached.toRooted hturn.run
  -- neither run has come to the solution yet, so in both trees its places are as at the start
  have hbeside : Beside here settings.outputFolder decl.name
      (IdPair (fun turn => ids (a.issued + turn)) (fun turn => others (s'.issued + turn)) (idsTaken decl))
      initial ⟨final, idsTaken decl⟩ ⟨a.tree, 0⟩ ⟨s'.tree, 0⟩ ⟨s'.tree, 0⟩ := by
    refine ⟨rfl, hturn.reached, h.toReached, rfl, hstep.changed.covered.trans hturn.kept.toCoveredBy,
      h.covered, fun x hx => ?_⟩
    dsimp only
    rw [hturn.before x hx, h.own hdone hx]
    exact (FileTree.Alike.refl initial).entries x
  have hfinal : (RunState.mk b.tree (idsTaken decl)).Leads (RunState.mk final (idsTaken decl)) :=
    ⟨le_rfl, hturn.kept, fun _ _ h => h.elim⟩
  have hplain : Plain (IdPair (fun turn => ids (a.issued + turn)) (fun turn => others (s'.issued + turn))
      (RunState.mk final (idsTaken decl)).issued) := fun id other hid => hp id other (hpair id other hid)
  obtain ⟨output', t', hrun, halike, hafter⟩ := generateSolution_beside hn hapart hthere hplain hbeside
    (generateSolution_at_start hturn.run) hfinal
  have hlater := generateSolution_later hrun
  refine ⟨output', _, hlater, halike.mono hpair,
    h.toProgress.trans (progress_generateSolution hn h.toRooted hlater), ?_, hafter.second_covered, ?_⟩
  · have hissued : t'.issued = idsTaken decl := hafter.issued_eq
    dsimp only
    rw [h.issued_eq, hissued, turns_append]
    rfl
  · intro other hother x hx
    dsimp only
    rcases List.mem_append.1 hother with hother | hother
    -- the solutions before are not touched by this one
    · rw [others_generateSolution hn h.toRooted hlater hx.1
        fun hown => hdone other hother (OwnPlace.name_eq hx hown)]
      exact h.alike other hother x hx
    · obtain rfl := List.mem_singleton.1 hother
      rw [hturn.after x hx]
      exact optionRel_imp (hafter.alike x hx) fun _ _ hentry => hentry.mono hpair

/-- What the solutions of a definition need so that they do not depend on each other. Their names are
segments, no two of them the same; and all that they take over is there, and is not changed by a run. -/
structure Separate (settings : Settings) (tree : FileTree) (decls : List SolutionDecl) : Prop where
  names : ∀ decl ∈ decls, decl.HasSegmentNames
  distinct : (decls.map (·.name)).Nodup
  apart : ∀ decl ∈ decls, SourcesApart settings tree.workingFolder decl
  there : ∀ decl ∈ decls, SourcesThere settings tree decl

/-- Where no path leads upwards and the folders are disjoint, nothing has to be asked of what the solutions
take over: that they can be generated shows that it has been there. -/
theorem separate_of_disjoint {base : Location} (hw : tree.WellFormed)
    (hn : ∀ decl ∈ decls, decl.HasSegmentNames) (hd : (decls.map (·.name)).Nodup)
    (hdisjoint : ∀ decl ∈ decls, FoldersDisjoint settings tree decl base)
    (h : (decls.mapM (generateSolution settings ids)).exec ⟨tree, 0⟩ = (.ok outputs, t)) :
    Separate settings tree decls where
  names := hn
  distinct := hd
  apart decl hm := (hdisjoint decl hm).sourcesApart
  there decl hm := (hdisjoint decl hm).sourcesThere (progress_mapM hn ⟨hw, rfl⟩ h).1.toReached
    ((sourcesThere_mapM h).2 decl hm)

/-- The other run goes on to its end, solution by solution. -/
theorem Midway.run (hsep : Separate settings tree decls) (hw : tree.WellFormed)
    (hp : Plain (TurnPair ids others decls decls'))
    (h : (decls.mapM (generateSolution settings ids)).exec ⟨tree, 0⟩ = (.ok outputs, t))
    (hsub : decls' ⊆ decls) (hd : (decls'.map (·.name)).Nodup) (hdecls : decls' = done ++ more)
    (hmid : Midway settings tree.workingFolder (TurnPair ids others decls decls') tree t.tree done s') :
    ∃ outputs' t', (more.mapM (generateSolution settings others)).exec s' = (.ok outputs', t') ∧
      List.Forall₂ (fun decl output' => ∃ output ∈ outputs, output.name = decl.name ∧
        output.Alike (TurnPair ids others decls decls') output') more outputs' ∧
      Midway settings tree.workingFolder (TurnPair ids others decls decls') tree t.tree decls' t' := by
  -- on what is still to be generated; wherever the first run had it, it has had its turn there
  induction more generalizing done s' with
  | nil =>
    rw [List.append_nil] at hdecls
    exact ⟨[], s', rfl, .nil, hdecls ▸ hmid⟩
  | cons decl more ih =>
    have hm' : decl ∈ decls' := by simp [hdecls]
    have hm := hsub hm'
    have hfresh : ∀ other ∈ done, other.name ≠ decl.name := by
      rw [hdecls, List.map_append, List.map_cons, List.nodup_middle, List.nodup_cons] at hd
      simp only [List.mem_append, List.mem_map, not_or, not_exists, not_and] at hd
      exact hd.1.1
    obtain ⟨output, ho, hname, a, b, hturn⟩ := exists_inTurn hsep.names hsep.distinct ⟨hw, rfl⟩ h hm
    obtain ⟨output', next, hrun, halike, hnext⟩ := hmid.next hturn (hsep.names decl hm)
      (hsep.apart decl hm) (hsep.there decl hm) hfresh hp fun id other hid => by
        rw [hturn.issued_eq, hmid.issued_eq, ← firstTurn_append hfresh, ← hdecls] at hid
        exact turnPair_of_idPair hm hm' hid
    rw [List.append_cons] at hdecls
    obtain ⟨outputs', t', hrest, hforall, hlast⟩ := ih hdecls hnext
    refine ⟨output' :: outputs', t', ?_, .cons ⟨output, ho, hname, halike⟩ hforall, hlast⟩
    rw [List.mapM_cons]
    exact exec_bind_eq_ok.2 ⟨output', next, hrun, exec_bind_eq_ok.2 ⟨outputs', t', hrest, rfl⟩⟩

/-- Two runs that have generated the same solutions leave the same tree, up to ids. -/
theorem Midway.alike_of_perm (hfirst : Progress settings here initial decls final)
    (h : Midway settings here Pair initial final decls' s') (hperm : decls'.Perm decls) :
    final.Alike Pair s'.tree := by
  refine ⟨h.workingFolder_eq.trans hfirst.workingFolder_eq.symm, fun x => ?_⟩
  have hsame (he : final.get? x = s'.tree.get? x) :
      Option.Rel (FileEntry.Alike Pair) (final.get? x) (s'.tree.get? x) := by
    rw [he]
    exact (FileTree.Alike.refl s'.tree).entries x
  by_cases hway : x ∈ settings.outputFolder.way here
  · apply hsame
    rw [hfirst.way x hway, h.way x hway, hperm.all_eq]
  · by_cases hown : ∃ decl ∈ decls', OwnPlace here settings.outputFolder decl.name x
    · obtain ⟨decl, hm, hx⟩ := hown
      exact h.alike decl hm x hx
    · simp only [not_exists, not_and] at hown
      apply hsame
      rw [hfirst.others x hway fun decl hm => hown decl (hperm.mem_iff.2 hm), h.others x hway hown]

theorem mapM_generateSolution_others (hsep : Separate settings tree decls) (hw : tree.WellFormed)
    (hp : Plain (TurnPair ids others decls decls')) (hsub : decls'.Subperm decls)
    (h : (decls.mapM (generateSolution settings ids)).exec ⟨tree, 0⟩ = (.ok outputs, t)) :
    ∃ outputs' t', (decls'.mapM (generateSolution settings others)).exec ⟨tree, 0⟩ = (.ok outputs', t') ∧
      List.Forall₂ (fun decl output' => ∃ output ∈ outputs, output.name = decl.name ∧
        output.Alike (TurnPair ids others decls decls') output') decls' outputs' ∧
      (decls'.Perm decls → t.tree.Alike (TurnPair ids others decls decls') t'.tree) ∧
      (Set.InjOn ids {turn | turn < t.issued} → Set.InjOn others {turn | turn < t'.issued} →
        Relator.BiUnique (TurnPair ids others decls decls')) := by
  obtain ⟨hprogress, hissued⟩ := progress_mapM hsep.names ⟨hw, rfl⟩ h
  have hdistinct : (decls'.map (·.name)).Nodup := by
    obtain ⟨kept, hperm, hkept⟩ := hsub
    exact (hperm.map _).nodup_iff.1 (hsep.distinct.sublist (hkept.map _))
  have hstart : Midway settings tree.workingFolder (TurnPair ids others decls decls') tree t.tree []
      ⟨tree, 0⟩ :=
    ⟨.start ⟨hw, rfl⟩, rfl, hprogress.changed.covered, by simp⟩
  obtain ⟨outputs', t', hrun, hforall, hlast⟩ :=
    hstart.run hsep hw hp h hsub.subset hdistinct (List.nil_append decls').symm
  refine ⟨outputs', t', hrun, hforall, hlast.alike_of_perm hprogress, fun hi ho => ?_⟩
  rw [hissued, Nat.zero_add] at hi
  rw [hlast.issued_eq] at ho
  exact biUnique_turnPair hsep.distinct hdistinct hi ho

/-- The solutions of a definition do not depend on each other. If they can be generated, so can any
selection of them in any order, in particular all of them in another order and each of them alone. What
comes of a solution is the same up to ids, even where solutions have databases of one name; and if none
is left out, so are the trees. -/
theorem solutions_are_independent {path : Path} {definition : Definition} (hw : tree.WellFormed)
    (hread : readDefinition path tree = .ok (some definition))
    (hsep : Separate settings tree definition.solutions)
    (h : (generate settings ids path).exec ⟨tree, 0⟩ = (.ok outputs, t)) :
    ∀ others path' definition', readDefinition path' tree = .ok (some definition') →
      definition'.solutions.Subperm definition.solutions →
      Plain (TurnPair ids others definition.solutions definition'.solutions) →
      ∃ outputs' t', (generate settings others path').exec ⟨tree, 0⟩ = (.ok outputs', t') ∧
        List.Forall₂ (fun decl output' => ∃ output ∈ outputs, output.name = decl.name ∧
          output.Alike (TurnPair ids others definition.solutions definition'.solutions) output')
          definition'.solutions outputs' ∧
        (definition'.solutions.Perm definition.solutions →
          t.tree.Alike (TurnPair ids others definition.solutions definition'.solutions) t'.tree) ∧
        (Set.InjOn ids {turn | turn < t.issued} → Set.InjOn others {turn | turn < t'.issued} →
          Relator.BiUnique (TurnPair ids others definition.solutions definition'.solutions)) := by
  intro others path' definition' hread' hsub hp
  rw [exec_generate, hread] at h
  obtain ⟨outputs', t', hrun, hafter⟩ := mapM_generateSolution_others hsep hw hp hsub h
  exact ⟨outputs', t', exec_generate_of_read hread' rfl hrun, hafter⟩

/-- A solution with one project. -/
def shopSolution (name : String) (includes : List String) : SolutionDecl :=
  ⟨name, [{ DatabaseDecl.named "Shop" with createProject := true, includes }]⟩

def firstText : String :=
  "<SqlProject Name=\"A\"><Databases><Database Name=\"Shop\" CreateProject=\"true\"/></Databases>" ++
    "</SqlProject>"

def secondText : String :=
  "<SqlProject Name=\"B\"><Databases><Database Name=\"Shop\" CreateProject=\"true\"><DatabaseIncludes>" ++
    "<Folder Path=\"../out/A\"/></DatabaseIncludes></Database></Databases></SqlProject>"

def inOrder : String := "<Sql>" ++ firstText ++ secondText ++ "</Sql>"

def otherOrder : String := "<Sql>" ++ secondText ++ firstText ++ "</Sql>"

theorem parse_orders :
    (((Xml.Document.root? inOrder).bind fun root =>
      (Definition.ofElement root).toOption.join.map (·.solutions)) =
        some [shopSolution "A" [], shopSolution "B" ["../out/A"]]) ∧
    (((Xml.Document.root? otherOrder).bind fun root =>
      (Definition.ofElement root).toOption.join.map (·.solutions)) =
        some [shopSolution "B" ["../out/A"], shopSolution "A" []]) := by
  constructor <;> decide +kernel

/-- Two definitions that differ in the order of their solutions, and what else there is. -/
def orderTree (others : List (Location × FileEntry)) : FileTree := .ofEntries ([
  (["work"], .folder),
  (["work", "definition.xml"], .file inOrder.toUTF8),
  (["work", "other.xml"], .file otherOrder.toUTF8),
  (["work", "project"], .folder)] ++ others)

/-- Whatever else there is, both definitions are read. -/
theorem read_orderTree {others : List (Location × FileEntry)}
    (hfirst : (orderTree others).locate? ⟨"/work/definition.xml"⟩ = some ["work", "definition.xml"] ∧
      (orderTree others).get? ["work", "definition.xml"] =
        some (.file inOrder.toUTF8))
    (hother : (orderTree others).locate? ⟨"/work/other.xml"⟩ = some ["work", "other.xml"] ∧
      (orderTree others).get? ["work", "other.xml"] =
        some (.file otherOrder.toUTF8)) :
    ∃ definition definition',
      readDefinition ⟨"/work/definition.xml"⟩ (orderTree others) = .ok (some definition) ∧
      readDefinition ⟨"/work/other.xml"⟩ (orderTree others) = .ok (some definition') ∧
      definition.solutions = [shopSolution "A" [], shopSolution "B" ["../out/A"]] ∧
      definition'.solutions = [shopSolution "B" ["../out/A"], shopSolution "A" []] := by
  obtain ⟨definition, hread, hsolutions⟩ := exists_definition_of_text hfirst.1 hfirst.2 parse_orders.1
  obtain ⟨definition', hread', hsolutions'⟩ := exists_definition_of_text hother.1 hother.2 parse_orders.2
  exact ⟨definition, definition', hread, hread', hsolutions, hsolutions'⟩

/-- What the second solution includes has been there before. -/
def foundTree : FileTree := orderTree [
  (["work", "out"], .folder),
  (["work", "out", "A"], .folder),
  (["work", "out", "A", "x.txt"], .file "1".toUTF8)]

/-- Whether solutions can be generated in their order and in the other one. -/
theorem run_orders :
    (∃ outputs t, ([shopSolution "A" [], shopSolution "B" ["../out/A"]].mapM
      (generateSolution elsewhere (ProjectId.nth 1))).exec ⟨foundTree, 0⟩ = (.ok outputs, t)) ∧
    (∃ outputs t, ([shopSolution "A" [], shopSolution "B" ["../out/A"]].mapM
      (generateSolution sampleSettings toString)).exec ⟨orderTree [], 0⟩ = (.ok outputs, t)) ∧
    ∃ e t, ([shopSolution "B" ["../out/A"], shopSolution "A" []].mapM
      (generateSolution sampleSettings toString)).exec ⟨orderTree [], 0⟩ = (.error e, t) := by
  have hfirst : (([shopSolution "A" [], shopSolution "B" ["../out/A"]].mapM
      (generateSolution elsewhere (ProjectId.nth 1))).exec ⟨foundTree, 0⟩).1.isOk = true := by
    unfold generateSolution generateProjects generateProject copyIncludes copyInclude takeProject
      Project.assemble Project.listFolders Project.addInclude foldersBelow
    rw [below_eq_insertionSort]
    decide +kernel
  have hok : (([shopSolution "A" [], shopSolution "B" ["../out/A"]].mapM
        (generateSolution sampleSettings toString)).exec ⟨orderTree [], 0⟩).1.isOk = true ∧
      (([shopSolution "B" ["../out/A"], shopSolution "A" []].mapM
        (generateSolution sampleSettings toString)).exec ⟨orderTree [], 0⟩).1.isOk = false := by
    constructor
    all_goals
      unfold generateSolution generateProjects generateProject copyIncludes copyInclude takeProject
        Project.assemble Project.listFolders Project.addInclude foldersBelow
      rw [below_eq_insertionSort]
      decide +kernel
  obtain ⟨first, hfirst⟩ := exists_of_isOk hfirst
  obtain ⟨outputs, hrun⟩ := exists_of_isOk hok.1
  obtain ⟨e, hfails⟩ := exists_of_isOk_eq_false hok.2
  exact ⟨⟨first, _, hfirst⟩, ⟨outputs, _, hrun⟩, e, _, hfails⟩

/-- Generated elsewhere, the solutions come out the same in both orders. -/
theorem orders_agree_elsewhere : ∃ definition definition' outputs t outputs' t',
    foundTree.WellFormed ∧
    readDefinition ⟨"/work/definition.xml"⟩ foundTree = .ok (some definition) ∧
    Separate elsewhere foundTree definition.solutions ∧
    (generate elsewhere (ProjectId.nth 1) ⟨"/work/definition.xml"⟩).exec ⟨foundTree, 0⟩ =
      (.ok outputs, t) ∧
    readDefinition ⟨"/work/other.xml"⟩ foundTree = .ok (some definition') ∧
    definition'.solutions.Perm definition.solutions ∧
    (generate elsewhere (ProjectId.nth 2) ⟨"/work/other.xml"⟩).exec ⟨foundTree, 0⟩ =
      (.ok outputs', t') ∧
    t.tree.Alike (TurnPair (ProjectId.nth 1) (ProjectId.nth 2) definition.solutions
      definition'.solutions) t'.tree := by
  obtain ⟨definition, definition', hread, hread', hsolutions, hsolutions'⟩ :
      ∃ definition definition', readDefinition ⟨"/work/definition.xml"⟩ foundTree = .ok (some definition) ∧
        readDefinition ⟨"/work/other.xml"⟩ foundTree = .ok (some definition') ∧
        definition.solutions = [shopSolution "A" [], shopSolution "B" ["../out/A"]] ∧
        definition'.solutions = [shopSolution "B" ["../out/A"], shopSolution "A" []] :=
    read_orderTree ⟨by decide, rfl⟩ ⟨by decide, rfl⟩
  have hw : foundTree.WellFormed := by decide
  have hsep : Separate elsewhere foundTree definition.solutions := by
    rw [hsolutions]
    refine ⟨by decide, by decide, ?_, ?_⟩
    · rw [List.forall_mem_cons, List.forall_mem_singleton]
      exact ⟨⟨by decide, by decide, by decide⟩,
        ⟨by decide, by decide, by decide⟩⟩
    · rw [List.forall_mem_cons, List.forall_mem_singleton]
      exact ⟨⟨by decide, by decide⟩, ⟨by decide, by decide⟩⟩
  have hperm : definition'.solutions.Perm definition.solutions := by
    rw [hsolutions, hsolutions']
    exact .swap _ _ _
  obtain ⟨outputs, t, hrun⟩ := run_orders.1
  have hfirst : (generate elsewhere (ProjectId.nth 1) ⟨"/work/definition.xml"⟩).exec ⟨foundTree, 0⟩ =
      (.ok outputs, t) := exec_generate_of_read hread hsolutions hrun
  obtain ⟨outputs', t', hother, -, halike, -⟩ := solutions_are_independent hw hread hsep hfirst
    (ProjectId.nth 2) ⟨"/work/other.xml"⟩ definition' hread' hperm.subperm
    (plain_turnPair (ProjectId.escape_nth 1) (ProjectId.escape_nth 2))
  exact ⟨definition, definition', outputs, t, outputs', t', hw, hread, hsep, hfirst, hread', hperm, hother,
    halike hperm⟩

/-- A solution that includes the folder of another one can only be generated after it, though the output
folder is apart from the folder of the project. -/
theorem other_order_fails : ∃ definition definition' outputs t e t',
    (orderTree []).WellFormed ∧
    readDefinition ⟨"/work/definition.xml"⟩ (orderTree []) = .ok (some definition) ∧
    readDefinition ⟨"/work/other.xml"⟩ (orderTree []) = .ok (some definition') ∧
    definition'.solutions.Perm definition.solutions ∧
    (∀ decl ∈ definition.solutions, decl.HasSegmentNames) ∧ (definition.solutions.map (·.name)).Nodup ∧
    (∀ place ∈ sampleSettings.outputFolder.target? [], ∀ base ∈ sampleSettings.projectFolder.target? [],
      place.Apart base) ∧ sampleSettings.packages = ∅ ∧
    (generate sampleSettings toString ⟨"/work/definition.xml"⟩).exec ⟨orderTree [], 0⟩ = (.ok outputs, t) ∧
    (generate sampleSettings toString ⟨"/work/other.xml"⟩).exec ⟨orderTree [], 0⟩ = (.error e, t') := by
  obtain ⟨definition, definition', hread, hread', hsolutions, hsolutions'⟩ :=
    @read_orderTree [] ⟨by decide, rfl⟩ ⟨by decide, rfl⟩
  obtain ⟨-, ⟨outputs, t, hrun⟩, e, t', hrun'⟩ := run_orders
  refine ⟨definition, definition', outputs, t, e, t', by decide, hread, hread', ?_, ?_, ?_,
    by decide, rfl, exec_generate_of_read hread hsolutions hrun,
    exec_generate_of_read hread' hsolutions' hrun'⟩
  · rw [hsolutions, hsolutions']
    exact .swap _ _ _
  · rw [hsolutions]
    decide
  · rw [hsolutions]
    decide

end Generate

end DatabaseProject
