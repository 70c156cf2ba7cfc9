import DatabaseProject.Proofs.ProjectReferences
import DatabaseProject.Proofs.Replay
import Mathlib.Data.List.Perm.Subperm

/-!
# Turns

Ids are taken turn by turn along a run, so a solution that comes later in a definition takes later
ids. How many a solution takes depends on it alone: begun later it does what it would do at the
start, with a source of ids that has been moved on. Hence its turns in one definition and its turns
in another, which has the same solutions in another order, correspond one to one.
-/

namespace DatabaseProject

/-- The same tree, with more ids issued before. -/
def RunState.later (n : Nat) (s : RunState) : RunState := ⟨s.tree, n + s.issued⟩

@[simp] theorem RunState.tree_later (n : Nat) (s : RunState) : (s.later n).tree = s.tree := rfl

@[simp] theorem RunState.issued_later (n : Nat) (s : RunState) : (s.later n).issued = n + s.issued := rfl

namespace Run

variable {α β σ : Type} {n : Nat} {x y : Run α} {f g : α → Run β}

/-- With `n` more ids issued before, one run does as another one does without them. -/
def MovedBy (n : Nat) (x y : Run α) : Prop :=
  ∀ s : RunState, x.exec (s.later n) = ((y.exec s).1, (y.exec s).2.later n)

theorem movedBy_pure (a : α) : MovedBy n (pure a) (pure a) := fun _ => rfl

theorem movedBy_throw (e : GenerationError) : MovedBy n (throw e : Run α) (throw e) := fun _ => rfl

theorem movedBy_liftM (e : Except GenerationError α) : MovedBy n (liftM e : Run α) (liftM e) :=
  fun _ => rfl

theorem movedBy_onTree (change : FileTree → Except GenerationError FileTree) :
    MovedBy n (onTree change) (onTree change) := by
  intro s
  rw [exec_onTree, exec_onTree, RunState.tree_later]
  cases change s.tree <;> rfl

theorem MovedBy.bind (hx : MovedBy n x y) (hf : ∀ a, MovedBy n (f a) (g a)) :
    MovedBy n (x >>= f) (y >>= g) := by
  intro s
  rw [exec_bind, exec_bind, hx s]
  cases h : y.exec s with
  | mk result t =>
    cases result with
    | error e => rfl
    | ok a => exact hf a t

theorem movedBy_forM {xs : List α} {g : α → Run Unit} (h : ∀ a, MovedBy n (g a) (g a)) :
    MovedBy n (xs.forM g) (xs.forM g) := by
  induction xs with
  | nil => exact movedBy_pure ()
  | cons a xs ih => exact (h a).bind fun _ => ih

theorem movedBy_foldlM {xs : List α} {f g : σ → α → Run σ} {init : σ}
    (h : ∀ b a, MovedBy n (f b a) (g b a)) : MovedBy n (xs.foldlM f init) (xs.foldlM g init) := by
  induction xs generalizing init with
  | nil => exact movedBy_pure init
  | cons a xs ih => exact (h init a).bind fun _ => ih

end Run

namespace Generate

open Run

variable {settings : Settings} {ids others : Nat → String} {folder : Path} {db : Database}
  {project : Project} {previous : List Project} {s t : RunState} {n : Nat}

theorem movedBy_takeProject : MovedBy n (takeProject settings ids previous db)
    (takeProject settings (fun turn => ids (n + turn)) previous db) := by
  intro s
  simp only [takeProject, exec_get_bind, exec_liftM_bind, RunState.tree_later, RunState.issued_later]
  cases Project.assemble settings s.tree previous (ids (n + s.issued)) db <;> rfl

theorem movedBy_copyInclude {target : Path} {path : String} :
    MovedBy n (copyInclude settings target path) (copyInclude settings target path) := by
  intro s
  have hentries (source : Path) (entries : List (List String × FileEntry)) :
      MovedBy n (entries.forM (copyEntry source target)) (entries.forM (copyEntry source target)) := by
    refine movedBy_forM fun entry => ?_
    unfold copyEntry
    split
    · exact movedBy_onTree _
    · split
      · exact movedBy_pure _
      · exact movedBy_throw _
  simp only [copyInclude, exec_get_bind, exec_liftM_bind, RunState.tree_later]
  cases Project.includeFolder settings s.tree path with
  | error e => rfl
  | ok found => exact hentries found.1 _ s

theorem movedBy_writeComparison :
    MovedBy n (writeComparison folder project db) (writeComparison folder project db) := by
  unfold writeComparison
  cases db.comparison with
  | none => exact movedBy_pure _
  | some options =>
    rw [Option.forM]
    exact movedBy_onTree _

theorem movedBy_finishProject :
    MovedBy n (finishProject settings folder db project) (finishProject settings folder db project) := by
  have hincludes : MovedBy n (copyIncludes settings folder db) (copyIncludes settings folder db) :=
    movedBy_forM fun _ => movedBy_copyInclude
  have hdacpacs : MovedBy n (copyDacpacs settings folder db) (copyDacpacs settings folder db) :=
    movedBy_forM fun _ => movedBy_onTree _
  have hscripts (scripts : List ScriptFile) : MovedBy n
      (writeScripts (folder.join ⟨db.name⟩) scripts) (writeScripts (folder.join ⟨db.name⟩) scripts) :=
    movedBy_forM fun _ => movedBy_onTree _
  unfold finishProject
  exact (movedBy_onTree _).bind fun _ => movedBy_writeComparison.bind fun _ => hincludes.bind fun _ =>
    hdacpacs.bind fun _ => (movedBy_liftM _).bind fun scripts => (hscripts scripts).bind fun _ =>
    movedBy_pure _

theorem movedBy_generateProjects {done : List Project × Nat} {dbs : List Database} :
    MovedBy n (generateProjects settings ids folder done dbs)
      (generateProjects settings (fun turn => ids (n + turn)) folder done dbs) := by
  refine movedBy_foldlM fun before db => ?_
  rw [generateProject_eq, generateProject_eq]
  exact (movedBy_takeProject.bind fun _ => movedBy_finishProject).bind fun _ => movedBy_pure _

theorem movedBy_concludeSolution {name : String} {done : List Project × Nat} :
    MovedBy n (concludeSolution ids folder name done)
      (concludeSolution (fun turn => ids (n + turn)) folder name done) := by
  unfold concludeSolution
  split
  · exact movedBy_pure _
  · have hid : MovedBy n (takeId ids) (takeId fun turn => ids (n + turn)) := fun s => rfl
    exact (hid.bind fun _ => (movedBy_onTree _).bind fun _ => movedBy_pure _).bind
      fun _ => movedBy_pure _

/-- A solution that is generated later is as it would be at the start, with later ids. -/
theorem movedBy_generateSolution {decl : SolutionDecl} : MovedBy n (generateSolution settings ids decl)
    (generateSolution settings (fun turn => ids (n + turn)) decl) := by
  intro s
  rw [exec_generateSolution, exec_generateSolution]
  cases (Registry.empty.constructAll decl.databases).1 with
  | error e => rfl
  | ok _ => exact movedBy_generateProjects.bind (fun _ => movedBy_concludeSolution) s

/-- How many ids a solution takes: one for each project, and one for the solution file. -/
def idsTaken (decl : SolutionDecl) : Nat :=
  (projectDatabases decl).length + if (projectDatabases decl).isEmpty then 0 else 1

theorem concludeSolution_without_projects {name : String} {done : List Project × Nat}
    {output : SolutionOutput} (hempty : done.1 = [])
    (h : (concludeSolution ids folder name done).exec s = (.ok output, t)) : t = s := by
  rw [concludeSolution, hempty] at h
  exact (Prod.mk.inj h).2.symm

/-- Without projects nothing happens; behind the projects comes the solution file. -/
theorem generateSolution_cases {decl : SolutionDecl} {output : SolutionOutput}
    (h : (generateSolution settings ids decl).exec s = (.ok output, t)) :
    projectDatabases decl = [] ∧ t = s ∨ projectDatabases decl ≠ [] ∧ ∃ done middle content,
      (generateProjects settings ids (settings.outputFolder.join ⟨decl.name⟩) ([], 0)
        (projectDatabases decl)).exec s = (.ok done, middle) ∧
      t.issued = s.issued + (projectDatabases decl).length + 1 ∧
      middle.tree.write ((settings.outputFolder.join ⟨decl.name⟩).join ⟨decl.name ++ ".sln"⟩) content =
        .ok t.tree := by
  obtain ⟨-, done, middle, hprojects, hconclude⟩ := exec_generateSolution_eq_ok.1 h
  obtain ⟨made, hmade, hlength, hissued, -⟩ := generateProjects_assembled hprojects
  have hempty : done.1 = [] ↔ projectDatabases decl = [] := by
    rw [hmade, List.nil_append, ← List.length_eq_zero_iff, hlength, List.length_eq_zero_iff]
  obtain ⟨-, -, ⟨hnone, -⟩ | ⟨hsome, -, hlast, hwrite⟩⟩ := concludeSolution_eq_ok hconclude
  · refine .inl ⟨hempty.1 hnone, ?_⟩
    rw [hempty.1 hnone] at hprojects
    rw [concludeSolution_without_projects hnone hconclude]
    exact (Prod.mk.inj hprojects).2.symm
  · refine .inr ⟨fun he => hsome (hempty.2 he), done, middle, _, hprojects, ?_, hwrite⟩
    rw [hlast, hissued]

theorem issued_generateSolution {decl : SolutionDecl} {output : SolutionOutput}
    (h : (generateSolution settings ids decl).exec s = (.ok output, t)) :
    t.issued = s.issued + idsTaken decl := by
  unfold idsTaken
  obtain ⟨hnone, rfl⟩ | ⟨hsome, _, _, _, -, hissued, -⟩ := generateSolution_cases h
  · rw [hnone]
    rfl
  · rw [if_neg fun he => hsome (List.isEmpty_iff.1 he), hissued, Nat.add_assoc]

/-- A solution that has been generated later is generated at the start by a source that has been moved
on. -/
theorem generateSolution_at_start {decl : SolutionDecl} {output : SolutionOutput}
    (h : (generateSolution settings ids decl).exec s = (.ok output, t)) :
    (generateSolution settings (fun turn => ids (s.issued + turn)) decl).exec ⟨s.tree, 0⟩ =
      (.ok output, ⟨t.tree, idsTaken decl⟩) := by
  have hmoved := @movedBy_generateSolution settings ids s.issued decl ⟨s.tree, 0⟩
  have hlater : RunState.later s.issued ⟨s.tree, 0⟩ = s := rfl
  rw [hlater, h] at hmoved
  obtain ⟨hresult, hstate⟩ := Prod.mk.inj hmoved
  have hissued := congrArg RunState.issued hstate
  rw [issued_generateSolution h, RunState.issued_later] at hissued
  refine Prod.ext hresult.symm ?_
  rw [hstate, Nat.add_left_cancel hissued]
  rfl

/-- What a source that has been moved on generates at the start is generated later. -/
theorem generateSolution_later {decl : SolutionDecl} {output : SolutionOutput}
    (h : (generateSolution settings (fun turn => ids (s.issued + turn)) decl).exec ⟨s.tree, 0⟩ =
      (.ok output, t)) :
    (generateSolution settings ids decl).exec s = (.ok output, ⟨t.tree, s.issued + t.issued⟩) := by
  have hmoved := @movedBy_generateSolution settings ids s.issued decl ⟨s.tree, 0⟩
  rw [h] at hmoved
  exact hmoved

/-- How many ids solutions take one after the other. -/
def turns : List SolutionDecl → Nat
  | [] => 0
  | decl :: decls => idsTaken decl + turns decls

/-- How many ids are taken by the solutions before the one of a name. -/
def firstTurn (decls : List SolutionDecl) (name : String) : Nat :=
  turns (decls.takeWhile (·.name ≠ name))

/-- The ids that a solution takes at the same turn of its own in two definitions. -/
def TurnPair (ids others : Nat → String) (decls decls' : List SolutionDecl) (id other : String) : Prop :=
  ∃ decl ∈ decls, decl ∈ decls' ∧ ∃ turn < idsTaken decl,
    id = ids (firstTurn decls decl.name + turn) ∧ other = others (firstTurn decls' decl.name + turn)

section

variable {decls decls' before after : List SolutionDecl} {decl other : SolutionDecl} {turn turn' : Nat}

theorem turns_append : turns (before ++ after) = turns before + turns after := by
  induction before with
  | nil => exact (Nat.zero_add _).symm
  | cons first before ih => rw [List.cons_append, turns, turns, ih, Nat.add_assoc]

theorem firstTurn_cons {first : SolutionDecl} {name : String} : firstTurn (first :: decls) name =
    if first.name = name then 0 else idsTaken first + firstTurn decls name := by
  unfold firstTurn
  split_ifs with h <;> simp [h, turns]

theorem firstTurn_append (h : ∀ first ∈ before, first.name ≠ decl.name) :
    firstTurn (before ++ decl :: after) decl.name = turns before := by
  induction before with
  | nil => rw [List.nil_append, firstTurn_cons, if_pos rfl, turns]
  | cons first before ih =>
    rw [List.forall_mem_cons] at h
    rw [List.cons_append, firstTurn_cons, if_neg h.1, ih h.2, turns]

theorem turn_lt (hm : decl ∈ decls) (ht : turn < idsTaken decl) :
    firstTurn decls decl.name + turn < turns decls := by
  induction decls with
  | nil => cases hm
  | cons first decls ih =>
    rw [firstTurn_cons, turns]
    rcases List.mem_cons.1 hm with rfl | hm
    · rw [if_pos rfl]
      omega
    · have := ih hm
      split_ifs <;> omega

/-- No two solutions of a definition have a turn in common. -/
theorem turn_unique (hn : (decls.map (·.name)).Nodup) (hm : decl ∈ decls) (hm' : other ∈ decls)
    (ht : turn < idsTaken decl) (ht' : turn' < idsTaken other)
    (he : firstTurn decls decl.name + turn = firstTurn decls other.name + turn') :
    decl = other ∧ turn = turn' := by
  induction decls with
  | nil => cases hm
  | cons first decls ih =>
    obtain ⟨hfresh, hn⟩ := List.nodup_cons.1 hn
    have hne : ∀ later ∈ decls, first.name ≠ later.name := fun later hl h =>
      hfresh (List.mem_map.2 ⟨later, hl, h.symm⟩)
    rw [firstTurn_cons, firstTurn_cons] at he
    rcases List.mem_cons.1 hm with rfl | hd <;> rcases List.mem_cons.1 hm' with rfl | hd'
    · rw [if_pos rfl] at he
      exact ⟨rfl, by omega⟩
    · rw [if_pos rfl, if_neg (hne _ hd')] at he
      omega
    · rw [if_neg (hne _ hd), if_pos rfl] at he
      omega
    · rw [if_neg (hne _ hd), if_neg (hne _ hd')] at he
      exact ih hn hd hd' (by omega)

/-- Sources that give no id twice pair the ids of two definitions one to one. -/
theorem biUnique_turnPair (hn : (decls.map (·.name)).Nodup) (hn' : (decls'.map (·.name)).Nodup)
    (hi : Set.InjOn ids {turn | turn < turns decls})
    (ho : Set.InjOn others {turn | turn < turns decls'}) :
    Relator.BiUnique (TurnPair ids others decls decls') := by
  constructor
  · rintro _ _ _ ⟨decl, hm, hm', turn, ht, rfl, rfl⟩ ⟨last, hl, hl', turn', ht', rfl, he⟩
    obtain ⟨rfl, rfl⟩ := turn_unique hn' hm' hl' ht ht' (ho (turn_lt hm' ht) (turn_lt hl' ht') he)
    rfl
  · rintro _ _ _ ⟨decl, hm, hm', turn, ht, rfl, rfl⟩ ⟨last, hl, hl', turn', ht', he, rfl⟩
    obtain ⟨rfl, rfl⟩ := turn_unique hn hm hl ht ht' (hi (turn_lt hm ht) (turn_lt hl ht') he)
    rfl

theorem plain_turnPair (hi : ∀ turn, Xml.Markup.escape (ids turn) = ids turn)
    (ho : ∀ turn, Xml.Markup.escape (others turn) = others turn) :
    Plain (TurnPair ids others decls decls') := by
  rintro _ _ ⟨_, -, -, _, -, rfl, rfl⟩
  exact ⟨hi _, ho _⟩

/-- The ids of one solution, from its first turn on, are paired. -/
theorem turnPair_of_idPair (hm : decl ∈ decls) (hm' : decl ∈ decls') {id other : String}
    (h : IdPair (fun turn => ids (firstTurn decls decl.name + turn))
      (fun turn => others (firstTurn decls' decl.name + turn)) (idsTaken decl) id other) :
    TurnPair ids others decls decls' id other := by
  obtain ⟨turn, ht, rfl, rfl⟩ := h
  exact ⟨decl, hm, hm', turn, ht, rfl, rfl⟩

end

end Generate

end DatabaseProject
