import DatabaseProject.Proofs.RelatedTrees
import DatabaseProject.Proofs.SolutionFootprint

/-!
# Three runs side by side

A run, the same run with ids of another source, and that run in another tree go side by side: where
the first has a result so have the others, and what the three states have in common is kept.
`Replays` says so for any part of a run, and is put together along the run; `KeptByProject` lists what
has to be known of the single steps of a project. Each step also has to lead to the end that the first
run comes to, which is why `Advances` is read backwards from there.
-/

namespace DatabaseProject

open FileTree Outcome

/-- The end of a run: the state that it comes to, and at which places of a tree a file that can be
written over still can be in the end. -/
structure Ending extends RunState where
  kept : FileTree → Location → Prop
  kept_mono : ∀ {old new : FileTree} {x : Location}, old.CoveredBy new → kept old x → kept new x

namespace RunState

/-- A state as an end of which nothing more is known. -/
abbrev ending (s : RunState) : Ending := ⟨s, fun _ _ => False, fun _ => id⟩

instance : Coe RunState Ending := ⟨ending⟩

/-- A state can come before the end of a run: no id is given back, the tree can become the last one, and
a file at a place that is kept does not become read-only. -/
structure Leads (s : RunState) (final : Ending) : Prop where
  issued_le : s.issued ≤ final.issued
  keptBy : s.tree.KeptBy final.tree
  unlocked : ∀ x content, final.kept s.tree x → s.tree.get? x = some (.file content) →
    content.readOnly = false → final.tree.isReadOnly x = false

namespace Leads

variable {s t : RunState} {final : Ending}

theorem covered (h : s.Leads final) : s.tree.CoveredBy final.tree := h.keptBy.toCoveredBy

theorem refl (final : Ending) : final.toRunState.Leads final :=
  ⟨le_rfl, .refl _, fun _ _ _ hx hc => (isReadOnly_of_get? hx).trans hc⟩

/-- A step in which no file becomes read-only at a place that is kept comes before what follows it. -/
theorem before (h : t.Leads final) (hi : s.issued ≤ t.issued) (hk : s.tree.KeptBy t.tree)
    (hu : ∀ x content, final.kept s.tree x → s.tree.get? x = some (.file content) →
      content.readOnly = false → t.tree.isReadOnly x = false) : s.Leads final := by
  refine ⟨hi.trans h.issued_le, hk.trans h.keptBy, fun x content hx hget hc => ?_⟩
  obtain ⟨later, hlater⟩ := hk.file hget
  have hopen := hu x content hx hget hc
  rw [isReadOnly_of_get? hlater] at hopen
  exact h.unlocked x later (final.kept_mono hk.toCoveredBy hx) hlater hopen

theorem before_of_tree_eq (h : t.Leads final) (hi : s.issued ≤ t.issued) (ht : s.tree = t.tree) :
    s.Leads final :=
  h.before hi (ht ▸ .refl _) fun _ _ _ hget hc => ht ▸ (isReadOnly_of_get? hget).trans hc

end Leads

end RunState

namespace Run

variable {α β γ δ : Type} {x : Run α} {f : α → Run γ} {s t : RunState}

/-- Whatever comes of a run, when the state that it leaves can come before an end so can the one that it
has been started in. -/
def Advances (final : Ending) (x : Run α) : Prop := ∀ s, (x.exec s).2.Leads final → s.Leads final

variable {final : Ending}

theorem Advances.of_exec {result : Except GenerationError α} (h : x.Advances final)
    (hx : x.exec s = (result, t)) (ht : t.Leads final) : s.Leads final := by
  rw [← show (x.exec s).2 = t from congrArg Prod.snd hx] at ht
  exact h s ht

theorem advances_pure (a : α) : (pure a : Run α).Advances final := fun _ => id

theorem advances_throw (e : GenerationError) : (throw e : Run α).Advances final := fun _ => id

theorem advances_liftM (e : Except GenerationError α) : (liftM e : Run α).Advances final := fun _ => id

theorem advances_bind (hx : x.Advances final) (hf : ∀ a, (f a).Advances final) :
    (x >>= f).Advances final := by
  intro s ht
  rw [exec_bind] at ht
  cases h : x.exec s with
  | mk result t =>
    rw [h] at ht
    cases result with
    | error e => exact hx.of_exec h ht
    | ok a => exact hx.of_exec h (hf a t ht)

theorem advances_onTree {change : FileTree → Except GenerationError FileTree}
    (hk : ∀ old new, change old = .ok new → old.KeptBy new)
    (hu : ∀ old new n, change old = .ok new → (RunState.mk new n).Leads final →
      ∀ x content, final.kept old x → old.get? x = some (.file content) → content.readOnly = false →
        new.isReadOnly x = false) : (onTree change).Advances final := by
  intro s ht
  rw [exec_onTree] at ht
  cases hc : change s.tree with
  | error e =>
    rw [hc] at ht
    exact ht
  | ok new =>
    rw [hc] at ht
    exact ht.before le_rfl (hk _ _ hc) (hu _ _ _ hc ht)

/-- Where nothing is known of the end. -/
theorem advances_onTree_ending {change : FileTree → Except GenerationError FileTree} {t : RunState}
    (hk : ∀ old new, change old = .ok new → old.KeptBy new) : (onTree change).Advances t :=
  advances_onTree hk fun _ _ _ _ _ _ _ h => h.elim

theorem advances_forM {xs : List α} {g : α → Run Unit} (h : ∀ a ∈ xs, (g a).Advances final) :
    (xs.forM g).Advances final := by
  induction xs with
  | nil => exact advances_pure ()
  | cons a xs ih =>
    rw [List.forall_mem_cons] at h
    exact advances_bind h.1 fun _ => ih h.2

theorem advances_foldlM {xs : List α} {g : β → α → Run β} {init : β}
    (h : ∀ b, ∀ a ∈ xs, (g b a).Advances final) : (xs.foldlM g init).Advances final := by
  induction xs generalizing init with
  | nil => exact advances_pure init
  | cons a xs ih =>
    simp only [List.forall_mem_cons, forall_and] at h
    exact advances_bind (h.1 init) fun _ => ih h.2

/-- What the states of three runs have in common. -/
abbrev StateRelation := RunState → RunState → RunState → Prop

/-- Wherever one run has a result, on the way to a final state, another run has a partner of it in
two other states; what the states have in common before and after is given. -/
structure Replays (final : Ending) (R S : StateRelation) (Q : α → β → Prop) (x : Run α) (y : Run β) :
    Prop where
  advances : x.Advances final
  replay : ∀ a a' b, R a a' b → ∀ v t, x.exec a = (.ok v, t) → t.Leads final →
    ∃ v' t' u, y.exec a' = (.ok v', t') ∧ y.exec b = (.ok v', u) ∧ Q v v' ∧ S t t' u

variable {R S T : StateRelation} {Q : α → β → Prop} {P : γ → δ → Prop} {y : Run β}
  {g : β → Run δ}

theorem Replays.mono {R' S' : StateRelation} (h : Replays final R S Q x y)
    (hr : ∀ a a' b, R' a a' b → R a a' b) (hs : ∀ a a' b, S a a' b → S' a a' b) :
    Replays final R' S' Q x y := by
  refine ⟨h.advances, fun a a' b hrel v t hx ht => ?_⟩
  obtain ⟨v', t', u, ha, hb, hq, hst⟩ := h.replay a a' b (hr _ _ _ hrel) v t hx ht
  exact ⟨v', t', u, ha, hb, hq, hs _ _ _ hst⟩

theorem replays_pure {v : α} {v' : β} (h : Q v v') : Replays final R R Q (pure v) (pure v') := by
  refine ⟨advances_pure v, fun a a' b hr _ _ hx _ => ?_⟩
  cases hx
  exact ⟨v', a', b, rfl, rfl, h, hr⟩

theorem replays_throw {e : GenerationError} : Replays final R R Q (throw e : Run α) (throw e) := by
  refine ⟨advances_throw e, fun a a' b hr v t hx _ => ?_⟩
  cases hx

theorem replays_liftM (e : Except GenerationError α) :
    Replays final R R (fun v v' => e = .ok v ∧ v = v') (liftM e : Run α) (liftM e) := by
  refine ⟨advances_liftM e, fun a a' b hr v t hx _ => ?_⟩
  obtain ⟨rfl, rfl⟩ := Prod.mk.inj hx
  exact ⟨v, a', b, rfl, rfl, ⟨rfl, rfl⟩, hr⟩

theorem replays_onTree {change change' : FileTree → Except GenerationError FileTree}
    (ha : (onTree change).Advances final)
    (h : ∀ a a' b new, R a a' b → change a.tree = .ok new → (RunState.mk new a.issued).Leads final →
      ∃ new' u, change' a'.tree = .ok new' ∧ change' b.tree = .ok u ∧
        S ⟨new, a.issued⟩ ⟨new', a'.issued⟩ ⟨u, b.issued⟩) :
    Replays final R S Eq (onTree change) (onTree change') := by
  refine ⟨ha, fun a a' b hr v t hx ht => ?_⟩
  obtain ⟨hc, hi⟩ := exec_onTree_eq_ok.1 hx
  obtain ⟨tree, issued⟩ := t
  obtain rfl := hi
  obtain ⟨new', u, ha', hb, hs⟩ := h a a' b tree hr hc ht
  exact ⟨(), ⟨new', a'.issued⟩, ⟨u, b.issued⟩, exec_onTree_eq_ok.2 ⟨ha', rfl⟩,
    exec_onTree_eq_ok.2 ⟨hb, rfl⟩, rfl, hs⟩

theorem Replays.bind (hx : Replays final R S Q x y)
    (hf : ∀ v v', Q v v' → Replays final S T P (f v) (g v')) (ha : ∀ v, (f v).Advances final) :
    Replays final R T P (x >>= f) (y >>= g) := by
  refine ⟨advances_bind hx.advances ha, fun a a' b hr w t hw ht => ?_⟩
  obtain ⟨v, middle, hv, hrest⟩ := exec_bind_eq_ok.1 hw
  obtain ⟨v', middle', other, hy', hy, hq, hs⟩ :=
    hx.replay a a' b hr v middle hv ((ha v).of_exec hrest ht)
  obtain ⟨w', t', u, hg', hg, hp, hlast⟩ := (hf v v' hq).replay middle middle' other hs w t hrest ht
  exact ⟨w', t', u, exec_bind_eq_ok.2 ⟨v', middle', hy', hg'⟩, exec_bind_eq_ok.2 ⟨v', other, hy, hg⟩,
    hp, hlast⟩

/-- Behind equal results nothing has to be known but of the steps that follow. -/
theorem Replays.seq {f : α → Run γ} {g : α → Run δ} {y : Run α} (hx : Replays final R S Eq x y)
    (hf : ∀ v, Replays final S T P (f v) (g v)) : Replays final R T P (x >>= f) (y >>= g) := by
  refine hx.bind ?_ fun v => (hf v).advances
  rintro v _ rfl
  exact hf v

theorem replays_forM {xs : List α} {f g : α → Run Unit}
    (h : ∀ a ∈ xs, Replays final R R Eq (f a) (g a)) :
    Replays final R R Eq (xs.forM f) (xs.forM g) := by
  induction xs with
  | nil => exact replays_pure rfl
  | cons a xs ih =>
    rw [List.forall_mem_cons] at h
    exact h.1.seq fun _ => ih h.2

theorem replays_foldlM {σ σ' : Type} {Q : σ → σ' → Prop} {xs : List α} {f : σ → α → Run σ}
    {g : σ' → α → Run σ'} {init : σ} {init' : σ'} (hi : Q init init')
    (h : ∀ a ∈ xs, ∀ v v', Q v v' → Replays final R R Q (f v a) (g v' a))
    (ha : ∀ v, ∀ a ∈ xs, (f v a).Advances final) :
    Replays final R R Q (xs.foldlM f init) (xs.foldlM g init') := by
  induction xs generalizing init init' with
  | nil => exact replays_pure hi
  | cons a xs ih =>
    rw [List.forall_mem_cons] at h
    simp only [List.forall_mem_cons, forall_and] at ha
    exact (h.1 init init' hi).bind (fun v v' hq => ih hq h.2 ha.2) fun _ => advances_foldlM ha.2

theorem replays_mapM {xs : List γ} {f : γ → Run α} {g : γ → Run β}
    (h : ∀ a ∈ xs, Replays final R R Q (f a) (g a)) :
    Replays final R R (List.Forall₂ Q) (xs.mapM f) (xs.mapM g) := by
  induction xs with
  | nil => exact replays_pure .nil
  | cons a xs ih =>
    rw [List.forall_mem_cons] at h
    rw [List.mapM_cons, List.mapM_cons]
    have hrest : ∀ v v', Q v v' → Replays final R R (List.Forall₂ Q)
        (xs.mapM f >>= fun vs => pure (v :: vs)) (xs.mapM g >>= fun vs => pure (v' :: vs)) :=
      fun v v' hq => (ih h.2).bind (fun vs vs' hqs => replays_pure (.cons hq hqs))
        fun _ => advances_pure _
    exact h.1.bind hrest fun v => advances_bind (ih h.2).advances fun _ => advances_pure _

end Run

/-- Outputs that differ only in the ids of projects. -/
structure SolutionOutput.Alike (Pair : String → String → Prop) (output other : SolutionOutput) : Prop where
  others_eq : other = { output with projects := other.projects }
  projects : List.Forall₂ (Project.Alike Pair) output.projects other.projects

theorem SolutionOutput.Alike.mono {Pair Wide : String → String → Prop} {output other : SolutionOutput}
    (h : output.Alike Pair other) (hle : ∀ id other, Pair id other → Wide id other) :
    output.Alike Wide other :=
  ⟨h.others_eq, h.projects.imp fun _ _ hp => hp.mono hle⟩

namespace Generate

open Run

variable {settings : Settings} {ids others : Nat → String} {folder : Path} {db : Database}
  {previous previous' : List Project} {final : Ending}

theorem advances_write {path : Path} {content : ByteArray} :
    (Run.onTree (·.write path content)).Advances final :=
  advances_onTree (fun _ _ => keptBy_store) fun _ _ _ h _ _ _ _ hx hc => isReadOnly_store h rfl hx hc

/-- Copying a file makes none read-only that is kept, if what is copied is not read-only in the end. -/
theorem advances_copyEntry {source target : Path} {entry : List String × FileEntry}
    (h : ∀ tree x, final.kept tree x → ∀ content,
      final.tree.read? (source.joinAll entry.1) = some content → content.readOnly = false) :
    (copyEntry source target entry).Advances final := by
  unfold copyEntry
  split
  · refine advances_onTree (fun _ _ => keptBy_copy) fun old new _ hcopy hlast x content hx hget hc => ?_
    by_contra hopen
    obtain ⟨copied, hread, hlocked⟩ := read?_of_isReadOnly_copy hcopy hget hc (by simpa using hopen)
    obtain ⟨origin, hl, hg⟩ := read?_eq_some.1 hread
    have hfinal := hlast.keptBy.locked origin ((isReadOnly_of_get? hg).trans hlocked)
    rw [h old x hx copied (read?_eq_some.2 ⟨origin, hlast.covered.locate? hl, hfinal.trans hg⟩)] at hlocked
    cases hlocked
  · split
    · exact advances_pure _
    · exact advances_throw _

theorem keptBy_copyDacpac {name : String} {old new : FileTree}
    (h : copyDacpac settings folder db name old = .ok new) : old.KeptBy new := by
  obtain ⟨content, -, ⟨-, rfl⟩ | ⟨-, -, hstore⟩⟩ := copyDacpac_stores h
  · exact .refl _
  · exact keptBy_store hstore

/-- What a project takes over makes no file read-only at a place that is kept: the files of its includes
are not read-only in the end, and package files only come where nothing is. -/
structure Keeps (settings : Settings) (folder : Path) (db : Database) (final : Ending) : Prop where
  included : ∀ tree x, final.kept tree x → ∀ path ∈ db.includes, ∀ source location,
    Project.includeFolder settings final.tree path = .ok (source, location) →
      ∀ rest entry, (rest, entry) ∈ final.tree.below location → ∀ content,
        final.tree.read? (source.joinAll rest) = some content → content.readOnly = false
  package : ∀ name old new, copyDacpac settings folder db name old = .ok new →
    ∀ x content, final.kept old x → old.get? x = some (.file content) →
      new.get? x = some (.file content)

theorem keeps_ending (t : RunState) : Keeps settings folder db t :=
  ⟨fun _ _ h => h.elim, fun _ _ _ _ _ _ h => h.elim⟩

theorem advances_copyDacpac {name : String} (hk : Keeps settings folder db final) :
    (Run.onTree (copyDacpac settings folder db name)).Advances final :=
  advances_onTree (fun _ _ => keptBy_copyDacpac) fun old new _ h _ x content hx hget hc =>
    (isReadOnly_of_get? (hk.package name old new h x content hx hget)).trans hc

theorem advances_copyInclude {target : Path} {path : String} (hk : Keeps settings folder db final)
    (hp : path ∈ db.includes) : (copyInclude settings target path).Advances final := by
  intro s ht
  simp only [copyInclude, exec_get_bind, exec_liftM_bind] at ht
  split at ht
  · rename_i shown hf
    obtain ⟨source, location⟩ := shown
    -- the loop loses nothing, so that the include is found in the end as well
    have hcovered : s.tree.CoveredBy final.tree := by
      have hloop : ((s.tree.below location).forM (copyEntry source target)).Advances
          (((s.tree.below location).forM (copyEntry source target)).exec s).2 :=
        advances_forM fun entry _ => advances_copyEntry fun _ _ h => h.elim
      exact (hloop s (.refl (RunState.ending _))).covered.trans ht.covered
    obtain ⟨hresolve, hlocate, hfolder⟩ := Project.includeFolder_eq_ok.1 hf
    have hfinal : Project.includeFolder settings final.tree path = .ok (source, location) :=
      Project.includeFolder_eq_ok.2 ⟨hresolve, hcovered.locate? hlocate, hcovered.folder hfolder⟩
    have hloop : ((s.tree.below location).forM (copyEntry source target)).Advances final := by
      refine advances_forM fun entry he => advances_copyEntry fun tree x hx => ?_
      obtain ⟨hne, hget⟩ := mem_below.1 he
      obtain ⟨found, hfound, -⟩ := hcovered.entries _ _ hget
      exact hk.included tree x hx path hp source location hfinal entry.1 found (mem_below.2 ⟨hne, hfound⟩)
    exact hloop s ht
  · exact ht

theorem advances_takeProject : (takeProject settings ids previous db).Advances final := by
  intro s ht
  simp only [takeProject, exec_get_bind, exec_liftM_bind] at ht
  cases ha : Project.assemble settings s.tree previous (ids s.issued) db with
  | error e =>
    rw [ha] at ht
    exact ht
  | ok project =>
    rw [ha] at ht
    exact ht.before_of_tree_eq (Nat.le_succ _) rfl

theorem advances_writeComparison {project : Project} :
    (writeComparison folder project db).Advances final := by
  unfold writeComparison
  cases db.comparison with
  | none => exact advances_pure _
  | some options => exact advances_write

/-- What is done for a project once it has been taken. -/
def finishProject (settings : Settings) (folder : Path) (db : Database) (project : Project) :
    Run (Project × Nat) := do
  Run.onTree (·.write (folder.join ⟨project.fileName⟩) project.descriptor.toUTF8)
  writeComparison folder project db
  copyIncludes settings folder db
  copyDacpacs settings folder db
  let scripts ← (db.scripts : Except GenerationError (List ScriptFile))
  writeScripts (folder.join ⟨db.name⟩) scripts
  return (project, scripts.length)

theorem generateProject_eq : generateProject settings ids folder previous db =
    takeProject settings ids previous db >>= finishProject settings folder db := rfl

theorem advances_finishProject {project : Project} (hk : Keeps settings folder db final) :
    (finishProject settings folder db project).Advances final :=
  advances_bind advances_write fun _ => advances_bind advances_writeComparison fun _ =>
    advances_bind (advances_forM fun _ hp => advances_copyInclude hk hp) fun _ =>
    advances_bind (advances_forM fun _ _ => advances_copyDacpac hk) fun _ =>
    advances_bind (advances_liftM _) fun _ =>
    advances_bind (advances_forM fun _ _ => advances_write) fun _ => advances_pure _

theorem advances_generateProject (hk : Keeps settings folder db final) :
    (generateProject settings ids folder previous db).Advances final :=
  advances_bind advances_takeProject fun _ => advances_finishProject hk

/-- The relation says that as many ids have been issued in all states, and is kept by another id. -/
structure KeptByIds (R : StateRelation) : Prop where
  issued_eq : ∀ a a' b, R a a' b → a'.issued = a.issued ∧ b.issued = a.issued
  issue : ∀ a a' b, R a a' b →
    R ⟨a.tree, a.issued + 1⟩ ⟨a'.tree, a'.issued + 1⟩ ⟨b.tree, b.issued + 1⟩

/-- The relation shows the includes of a database alike, and is kept by each file of its project.
Behind the first file it can be sharpened, since there is a folder then. -/
structure KeptByProject (settings : Settings) (Pair : String → String → Prop) (final : Ending)
    (folder : Path) (db : Database) (R Inner : StateRelation) : Prop where
  keeps : Keeps settings folder db final
  inner : ∀ a a' b, Inner a a' b → R a a' b
  shown : ∀ a a' b, R a a' b → ∀ path ∈ db.includes,
    Project.ShownAlike settings a.tree a'.tree path ∧ Project.ShownAlike settings a.tree b.tree path
  descriptor : ∀ text text', Renamed Pair text text' → Replays final R Inner Eq
    (Run.onTree (·.write (folder.join ⟨db.name ++ ".sqlproj"⟩) text.toUTF8))
    (Run.onTree (·.write (folder.join ⟨db.name ++ ".sqlproj"⟩) text'.toUTF8))
  comparison : ∀ text text', Renamed Pair text text' → Replays final Inner Inner Eq
    (Run.onTree (·.write (folder.join ⟨db.name ++ ".scmp"⟩) text.toUTF8))
    (Run.onTree (·.write (folder.join ⟨db.name ++ ".scmp"⟩) text'.toUTF8))
  copy : ∀ a a' b, Inner a a' b → ∀ path ∈ db.includes, ∀ source location,
    Project.includeFolder settings a.tree path = .ok (source, location) →
      ∀ rest content, (rest, .file content) ∈ a.tree.below location → Replays final Inner Inner Eq
        (Run.onTree (·.copy (source.joinAll rest) (includeTarget folder db rest)))
        (Run.onTree (·.copy (source.joinAll rest) (includeTarget folder db rest)))
  package : ∀ name ∈ dacpacs db, Replays final Inner Inner Eq
    (Run.onTree (copyDacpac settings folder db name)) (Run.onTree (copyDacpac settings folder db name))
  script : ∀ scripts, db.scripts = .ok scripts → ∀ script ∈ scripts, Replays final Inner Inner Eq
    (Run.onTree (·.write ((folder.join ⟨db.name⟩).join script.path) script.content.toUTF8))
    (Run.onTree (·.write ((folder.join ⟨db.name⟩).join script.path) script.content.toUTF8))

variable {R Inner : StateRelation}

theorem replays_takeProject (hids : KeptByIds R)
    (hshown : ∀ a a' b, R a a' b → ∀ path ∈ db.includes,
      Project.ShownAlike settings a.tree a'.tree path ∧ Project.ShownAlike settings a.tree b.tree path)
    (hprevious : List.Forall₂ (Project.Alike (IdPair ids others final.issued)) previous previous') :
    Replays final R R (fun project other =>
        project.name = db.name ∧ project.Alike (IdPair ids others final.issued) other)
      (takeProject settings ids previous db) (takeProject settings others previous' db) := by
  refine ⟨advances_takeProject, fun a a' b hr project t hx ht => ?_⟩
  obtain ⟨hassemble, rfl⟩ := exec_takeProject_eq_ok.1 hx
  obtain ⟨ha', hb⟩ := hids.issued_eq a a' b hr
  have hpair : IdPair ids others final.issued (ids a.issued) (others a.issued) :=
    ⟨a.issued, ht.issued_le, rfl, rfl⟩
  have hshown := hshown a a' b hr
  obtain ⟨other, hother, halike⟩ := Project.assemble_alike hprevious hpair
    (fun _ => Project.listFolders_again fun path hp => (hshown path hp).1) hassemble
  have hagain : Project.assemble settings b.tree previous' (others a.issued) db = .ok other := by
    have hfolders := Project.listFolders_of_assemble hassemble
    rw [Project.assemble_congr ((Project.listFolders_again (fun path hp => (hshown path hp).2) hfolders).trans
      (Project.listFolders_again (fun path hp => (hshown path hp).1) hfolders).symm), hother]
  refine ⟨other, _, _, exec_takeProject_eq_ok.2 ⟨by rwa [ha'], rfl⟩,
    exec_takeProject_eq_ok.2 ⟨by rwa [hb], rfl⟩, ⟨Project.name_of_assemble hassemble, halike⟩,
    hids.issue a a' b hr⟩

theorem forM_copyEntry {source target : Path} {entries found : List (List String × FileEntry)}
    (h : List.Forall₂ (fun entry found => entry.1 = found.1 ∧ entry.2.SameKind found.2) entries found) :
    found.forM (copyEntry source target) = entries.forM (copyEntry source target) := by
  induction h with
  | nil => rfl
  | @cons entry other _ _ hfirst _ ih =>
    have hentry : copyEntry source target other = copyEntry source target entry := by
      obtain ⟨rest, kind⟩ := entry
      obtain ⟨rest', kind'⟩ := other
      obtain ⟨rfl, hkind⟩ := hfirst
      cases hkind <;> rfl
    change (copyEntry source target other >>= fun _ => _) = (copyEntry source target entry >>= fun _ => _)
    rw [hentry, ih]

theorem replays_copyInclude {target : Path} {path : String} (hk : Keeps settings folder db final)
    (hpath : path ∈ db.includes)
    (hshown : ∀ a a' b, Inner a a' b →
      Project.ShownAlike settings a.tree a'.tree path ∧ Project.ShownAlike settings a.tree b.tree path)
    (hcopy : ∀ a a' b, Inner a a' b → ∀ source location,
      Project.includeFolder settings a.tree path = .ok (source, location) →
      ∀ rest content, (rest, .file content) ∈ a.tree.below location → Replays final Inner Inner Eq
        (Run.onTree (·.copy (source.joinAll rest) (target.join ⟨"/".intercalate rest⟩)))
        (Run.onTree (·.copy (source.joinAll rest) (target.join ⟨"/".intercalate rest⟩)))) :
    Replays final Inner Inner Eq (copyInclude settings target path)
      (copyInclude settings target path) := by
  refine ⟨advances_copyInclude hk hpath, fun a a' b hr v t hx ht => ?_⟩
  simp only [copyInclude, exec_get_bind, exec_liftM_bind] at hx ⊢
  cases hf : Project.includeFolder settings a.tree path with
  | error e => simp [hf] at hx
  | ok shown =>
    obtain ⟨source, location⟩ := shown
    rw [hf] at hx
    obtain ⟨⟨hf', hlist'⟩, hfb, hlistb⟩ := (hshown a a' b hr).imp (· source location hf) (· source location hf)
    rw [hf', hfb]
    simp only [forM_copyEntry hlist', forM_copyEntry hlistb]
    have hall : Replays final Inner Inner Eq ((a.tree.below location).forM (copyEntry source target))
        ((a.tree.below location).forM (copyEntry source target)) := by
      refine replays_forM fun entry he => ?_
      obtain ⟨rest, found⟩ := entry
      unfold copyEntry
      cases found with
      | file content => exact hcopy a a' b hr source location hf rest content he
      | folder =>
        dsimp only
        split
        · exact replays_pure rfl
        · exact replays_throw
    obtain ⟨v', t', u, ha', hb, -, hi⟩ := hall.replay a a' b hr v t hx ht
    exact ⟨v', t', u, ha', hb, trivial, hi⟩

theorem replays_finishProject {project other : Project} {Pair : String → String → Prop} (hp : Plain Pair)
    (hkept : KeptByProject settings Pair final folder db R Inner) (hname : project.name = db.name)
    (halike : project.Alike Pair other) :
    Replays final R Inner (fun made made' => made.1.Alike Pair made'.1 ∧ made.2 = made'.2)
      (finishProject settings folder db project) (finishProject settings folder db other) := by
  have hname' : other.name = db.name := halike.name_eq.trans hname
  unfold finishProject
  rw [Project.fileName, Project.fileName, hname, hname']
  refine (hkept.descriptor _ _ (halike.descriptor hp)).seq fun _ => ?_
  refine Replays.seq (S := Inner) ?_ fun _ => Replays.seq (S := Inner) ?_ fun _ =>
    Replays.seq (S := Inner) ?_ fun _ => (replays_liftM _).bind ?_ ?_
  · unfold writeComparison
    cases db.comparison with
    | none => exact replays_pure rfl
    | some options =>
      rw [Option.forM, Option.forM, Project.comparisonFileName, Project.comparisonFileName, hname, hname']
      exact hkept.comparison _ _ (halike.comparison hp options)
  · exact replays_forM fun path hpath => replays_copyInclude hkept.keeps hpath
      (fun a a' b hr => hkept.shown a a' b (hkept.inner a a' b hr) path hpath)
      (fun a a' b hr => hkept.copy a a' b hr path hpath)
  · exact replays_forM fun name hn => hkept.package name hn
  · rintro scripts _ ⟨hs, rfl⟩
    exact (replays_forM fun script hm => hkept.script scripts hs script hm).seq fun _ =>
      replays_pure ⟨halike, rfl⟩
  · exact fun scripts => advances_bind (advances_forM fun _ _ => advances_write) fun _ => advances_pure _

/-- Projects side by side are alike. -/
theorem replays_generateProject (hp : Plain (IdPair ids others final.issued)) (hids : KeptByIds R)
    (hkept : KeptByProject settings (IdPair ids others final.issued) final folder db R Inner)
    (hprevious : List.Forall₂ (Project.Alike (IdPair ids others final.issued)) previous previous') :
    Replays final R Inner (fun made made' =>
        made.1.Alike (IdPair ids others final.issued) made'.1 ∧ made.2 = made'.2)
      (generateProject settings ids folder previous db)
      (generateProject settings others folder previous' db) :=
  (replays_takeProject hids hkept.shown hprevious).bind
    (fun _ _ h => replays_finishProject hp hkept h.1 h.2) fun _ => advances_finishProject hkept.keeps

/-- What the projects of a solution and the number of its scripts have in common side by side. -/
def DoneAlike (Pair : String → String → Prop) (done other : List Project × Nat) : Prop :=
  List.Forall₂ (Project.Alike Pair) done.1 other.1 ∧ done.2 = other.2

theorem replays_generateProjects {dbs : List Database} {done other : List Project × Nat}
    (hp : Plain (IdPair ids others final.issued)) (hids : KeptByIds R)
    (hkept : ∀ db ∈ dbs, ∃ Inner,
      KeptByProject settings (IdPair ids others final.issued) final folder db R Inner)
    (hdone : DoneAlike (IdPair ids others final.issued) done other) :
    Replays final R R (DoneAlike (IdPair ids others final.issued))
      (generateProjects settings ids folder done dbs)
      (generateProjects settings others folder other dbs) := by
  refine replays_foldlM hdone (fun db hdb before before' hbefore => ?_) fun before db hdb => by
    obtain ⟨Inner, hinner⟩ := hkept db hdb
    exact advances_bind (advances_generateProject hinner.keeps) fun _ => advances_pure _
  obtain ⟨Inner, hinner⟩ := hkept db hdb
  refine ((replays_generateProject hp hids hinner hbefore.1).mono (fun _ _ _ h => h) hinner.inner).bind
    (fun made made' h => replays_pure ⟨?_, ?_⟩) fun _ => advances_pure _
  · exact List.rel_append hbefore.1 (.cons h.1 .nil)
  · rw [hbefore.2, h.2]

/-- Takes an id. -/
def takeId (ids : Nat → String) : Run String :=
  modifyGet fun state => (ids state.issued, { state with issued := state.issued + 1 })

theorem advances_takeId : (takeId ids).Advances final := fun s ht =>
  ht.before_of_tree_eq (Nat.le_succ s.issued) rfl

theorem replays_takeId (hids : KeptByIds R) :
    Replays final R R (IdPair ids others final.issued) (takeId ids) (takeId others) := by
  refine ⟨advances_takeId, fun a a' b hr guid t hx ht => ?_⟩
  cases hx
  obtain ⟨ha', hb⟩ := hids.issued_eq a a' b hr
  refine ⟨others a.issued, _, _, ?_, ?_, ⟨a.issued, ht.issued_le, rfl, rfl⟩, hids.issue a a' b hr⟩
  · rw [← ha']
    rfl
  · rw [← hb]
    rfl

theorem advances_concludeSolution {name : String} {done : List Project × Nat} :
    (concludeSolution ids folder name done).Advances final := by
  unfold concludeSolution
  split
  · exact advances_pure _
  · refine advances_bind ?_ fun _ => advances_pure _
    exact advances_bind advances_takeId fun _ => advances_bind advances_write fun _ => advances_pure _

theorem replays_writeSolution {name : String} {projects projects' : List Project} (hids : KeptByIds R)
    (hsolution : ∀ text text', Renamed (IdPair ids others final.issued) text text' →
      Replays final R R Eq (Run.onTree (·.write (folder.join ⟨name ++ ".sln"⟩) text.toUTF8))
        (Run.onTree (·.write (folder.join ⟨name ++ ".sln"⟩) text'.toUTF8)))
    (hprojects : List.Forall₂ (Project.Alike (IdPair ids others final.issued)) projects projects') :
    Replays final R R Eq (writeSolution ids folder name projects)
      (writeSolution others folder name projects') := by
  refine (replays_takeId hids).bind (fun guid guid' hg => ?_) fun guid => ?_
  · exact (hsolution _ _ (Solution.renamed_text hg hprojects)).seq fun _ => replays_pure rfl
  · exact advances_bind advances_write fun _ => advances_pure _

theorem replays_concludeSolution {name : String} {done other : List Project × Nat} (hids : KeptByIds R)
    (hsolution : ∀ text text', Renamed (IdPair ids others final.issued) text text' →
      Replays final R R Eq (Run.onTree (·.write (folder.join ⟨name ++ ".sln"⟩) text.toUTF8))
        (Run.onTree (·.write (folder.join ⟨name ++ ".sln"⟩) text'.toUTF8)))
    (hdone : DoneAlike (IdPair ids others final.issued) done other) :
    Replays final R R (SolutionOutput.Alike (IdPair ids others final.issued))
      (concludeSolution ids folder name done) (concludeSolution others folder name other) := by
  obtain ⟨projects, count⟩ := done
  obtain ⟨projects', count'⟩ := other
  obtain ⟨hprojects, hcount⟩ := hdone
  dsimp only at hprojects hcount
  have hempty : projects'.isEmpty = projects.isEmpty := by
    cases hprojects <;> rfl
  unfold concludeSolution
  dsimp only
  rw [hempty, hcount]
  split
  · exact replays_pure ⟨rfl, hprojects⟩
  · exact (replays_writeSolution hids hsolution hprojects).seq fun path => replays_pure ⟨rfl, hprojects⟩

/-- The relation is kept by every file of a solution. -/
structure KeptBySolution (settings : Settings) (Pair : String → String → Prop) (final : Ending)
    (decl : SolutionDecl) (R : StateRelation) : Prop where
  solution : ∀ text text', Renamed Pair text text' → Replays final R R Eq
    (Run.onTree (·.write ((settings.outputFolder.join ⟨decl.name⟩).join ⟨decl.name ++ ".sln"⟩) text.toUTF8))
    (Run.onTree (·.write ((settings.outputFolder.join ⟨decl.name⟩).join ⟨decl.name ++ ".sln"⟩) text'.toUTF8))
  project : ∀ db ∈ projectDatabases decl, ∃ Inner,
    KeptByProject settings Pair final (settings.outputFolder.join ⟨decl.name⟩) db R Inner

/-- Solutions side by side are alike. -/
theorem replays_generateSolution {decl : SolutionDecl} (hp : Plain (IdPair ids others final.issued))
    (hids : KeptByIds R)
    (hkept : (Registry.empty.constructAll decl.databases).1 = .ok () →
      KeptBySolution settings (IdPair ids others final.issued) final decl R) :
    Replays final R R (SolutionOutput.Alike (IdPair ids others final.issued))
      (generateSolution settings ids decl) (generateSolution settings others decl) := by
  cases hok : (Registry.empty.constructAll decl.databases).1 with
  | error e =>
    have hfails : ∀ ids s, (generateSolution settings ids decl).exec s = (.error e, s) := by
      intro ids s
      rw [exec_generateSolution, hok]
    refine ⟨fun s ht => ?_, fun a a' b _ v t hx _ => ?_⟩
    · rwa [hfails] at ht
    · rw [hfails] at hx
      cases hx
  | ok _ =>
    have hruns : ∀ ids s, (generateSolution settings ids decl).exec s =
        (generateProjects settings ids (settings.outputFolder.join ⟨decl.name⟩) ([], 0)
          (projectDatabases decl) >>=
            concludeSolution ids (settings.outputFolder.join ⟨decl.name⟩) decl.name).exec s := by
      intro ids s
      rw [exec_generateSolution, hok]
    have hkept := hkept hok
    have hprojects := @replays_generateProjects settings ids others _ final R _ ([], 0) ([], 0) hp hids
      hkept.project ⟨.nil, rfl⟩
    have hall := hprojects.bind
      (fun done other hd => replays_concludeSolution hids hkept.solution hd)
      fun done => advances_concludeSolution
    refine ⟨fun s ht => ?_, fun a a' b hr v t hx ht => ?_⟩
    · rw [hruns] at ht
      exact hall.advances s ht
    · rw [hruns] at hx
      simp only [hruns]
      exact hall.replay a a' b hr v t hx ht

end Generate

end DatabaseProject
