import DatabaseProject.Proofs.Writing

/-!
# What a run can change

A run is a computation that changes its state as it goes and keeps the changes when it fails. A
`Footprint` says at which places it can make folders, write files and add files; nothing else
changes, no folder or file is ever lost, and that holds up to whatever step an error occurs in.
-/

namespace DatabaseProject

open FileTree

namespace Run

variable {α β : Type} {x : Run α} {f : α → Run β} {s t : RunState} {b : β}

/-- The outcome of a run, and the state that it leaves. -/
def exec (x : Run α) (s : RunState) : Except GenerationError α × RunState := x.run.run s

@[simp] theorem exec_pure (a : α) : (pure a : Run α).exec s = (.ok a, s) := rfl

@[simp] theorem exec_throw (e : GenerationError) : (throw e : Run α).exec s = (.error e, s) := rfl

@[simp] theorem exec_liftM (e : Except GenerationError α) : (liftM e : Run α).exec s = (e, s) := rfl

@[simp] theorem exec_get : (get : Run RunState).exec s = (.ok s, s) := rfl

@[simp] theorem exec_set : (set t : Run PUnit).exec s = (.ok ⟨⟩, t) := rfl

@[simp] theorem exec_modifyGet (f : RunState → α × RunState) :
    (modifyGet f : Run α).exec s = (.ok (f s).1, (f s).2) := rfl

theorem exec_bind : (x >>= f).exec s =
    match x.exec s with
    | (.ok a, t) => (f a).exec t
    | (.error e, t) => (.error e, t) := by
  unfold exec
  rw [ExceptT.run_bind, StateT.run_bind]
  cases x.run.run s with
  | mk result t => cases result <;> rfl

theorem exists_of_isOk (h : (x.exec s).1.isOk = true) : ∃ a, x.exec s = (.ok a, (x.exec s).2) := by
  cases hx : x.exec s with
  | mk result t =>
    cases result with
    | error e => simp [hx, Except.isOk, Except.toBool] at h
    | ok a => exact ⟨a, rfl⟩

theorem exists_of_isOk_eq_false (h : (x.exec s).1.isOk = false) :
    ∃ e, x.exec s = (.error e, (x.exec s).2) := by
  cases hx : x.exec s with
  | mk result t =>
    cases result with
    | error e => exact ⟨e, rfl⟩
    | ok a => simp [hx, Except.isOk, Except.toBool] at h

theorem exec_onTree (change : FileTree → Except GenerationError FileTree) :
    (onTree change).exec s =
      match change s.tree with
      | .ok tree => (.ok (), { s with tree })
      | .error e => (.error e, s) := by
  simp only [onTree, exec_bind, exec_get, exec_liftM, exec_set]
  cases change s.tree <;> rfl

theorem exec_bind_eq_ok : (x >>= f).exec s = (.ok b, t) ↔
    ∃ a middle, x.exec s = (.ok a, middle) ∧ (f a).exec middle = (.ok b, t) := by
  rw [exec_bind]
  cases x.exec s with
  | mk result middle => cases result <;> simp

theorem exec_onTree_eq_ok {change : FileTree → Except GenerationError FileTree} :
    (onTree change).exec s = (.ok (), t) ↔
      change s.tree = .ok t.tree ∧ t.issued = s.issued := by
  rw [exec_onTree]
  cases t
  cases change s.tree <;> simp [eq_comm]

theorem exec_liftM_bind (e : Except GenerationError α) : ((liftM e : Run α) >>= f).exec s =
    match e with
    | .ok a => (f a).exec s
    | .error e => (.error e, s) := by
  rw [exec_bind, exec_liftM]
  cases e <;> rfl

theorem exec_get_bind {f : RunState → Run β} : ((get : Run RunState) >>= f).exec s = (f s).exec s := rfl

section Loop

variable {xs ys : List α} {g : α → Run Unit}

theorem exec_forM_cons {a : α} : ((a :: xs).forM g).exec s = (.ok (), t) ↔
    ∃ middle, (g a).exec s = (.ok (), middle) ∧ (xs.forM g).exec middle = (.ok (), t) := by
  change (g a >>= fun _ => xs.forM g).exec s = (.ok (), t) ↔ _
  rw [exec_bind_eq_ok]
  exact ⟨fun ⟨_, middle, h⟩ => ⟨middle, h⟩, fun ⟨middle, h⟩ => ⟨(), middle, h⟩⟩

theorem exec_forM_append : ((xs ++ ys).forM g).exec s = (.ok (), t) ↔
    ∃ middle, (xs.forM g).exec s = (.ok (), middle) ∧ (ys.forM g).exec middle = (.ok (), t) := by
  induction xs generalizing s with
  | nil =>
    constructor
    · exact fun h => ⟨s, rfl, h⟩
    · rintro ⟨middle, hs, h⟩
      cases hs
      exact h
  | cons a xs ih =>
    rw [List.cons_append]
    simp only [exec_forM_cons, ih]
    constructor
    · rintro ⟨first, ha, middle, hxs, hys⟩
      exact ⟨middle, ⟨first, ha, hxs⟩, hys⟩
    · rintro ⟨middle, ⟨first, ha, hxs⟩, hys⟩
      exact ⟨first, ha, middle, hxs, hys⟩

theorem forM_preserves (Inv : FileTree → Prop)
    (step : ∀ a ∈ xs, ∀ s t, Inv s.tree → (g a).exec s = (.ok (), t) → Inv t.tree)
    (hs : Inv s.tree) (h : (xs.forM g).exec s = (.ok (), t)) : Inv t.tree := by
  induction xs generalizing s with
  | nil =>
    cases h
    exact hs
  | cons a xs ih =>
    rw [List.forall_mem_cons] at step
    obtain ⟨middle, ha, hrest⟩ := exec_forM_cons.1 h
    exact ih step.2 (step.1 s middle hs ha) hrest

/-- What each step of a loop establishes and every step keeps holds behind the loop. -/
theorem forM_establishes (Inv : FileTree → Prop) (Done : α → FileTree → Prop)
    (step : ∀ a ∈ xs, ∀ s t, Inv s.tree → (g a).exec s = (.ok (), t) → Inv t.tree ∧ Done a t.tree)
    (keep : ∀ a ∈ xs, ∀ b ∈ xs, ∀ s t, Inv s.tree → (g b).exec s = (.ok (), t) →
      Done a s.tree → Done a t.tree)
    (hs : Inv s.tree) (h : (xs.forM g).exec s = (.ok (), t)) : ∀ a ∈ xs, Done a t.tree := by
  induction xs generalizing s with
  | nil => simp
  | cons a xs ih =>
    obtain ⟨middle, ha, hrest⟩ := exec_forM_cons.1 h
    obtain ⟨hmiddle, hdone⟩ := step a List.mem_cons_self s middle hs ha
    have hin : ∀ b ∈ xs, b ∈ a :: xs := fun b hb => List.mem_cons_of_mem _ hb
    refine List.forall_mem_cons.2 ⟨?_, ih (fun b hb => step b (hin b hb))
      (fun b hb c hc => keep b (hin b hb) c (hin c hc)) hmiddle hrest⟩
    have hboth : Inv t.tree ∧ Done a t.tree := by
      have hkeep : ∀ b ∈ xs, ∀ s t, Inv s.tree ∧ Done a s.tree → (g b).exec s = (.ok (), t) →
          Inv t.tree ∧ Done a t.tree := fun b hb s t hs hg =>
        ⟨(step b (hin b hb) s t hs.1 hg).1, keep a List.mem_cons_self b (hin b hb) s t hs.1 hg hs.2⟩
      exact forM_preserves (fun tree => Inv tree ∧ Done a tree) hkeep ⟨hmiddle, hdone⟩ hrest
    exact hboth.2

end Loop

end Run

/-- Where a run can make folders, write files, and add files of some content where there is
nothing. -/
structure Footprint where
  made : Location → Prop
  written : Location → Prop
  added : Location → File → Prop

namespace Footprint

/-- One footprint is part of another. -/
structure Le (p q : Footprint) : Prop where
  made : ∀ x, p.made x → q.made x
  written : ∀ x, p.written x → q.written x
  added : ∀ x content, p.added x content → q.added x content

/-- What any of several footprints allows. -/
def any {ι : Type} (indices : List ι) (part : ι → Footprint) : Footprint where
  made x := ∃ i ∈ indices, (part i).made x
  written x := ∃ i ∈ indices, (part i).written x
  added x content := ∃ i ∈ indices, (part i).added x content

theorem le_any {ι : Type} {indices : List ι} {part : ι → Footprint} {i : ι} (h : i ∈ indices) :
    (part i).Le (any indices part) :=
  ⟨fun _ hx => ⟨i, h, hx⟩, fun _ hx => ⟨i, h, hx⟩, fun _ _ hx => ⟨i, h, hx⟩⟩

theorem any_le {ι : Type} {indices : List ι} {part : ι → Footprint} {q : Footprint}
    (h : ∀ i ∈ indices, (part i).Le q) : (any indices part).Le q where
  made := fun x ⟨i, hi, hx⟩ => (h i hi).made x hx
  written := fun x ⟨i, hi, hx⟩ => (h i hi).written x hx
  added := fun x content ⟨i, hi, hx⟩ => (h i hi).added x content hx

/-- Writes at some places only, and makes and adds anything. -/
def writing (place : Location → Prop) : Footprint := ⟨fun _ => True, place, fun _ _ => True⟩

theorem le_writing {p : Footprint} {place : Location → Prop} (h : ∀ x, p.written x → place x) :
    p.Le (writing place) :=
  ⟨fun _ _ => trivial, h, fun _ _ _ => trivial⟩

/-- Everything below a folder, and folders on the way to it. -/
def below (here : Location) (base : Path) : Footprint where
  made x := x ∈ base.way here ∨ ∃ place rest, base.target? here = some place ∧ x = place ++ rest
  written x := ∃ place rest, base.target? here = some place ∧ rest ≠ [] ∧ x = place ++ rest
  added x _ := ∃ place rest, base.target? here = some place ∧ rest ≠ [] ∧ x = place ++ rest

end Footprint

/-- What can have become of a place. -/
inductive Change (p : Footprint) (x : Location) : Option FileEntry → Option FileEntry → Prop
  | same (entry : Option FileEntry) : Change p x entry entry
  | made : p.made x → Change p x none (some .folder)
  | written {entry : Option FileEntry} (content : File) : p.written x →
      entry ≠ some .folder → Change p x entry (some (.file content))
  | added (content : File) : p.added x content → Change p x none (some (.file content))

namespace Change

variable {p q : Footprint} {x : Location} {a b c : Option FileEntry}

theorem trans (hab : Change p x a b) (hbc : Change p x b c) : Change p x a c := by
  cases hab with
  | same => exact hbc
  | made h =>
    cases hbc with
    | same => exact .made h
    | written content hw hne => exact absurd rfl hne
  | written content h hne =>
    cases hbc with
    | same => exact .written content h hne
    | written later _ _ => exact .written later h hne
  | added content h =>
    cases hbc with
    | same => exact .added content h
    | written later hw _ => exact .written later hw (by simp)

theorem mono (h : Change p x a b) (hle : p.Le q) : Change q x a b := by
  cases h with
  | same => exact .same a
  | made h => exact .made (hle.made x h)
  | written content h hne => exact .written content (hle.written x h) hne
  | added content h => exact .added content (hle.added x content h)

theorem folder (h : Change p x (some .folder) b) : b = some .folder := by
  cases h with
  | same => rfl
  | written content h hne => exact absurd rfl hne

theorem file {content : File} (h : Change p x (some (.file content)) b) :
    ∃ later, b = some (.file later) := by
  cases h with
  | same => exact ⟨content, rfl⟩
  | written later => exact ⟨later, rfl⟩

end Change

/-- All changes from one tree to another are within a footprint. -/
structure ChangedWithin (p : Footprint) (old new : FileTree) : Prop where
  workingFolder_eq : new.workingFolder = old.workingFolder
  change : ∀ x, Change p x (old.get? x) (new.get? x)

namespace ChangedWithin

variable {p q : Footprint} {old new later : FileTree} {x place : Location} {path base : Path}
  {content : File}

theorem refl (tree : FileTree) : ChangedWithin p tree tree := ⟨rfl, fun _ => .same _⟩

theorem trans (h : ChangedWithin p old new) (h' : ChangedWithin p new later) :
    ChangedWithin p old later :=
  ⟨h'.workingFolder_eq.trans h.workingFolder_eq, fun x => (h.change x).trans (h'.change x)⟩

theorem mono (h : ChangedWithin p old new) (hle : p.Le q) : ChangedWithin q old new :=
  ⟨h.workingFolder_eq, fun x => (h.change x).mono hle⟩

theorem folder (h : ChangedWithin p old new) (hx : old.get? x = some .folder) :
    new.get? x = some .folder := by
  have hc := h.change x
  rw [hx] at hc
  exact hc.folder

theorem file (h : ChangedWithin p old new) (hx : old.get? x = some (.file content)) :
    ∃ later, new.get? x = some (.file later) := by
  have hc := h.change x
  rw [hx] at hc
  exact hc.file

theorem hasFolder (h : ChangedWithin p old new) (hf : old.HasFolder base place) :
    new.HasFolder base place where
  target_eq := by rw [h.workingFolder_eq, hf.target_eq]
  folders x hx := by
    rw [h.workingFolder_eq] at hx
    exact h.folder (hf.folders x hx)

theorem get?_of_file (h : ChangedWithin p old new) (hx : old.get? x = some (.file content))
    (hw : ¬ p.written x) : new.get? x = some (.file content) := by
  have hc := h.change x
  rw [hx] at hc
  generalize hn : new.get? x = now at hc
  cases hc with
  | same => rfl
  | written later hp => exact absurd hp hw

/-- A file is still read as it was when its place is not written. -/
theorem read?_eq (h : ChangedWithin p old new) (hr : old.read? path = some content)
    (hw : ∀ place, path.target? old.workingFolder = some place → ¬ p.written place) :
    new.read? path = some content := by
  obtain ⟨place, hl, hg⟩ := read?_eq_some.1 hr
  exact read?_eq_some.2 ⟨place, locate?_mono hl h.workingFolder_eq fun x _ => h.folder,
    h.get?_of_file hg (hw place (target?_of_locate? hl))⟩

/-- Where nothing is written or added there are the same files. -/
theorem fileAt?_eq (h : ChangedWithin p old new) (hw : ¬ p.written x)
    (ha : ∀ content, ¬ p.added x content) : new.fileAt? x = old.fileAt? x := by
  have hc := h.change x
  unfold fileAt?
  generalize old.get? x = before at hc
  generalize new.get? x = now at hc
  cases hc with
  | same => rfl
  | made => rfl
  | written later hp => exact absurd hp hw
  | added later hp => exact absurd hp (ha later)

theorem get?_eq (h : ChangedWithin p old new) (hm : ¬ p.made x) (hw : ¬ p.written x)
    (ha : ∀ content, ¬ p.added x content) : new.get? x = old.get? x := by
  have hc := h.change x
  generalize old.get? x = before at hc ⊢
  generalize new.get? x = now at hc ⊢
  cases hc with
  | same => rfl
  | made hp => exact absurd hp hm
  | written later hp => exact absurd hp hw
  | added later hp => exact absurd hp (ha later)

/-- Outside of a folder there are the same files. -/
theorem fileAt?_outside {here : Location} (h : ChangedWithin (.below here base) old new)
    (hx : ¬ (Footprint.below here base).written x) : new.fileAt? x = old.fileAt? x :=
  h.fileAt?_eq hx fun _ => hx

/-- Outside of a folder, and of the way to it, nothing changes. -/
theorem get?_outside {here : Location} (h : ChangedWithin (.below here base) old new)
    (hx : ¬ (Footprint.below here base).made x) : new.get? x = old.get? x := by
  refine h.get?_eq hx ?_ fun _ => ?_
  · exact fun ⟨place, rest, ht, _, he⟩ => hx (.inr ⟨place, rest, ht, he⟩)
  · exact fun ⟨place, rest, ht, _, he⟩ => hx (.inr ⟨place, rest, ht, he⟩)

end ChangedWithin

namespace FileTree

variable {p : Footprint} {old new : FileTree} {way : List Location} {place : Location}
  {content : File}

theorem Placed.change_of_ne (h : Placed way place content old new) {x : Location} (hx : x ≠ place)
    (hw : x ∈ way → p.made x) : Change p x (old.get? x) (new.get? x) := by
  rw [h.get?_eq, if_neg hx]
  by_cases hm : x ∈ way
  · rw [if_pos hm]
    cases ho : old.get? x with
    | none => exact .made (hw hm)
    | some entry =>
      cases entry with
      | file content => exact absurd ho (h.way_free x hm content)
      | folder => exact .same _
  · rw [if_neg hm]
    exact .same _

theorem Placed.changedWithin (h : Placed way place content old new)
    (hw : ∀ x ∈ way, p.made x) (hp : p.written place) : ChangedWithin p old new := by
  refine ⟨h.workingFolder_eq, fun x => ?_⟩
  by_cases hx : x = place
  · rw [hx, h.get?_place]
    exact .written content hp h.place_free
  · exact h.change_of_ne hx (hw x)

theorem Placed.changedWithin_of_none (h : Placed way place content old new)
    (hn : old.get? place = none) (hw : ∀ x ∈ way, p.made x) (hp : p.added place content) :
    ChangedWithin p old new := by
  refine ⟨h.workingFolder_eq, fun x => ?_⟩
  by_cases hx : x = place
  · rw [hx, h.get?_place, hn]
    exact .added content hp
  · exact h.change_of_ne hx (hw x)

/-- A well-formed tree with a working folder. -/
structure Rooted (here : Location) (tree : FileTree) : Prop extends WellFormed tree where
  workingFolder_eq : tree.workingFolder = here

/-- A well-formed tree where a path leads to a folder. -/
structure Holding (here : Location) (path : Path) (folder : Location) (tree : FileTree) : Prop
    extends Rooted here tree, HasFolder tree path folder

end FileTree

namespace Run

variable {α β σ : Type} {Inv : FileTree → Prop} {p q : Footprint} {x : Run α} {f : α → Run β}

/-- Started in a tree of some kind, a run leaves one of the kind, and whatever its outcome is, all
changes are within a footprint. -/
def Within (Inv : FileTree → Prop) (p : Footprint) (x : Run α) : Prop :=
  ∀ s, Inv s.tree → Inv (x.exec s).2.tree ∧ ChangedWithin p s.tree (x.exec s).2.tree

theorem Within.of_exec {r : Except GenerationError α} {s t : RunState} (h : x.Within Inv p)
    (hs : Inv s.tree) (hx : x.exec s = (r, t)) : Inv t.tree ∧ ChangedWithin p s.tree t.tree := by
  have hafter := h s hs
  rwa [hx] at hafter

theorem Within.mono (h : x.Within Inv p) (hle : p.Le q) : x.Within Inv q := fun s hs =>
  ⟨(h s hs).1, (h s hs).2.mono hle⟩

theorem within_of_tree_eq (h : ∀ s, (x.exec s).2.tree = s.tree) : x.Within Inv p := by
  intro s hs
  rw [h]
  exact ⟨hs, .refl _⟩

/-- What no change within the footprint touches can be added to what holds of the trees. -/
theorem Within.and {Also : FileTree → Prop} (h : x.Within Inv p)
    (ha : ∀ old new, Also old → ChangedWithin p old new → Also new) :
    x.Within (fun tree => Inv tree ∧ Also tree) p := fun s hs =>
  ⟨⟨(h s hs.1).1, ha _ _ hs.2 (h s hs.1).2⟩, (h s hs.1).2⟩

theorem within_pure (a : α) : (pure a : Run α).Within Inv p := within_of_tree_eq fun _ => rfl

theorem within_liftM (e : Except GenerationError α) : (liftM e : Run α).Within Inv p :=
  within_of_tree_eq fun _ => rfl

/-- What follows a step may count on more than holds of all trees. -/
theorem Within.bind_of (hx : x.Within Inv p)
    (hf : ∀ s a t, Inv s.tree → x.exec s = (.ok a, t) → ∃ Inner : FileTree → Prop,
      Inner t.tree ∧ (∀ tree, Inner tree → Inv tree) ∧ (f a).Within Inner p) :
    (x >>= f).Within Inv p := by
  intro s hs
  obtain ⟨ht, hchanged⟩ := hx s hs
  rw [exec_bind]
  cases h : x.exec s with
  | mk result t =>
    rw [h] at ht hchanged
    cases result with
    | error e => exact ⟨ht, hchanged⟩
    | ok a =>
      obtain ⟨Inner, hinner, hi, hrest⟩ := hf s a t hs h
      obtain ⟨hr, hc⟩ := hrest t hinner
      exact ⟨hi _ hr, hchanged.trans hc⟩

theorem Within.bind (hx : x.Within Inv p)
    (hf : ∀ s a t, Inv s.tree → x.exec s = (.ok a, t) → (f a).Within Inv p) :
    (x >>= f).Within Inv p := by
  refine hx.bind_of fun s a t hs h => ⟨Inv, ?_, fun _ => id, hf s a t hs h⟩
  have ht := (hx s hs).1
  rwa [h] at ht

theorem within_onTree {change : FileTree → Except GenerationError FileTree}
    (h : ∀ tree new, Inv tree → change tree = .ok new → Inv new ∧ ChangedWithin p tree new) :
    (onTree change).Within Inv p := by
  intro s hs
  rw [exec_onTree]
  cases hc : change s.tree with
  | error e => exact ⟨hs, .refl _⟩
  | ok new => exact h s.tree new hs hc

theorem within_forM {xs : List α} {g : α → Run Unit} (h : ∀ a ∈ xs, (g a).Within Inv p) :
    (xs.forM g).Within Inv p := by
  induction xs with
  | nil => exact within_pure ()
  | cons a xs ih =>
    rw [List.forall_mem_cons] at h
    exact h.1.bind fun _ _ _ _ _ => ih h.2

theorem within_foldlM {xs : List α} {g : σ → α → Run σ} {init : σ}
    (h : ∀ a ∈ xs, ∀ b, (g b a).Within Inv p) : (xs.foldlM g init).Within Inv p := by
  induction xs generalizing init with
  | nil => exact within_pure init
  | cons a xs ih =>
    rw [List.forall_mem_cons] at h
    exact (h.1 init).bind fun _ _ _ _ _ => ih h.2

theorem within_mapM {xs : List α} {g : α → Run β} (h : ∀ a ∈ xs, (g a).Within Inv p) :
    (xs.mapM g).Within Inv p := by
  induction xs with
  | nil => exact within_pure []
  | cons a xs ih =>
    rw [List.forall_mem_cons] at h
    rw [List.mapM_cons]
    exact h.1.bind fun _ _ _ _ _ => (ih h.2).bind fun _ _ _ _ _ => within_pure _

end Run

end DatabaseProject
