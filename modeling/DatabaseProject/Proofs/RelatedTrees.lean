import DatabaseProject.Proofs.Footprint
import DatabaseProject.Proofs.Renaming

/-!
# The same operation in two trees

Whether an operation is possible only depends on which files and folders there are, and not on what
the files hold. So what one tree allows a tree that covers it allows as well; and trees that are the
same up to ids stay so when the same is done to both.
-/

namespace DatabaseProject

open FileTree Outcome

/-- Two files, or two folders. -/
inductive FileEntry.SameKind : FileEntry → FileEntry → Prop
  | folder : SameKind .folder .folder
  | file (content other : File) : SameKind (.file content) (.file other)

namespace FileEntry.SameKind

variable {entry other third : FileEntry}

theorem refl (entry : FileEntry) : entry.SameKind entry := by
  cases entry with
  | folder => exact .folder
  | file content => exact .file content content

theorem symm (h : entry.SameKind other) : other.SameKind entry := by
  cases h with
  | folder => exact .folder
  | file content later => exact .file later content

theorem trans (h : entry.SameKind other) (h' : other.SameKind third) : entry.SameKind third := by
  cases h with
  | folder => exact h'
  | file content =>
    cases h' with
    | file => exact .file _ _

theorem eq_folder_iff (h : entry.SameKind other) : entry = .folder ↔ other = .folder := by
  cases h <;> simp

end FileEntry.SameKind

namespace FileTree

variable {tree other third old new old' new' : FileTree} {x place location : Location}
  {way : List Location} {path parent source target : Path} {content content' : File}

/-- Whatever is in one tree has something of its kind in its place in the other one. -/
structure CoveredBy (tree other : FileTree) : Prop where
  workingFolder_eq : other.workingFolder = tree.workingFolder
  entries : ∀ x entry, tree.get? x = some entry → ∃ found, other.get? x = some found ∧ entry.SameKind found

namespace CoveredBy

theorem refl (tree : FileTree) : tree.CoveredBy tree := ⟨rfl, fun _ entry h => ⟨entry, h, .refl entry⟩⟩

theorem trans (h : tree.CoveredBy other) (h' : other.CoveredBy third) : tree.CoveredBy third where
  workingFolder_eq := h'.workingFolder_eq.trans h.workingFolder_eq
  entries x entry hx := by
    obtain ⟨found, hf, hk⟩ := h.entries x entry hx
    obtain ⟨last, hl, hk'⟩ := h'.entries x found hf
    exact ⟨last, hl, hk.trans hk'⟩

theorem folder (h : tree.CoveredBy other) (hx : tree.get? x = some .folder) :
    other.get? x = some .folder := by
  obtain ⟨found, hf, hk⟩ := h.entries x _ hx
  rw [hf, hk.eq_folder_iff.1 rfl]

theorem file (h : tree.CoveredBy other) (hx : tree.get? x = some (.file content)) :
    ∃ later, other.get? x = some (.file later) := by
  obtain ⟨found, hf, hk⟩ := h.entries x _ hx
  cases hk
  exact ⟨_, hf⟩

theorem locate? (h : tree.CoveredBy other) (hl : tree.locate? path = some place) :
    other.locate? path = some place :=
  locate?_mono hl h.workingFolder_eq fun _ _ => h.folder

theorem exists? (h : tree.CoveredBy other) (he : tree.exists? path = true) : other.exists? path = true := by
  obtain ⟨place, entry, hl, hg⟩ := exists?_iff.1 he
  obtain ⟨found, hf, -⟩ := h.entries place entry hg
  exact exists?_iff.2 ⟨place, found, h.locate? hl, hf⟩

theorem read? (h : tree.CoveredBy other) (hr : tree.read? path = some content) :
    ∃ place later, tree.locate? path = some place ∧ tree.get? place = some (.file content) ∧
      other.get? place = some (.file later) ∧ other.read? path = some later := by
  obtain ⟨place, hl, hg⟩ := read?_eq_some.1 hr
  obtain ⟨later, hf⟩ := h.file hg
  exact ⟨place, later, hl, hg, hf, read?_eq_some.2 ⟨place, h.locate? hl, hf⟩⟩

theorem hasFolder (h : tree.CoveredBy other) (hf : tree.HasFolder path place) :
    other.HasFolder path place where
  target_eq := by rw [h.workingFolder_eq, hf.target_eq]
  folders x hx := by
    rw [h.workingFolder_eq] at hx
    exact h.folder (hf.folders x hx)

theorem home (h : tree.CoveredBy other) (hh : tree.get? tree.workingFolder = some .folder) :
    other.get? other.workingFolder = some .folder := by
  rw [h.workingFolder_eq]
  exact h.folder hh

end CoveredBy

/-- Trees with files and folders in the same places. -/
structure SameShape (tree other : FileTree) : Prop where
  workingFolder_eq : other.workingFolder = tree.workingFolder
  kinds : ∀ x, Option.Rel FileEntry.SameKind (tree.get? x) (other.get? x)

theorem SameShape.refl (tree : FileTree) : SameShape tree tree := by
  refine ⟨rfl, fun x => ?_⟩
  cases tree.get? x with
  | none => exact .none
  | some entry => exact .some (.refl entry)

theorem SameShape.covered (h : SameShape tree other) : tree.CoveredBy other := by
  refine ⟨h.workingFolder_eq, fun x entry hx => ?_⟩
  have hk := h.kinds x
  rw [hx] at hk
  generalize other.get? x = found at hk ⊢
  cases hk with
  | some hk => exact ⟨_, rfl, hk⟩

theorem SameShape.covers (h : SameShape tree other) : other.CoveredBy tree := by
  refine ⟨h.workingFolder_eq.symm, fun x entry hx => ?_⟩
  have hk := h.kinds x
  rw [hx] at hk
  generalize tree.get? x = found at hk ⊢
  cases hk with
  | some hk => exact ⟨_, rfl, hk.symm⟩

/-- A tree can become another one: nothing is lost, and a file that must not be written over stays as it
is. -/
structure KeptBy (old new : FileTree) : Prop extends CoveredBy old new where
  locked : ∀ x, old.isReadOnly x = true → new.get? x = old.get? x

theorem KeptBy.refl (tree : FileTree) : tree.KeptBy tree := ⟨.refl tree, fun _ _ => rfl⟩

theorem KeptBy.trans (h : tree.KeptBy other) (h' : other.KeptBy third) : tree.KeptBy third := by
  refine ⟨h.toCoveredBy.trans h'.toCoveredBy, fun x hx => ?_⟩
  have hother : other.isReadOnly x = true := (isReadOnly_congr (h.locked x hx)).trans hx
  exact (h'.locked x hother).trans (h.locked x hx)

theorem keptBy_put {entry : FileEntry} (hroot : place ≠ []) (hopen : tree.isReadOnly place = false)
    (h : ∀ found, tree.get? place = some found → found.SameKind entry) :
    tree.KeptBy (tree.put place entry) := by
  refine ⟨⟨rfl, fun x found hx => ?_⟩, fun x hx => ?_⟩
  · rw [get?_put hroot]
    by_cases he : x = place
    · subst he
      exact ⟨entry, if_pos rfl, h found hx⟩
    · exact ⟨found, (if_neg he).trans hx, .refl found⟩
  · rw [get?_put hroot, if_neg]
    rintro rfl
    rw [hopen] at hx
    cases hx

/-- Where folders are made, what there is stays. -/
theorem get?_of_makeFrom? {fields : List String} {last : Location} {entry : FileEntry}
    (h : tree.makeFrom? location fields = some (new, last)) (hx : tree.get? x = some entry) :
    new.get? x = some entry := by
  induction fields generalizing tree location with
  | nil =>
    cases h
    exact hx
  | cons field fields ih =>
    unfold makeFrom? at h
    obtain ⟨next, -, h⟩ := Option.bind_eq_some_iff.1 h
    split at h
    · exact ih h hx
    · cases h
    · rename_i hnone
      refine ih h ?_
      rw [get?_put (ne_root_of_get?_eq_none hnone), if_neg, hx]
      rintro rfl
      rw [hnone] at hx
      cases hx

theorem workingFolder_makeFrom? {fields : List String} {last : Location}
    (h : tree.makeFrom? location fields = some (new, last)) : new.workingFolder = tree.workingFolder := by
  induction fields generalizing tree location with
  | nil =>
    cases h
    rfl
  | cons field fields ih =>
    unfold makeFrom? at h
    obtain ⟨next, -, h⟩ := Option.bind_eq_some_iff.1 h
    split at h
    · exact ih h
    · cases h
    · exact (ih h).trans rfl

theorem keptBy_makeFrom? {fields : List String} {last : Location}
    (h : tree.makeFrom? location fields = some (new, last)) : tree.KeptBy new := by
  refine ⟨⟨workingFolder_makeFrom? h, fun x entry hx => ⟨entry, get?_of_makeFrom? h hx, .refl entry⟩⟩, ?_⟩
  intro x hx
  obtain ⟨content, hget, -⟩ := isReadOnly_eq_true.1 hx
  rw [hget, get?_of_makeFrom? h hget]

theorem keptBy_storeAt (h : tree.storeAt location path content = .ok new) : tree.KeptBy new := by
  obtain ⟨name, -, -, -, -, hfree, hopen, rfl⟩ := storeAt_eq_ok.1 h
  refine keptBy_put (ne_root_of_get?_ne_folder hfree) hopen fun found hf => ?_
  cases found with
  | folder => exact absurd hf hfree
  | file old => exact .file old content

theorem keptBy_store (h : tree.store parent path content = .ok new) : tree.KeptBy new := by
  obtain ⟨⟨made, folder⟩, hm, hs⟩ := bind_eq_ok.1 h
  exact (keptBy_makeFrom? (makeFolder_eq_ok.1 hm).2).trans (keptBy_storeAt hs)

theorem keptBy_copy (h : tree.copy source target = .ok new) : tree.KeptBy new := by
  obtain ⟨⟨made, folder⟩, hm, h⟩ := bind_eq_ok.1 h
  refine (keptBy_makeFrom? (makeFolder_eq_ok.1 hm).2).trans ?_
  dsimp only at h
  split at h
  · obtain ⟨emptied, he, hs⟩ := bind_eq_ok.1 h
    exact (keptBy_storeAt he).trans (keptBy_storeAt hs)
  · cases h

/-- A file that can be written over still can be when another one is stored that can be, too. -/
theorem isReadOnly_store (h : old.store parent path content = .ok new) (hc : content.readOnly = false)
    (hx : old.get? x = some (.file content')) (hc' : content'.readOnly = false) :
    new.isReadOnly x = false := by
  obtain ⟨⟨made, folder⟩, hm, hs⟩ := bind_eq_ok.1 h
  have hmade := get?_of_makeFrom? (makeFolder_eq_ok.1 hm).2 hx
  obtain ⟨name, -, -, -, -, hfree, -, rfl⟩ := storeAt_eq_ok.1 hs
  have hget := @get?_put made x (.file content) _ (ne_root_of_get?_ne_folder hfree)
  split at hget
  · rw [isReadOnly_of_get? hget, hc]
  · rw [isReadOnly_of_get? (hget.trans hmade), hc']

/-- What is read elsewhere stays when there comes another file to a place that has one. -/
theorem read?_put_file (hroot : place ≠ []) (h : (tree.put place (.file content)).read? path = some content')
    (hne : content' ≠ content) (other : File) :
    (tree.put place (.file other)).read? path = some content' := by
  obtain ⟨origin, hl, hg⟩ := read?_eq_some.1 h
  have horigin : origin ≠ place := by
    intro he
    rw [he, get?_put hroot, if_pos rfl] at hg
    cases hg
    exact hne rfl
  rw [get?_put hroot, if_neg horigin] at hg
  refine read?_eq_some.2 ⟨origin, locate?_mono hl rfl fun x _ hx => ?_, ?_⟩
  · rw [get?_put hroot] at hx ⊢
    split at hx
    · cases hx
    · rename_i hplace
      rw [if_neg hplace, hx]
  · rw [get?_put hroot, if_neg horigin, hg]

/-- A file that can be written over only becomes read-only when a read-only file is copied. -/
theorem read?_of_isReadOnly_copy (h : old.copy source target = .ok new)
    (hx : old.get? x = some (.file content)) (hc : content.readOnly = false)
    (hn : new.isReadOnly x = true) : ∃ copied, new.read? source = some copied ∧ copied.readOnly = true := by
  obtain ⟨⟨made, folder⟩, hm, h⟩ := bind_eq_ok.1 h
  have hmade := get?_of_makeFrom? (makeFolder_eq_ok.1 hm).2 hx
  dsimp only at h
  split at h
  · obtain ⟨emptied, he, hs⟩ := bind_eq_ok.1 h
    obtain ⟨name, hname, -, -, -, hfree, -, rfl⟩ := storeAt_eq_ok.1 he
    obtain ⟨other, hother, -, -, -, -, -, rfl⟩ := storeAt_eq_ok.1 hs
    obtain rfl : name = other := Option.some.inj (hname.symm.trans hother)
    have hroot := ne_root_of_get?_ne_folder hfree
    have hget := @get?_put made x (.file (((made.put (folder ++ [name]) (.file .empty)).read? source).getD .empty))
      _ hroot
    rw [put_put] at hn ⊢
    split at hget
    · rw [isReadOnly_of_get? hget] at hn
      cases hr : (made.put (folder ++ [name]) (.file .empty)).read? source with
      | none =>
        rw [hr] at hn
        cases hn
      | some copied =>
        rw [hr, Option.getD_some] at hn
        have hne : copied ≠ .empty := by
          intro he
          rw [he] at hn
          cases hn
        exact ⟨copied, read?_put_file hroot hr hne copied, hn⟩
    · rw [isReadOnly_of_get? (hget.trans hmade), hc] at hn
      cases hn
  · cases h

/-- Where two trees both have something, it is of one kind. -/
def Compatible (tree other : FileTree) : Prop :=
  ∀ x entry found, tree.get? x = some entry → other.get? x = some found → entry.SameKind found

theorem CoveredBy.compatible (h : tree.CoveredBy other) : Compatible tree other := by
  intro x entry found ht ho
  obtain ⟨later, hl, hk⟩ := h.entries x entry ht
  rwa [Option.some.inj (ho.symm.trans hl)]

/-- Where two trees can both come to a third one, nothing in them clashes. -/
theorem CoveredBy.compatible_of_common (h : tree.CoveredBy third) (h' : other.CoveredBy third) :
    Compatible tree other := by
  intro x entry found ht ho
  obtain ⟨later, hl, hk⟩ := h.entries x entry ht
  exact hk.trans (h'.compatible x found later ho hl).symm

theorem Placed.free_of_compatible (h : Placed way place content old new) (hc : Compatible new other) :
    (∀ x ∈ way, ∀ content, other.get? x ≠ some (.file content)) ∧ other.get? place ≠ some .folder := by
  constructor
  · intro x hx content ho
    cases hc x _ _ (h.folder_of_mem hx) ho
  · intro ho
    cases hc place _ _ h.get?_place ho

/-- Where a file has been placed in a tree, another tree has none that must not be written over. -/
def OpenWhere (placed? : Option (List Location × Location)) (old new other : FileTree) : Prop :=
  ∀ way place content, placed? = some (way, place) → Placed way place content old new →
    other.isReadOnly place = false

/-- What has been stored in one tree can be stored in another one that has nothing against it. -/
theorem store_again (hh : old.get? old.workingFolder = some .folder)
    (hh' : old'.get? old'.workingFolder = some .folder) (hw : old'.workingFolder = old.workingFolder)
    (h : old.store parent path content = .ok new) (hc : Compatible new old')
    (ho : OpenWhere (path.placeIn? old.workingFolder parent) old new old') (content' : File) :
    ∃ way place new', path.placeIn? old.workingFolder parent = some (way, place) ∧
      Placed way place content old new ∧ old'.store parent path content' = .ok new' ∧
      Placed way place content' old' new' := by
  obtain ⟨way, place, hp, hplaced⟩ := store_eq_ok hh h
  obtain ⟨hway, hplace⟩ := hplaced.free_of_compatible hc
  have hp' := hp
  rw [← hw] at hp'
  obtain ⟨new', hn⟩ := @store_isOk _ _ _ _ content' _ hh' hp' hway hplace (ho _ _ _ hp hplaced)
    hplaced.place_not_mem
  obtain ⟨way', place', hp'', hplaced'⟩ := store_eq_ok hh' hn
  cases hp'.symm.trans hp''
  exact ⟨way, place, new', hp, hplaced, hn, hplaced'⟩

/-- The same for copies, where the other tree has the folders on the way to the copied file, and a file
in its place. It need not hold the same. -/
theorem copy_beside (hh : old.get? old.workingFolder = some .folder)
    (hh' : old'.get? old'.workingFolder = some .folder) (hw : old'.workingFolder = old.workingFolder)
    (h : old.copy source target = .ok new) (hc : Compatible new old')
    (ho : OpenWhere (target.place? old.workingFolder) old new old')
    (hfolders : ∀ x ∈ source.way old.workingFolder, old.get? x = some .folder → old'.get? x = some .folder)
    (hfile : ∀ origin content, source.target? old.workingFolder = some origin →
      old.get? origin = some (.file content) → ∃ later, old'.get? origin = some (.file later)) :
    ∃ way place origin original original' new', target.place? old.workingFolder = some (way, place) ∧
      source.target? old.workingFolder = some origin ∧
      old.get? origin = some (.file original) ∧ old'.get? origin = some (.file original') ∧
      Placed way place (if origin = place then .empty else original) old new ∧
      old'.copy source target = .ok new' ∧
      Placed way place (if origin = place then .empty else original') old' new' := by
  obtain ⟨way, place, made, origin, original, hp, hmade, hl, horiginal, hplaced⟩ := copy_eq_ok hh h
  obtain ⟨hway, hplace⟩ := hplaced.free_of_compatible hc
  have ht := target?_of_locate? hl
  rw [hmade.workingFolder_eq] at ht
  obtain ⟨original', horiginal'⟩ := hfile origin original ht horiginal
  have hlocate : ∀ made', FoldersMade way old' made' → made'.locate? source = some origin := by
    intro made' hm
    refine locate?_mono hl ?_ fun x hsource hx => ?_
    · rw [hm.workingFolder_eq, hmade.workingFolder_eq, hw]
    · rw [hmade.workingFolder_eq] at hsource
      rw [hmade.get?_eq] at hx
      rw [hm.get?_eq]
      split at hx
      · rename_i hmem
        rw [if_pos hmem]
      · rename_i hmem
        rw [if_neg hmem]
        exact hfolders x hsource hx
  have hp' := hp
  rw [← hw] at hp'
  obtain ⟨new', hn⟩ : ∃ new', old'.copy source target = .ok new' := by
    refine copy_isOk hh' hp' hway hplace (ho _ _ _ hp hplaced) hplaced.place_not_mem fun made' hm =>
      isFile_iff.2 ⟨original', ?_⟩
    refine read?_eq_some.2 ⟨origin, hlocate made' hm, ?_⟩
    rw [hm.get?_eq, if_neg fun hmem => hmade.free origin hmem original horiginal, horiginal']
  obtain ⟨way', place', made', origin', found, hp'', hm, hl', hfound, hplaced'⟩ := copy_eq_ok hh' hn
  cases hp'.symm.trans hp''
  obtain rfl := Option.some.inj ((hlocate made' hm).symm.trans hl')
  obtain rfl : found = original' := FileEntry.file.inj (Option.some.inj (hfound.symm.trans horiginal'))
  exact ⟨way, place, origin, original, found, new', hp, ht, horiginal, horiginal', hplaced, hn, hplaced'⟩

theorem copy_again (hh : old.get? old.workingFolder = some .folder)
    (hh' : old'.get? old'.workingFolder = some .folder)
    (h : old.copy source target = .ok new) (hcov : old.CoveredBy old') (hc : Compatible new old')
    (ho : OpenWhere (target.place? old.workingFolder) old new old') :
    ∃ way place origin original original' new', target.place? old.workingFolder = some (way, place) ∧
      source.target? old.workingFolder = some origin ∧
      old.get? origin = some (.file original) ∧ old'.get? origin = some (.file original') ∧
      Placed way place (if origin = place then .empty else original) old new ∧
      old'.copy source target = .ok new' ∧
      Placed way place (if origin = place then .empty else original') old' new' :=
  copy_beside hh hh' hcov.workingFolder_eq h hc ho (fun _ _ => hcov.folder) fun _ _ _ => hcov.file

end FileTree

theorem ChangedWithin.covered {p : Footprint} {old new : FileTree} (h : ChangedWithin p old new) :
    old.CoveredBy new := by
  refine ⟨h.workingFolder_eq, fun x entry hx => ?_⟩
  cases entry with
  | folder => exact ⟨_, h.folder hx, .folder⟩
  | file content =>
    obtain ⟨later, hlater⟩ := h.file hx
    exact ⟨_, hlater, .file _ _⟩

/-- Two folders, or two files that differ only in ids. -/
inductive FileEntry.Alike (Pair : String → String → Prop) : FileEntry → FileEntry → Prop
  | same (entry : FileEntry) : Alike Pair entry entry
  | text {text text' : String} : Renamed Pair text text' →
      Alike Pair (.file text.toUTF8) (.file text'.toUTF8)

theorem FileEntry.Alike.mono {Pair Wide : String → String → Prop} {entry other : FileEntry}
    (h : entry.Alike Pair other) (hle : ∀ id other, Pair id other → Wide id other) :
    entry.Alike Wide other := by
  cases h with
  | same => exact .same _
  | text ht => exact .text (ht.mono hle)

theorem FileEntry.Alike.sameKind {Pair : String → String → Prop} {entry other : FileEntry}
    (h : entry.Alike Pair other) : entry.SameKind other := by
  cases h with
  | same => exact .refl entry
  | text => exact .file _ _

namespace FileTree

variable {Pair : String → String → Prop} {tree other old new old' new' : FileTree} {x place : Location}
  {way : List Location} {path parent source target : Path} {content content' : File}

theorem isReadOnly_eq_of_rel (h : Option.Rel (FileEntry.Alike Pair) (tree.get? x) (other.get? x)) :
    other.isReadOnly x = tree.isReadOnly x := by
  unfold isReadOnly
  generalize tree.get? x = entry at h ⊢
  generalize other.get? x = found at h ⊢
  cases h with
  | none => rfl
  | some he => cases he <;> rfl

/-- Trees with the same places, whose files differ only in ids. -/
structure Alike (Pair : String → String → Prop) (tree other : FileTree) : Prop where
  workingFolder_eq : other.workingFolder = tree.workingFolder
  entries : ∀ x, Option.Rel (FileEntry.Alike Pair) (tree.get? x) (other.get? x)

namespace Alike

theorem refl (tree : FileTree) : tree.Alike Pair tree := by
  refine ⟨rfl, fun x => ?_⟩
  cases tree.get? x with
  | none => exact .none
  | some entry => exact .some (.same entry)

theorem sameShape (h : tree.Alike Pair other) : SameShape tree other := by
  refine ⟨h.workingFolder_eq, fun x => ?_⟩
  have he := h.entries x
  generalize tree.get? x = entry at he ⊢
  generalize other.get? x = found at he ⊢
  cases he with
  | none => exact .none
  | some he => exact .some he.sameKind

theorem covered (h : tree.Alike Pair other) : tree.CoveredBy other := h.sameShape.covered

theorem covers (h : tree.Alike Pair other) : other.CoveredBy tree := h.sameShape.covers

theorem file (h : tree.Alike Pair other) (ht : tree.get? x = some (.file content))
    (ho : other.get? x = some (.file content')) : (FileEntry.file content).Alike Pair (.file content') := by
  have he := h.entries x
  rw [ht, ho] at he
  cases he with
  | some he => exact he

theorem isReadOnly_eq (h : tree.Alike Pair other) : other.isReadOnly x = tree.isReadOnly x :=
  isReadOnly_eq_of_rel (h.entries x)

theorem openWhere (h : old.Alike Pair old') (placed? : Option (List Location × Location)) :
    OpenWhere placed? old new old' := fun _ _ _ _ hp => h.isReadOnly_eq.trans hp.place_open

/-- A file stored in both trees at one place leaves them alike. -/
theorem placed (h : old.Alike Pair old') (hp : Placed way place content old new)
    (hp' : Placed way place content' old' new')
    (hc : (FileEntry.file content).Alike Pair (.file content')) : new.Alike Pair new' := by
  refine ⟨by rw [hp'.workingFolder_eq, hp.workingFolder_eq, h.workingFolder_eq], fun x => ?_⟩
  rw [hp.get?_eq, hp'.get?_eq]
  split_ifs with hx hm
  · exact .some hc
  · exact .some (.same _)
  · exact h.entries x

theorem compatible (h : old.Alike Pair old') (hp : Placed way place content old new) :
    Compatible new old' := by
  intro x entry found hn ho
  obtain ⟨before, hb, hk⟩ := h.covers.entries x found ho
  rw [hp.get?_eq] at hn
  split_ifs at hn with hx hm
  · cases hn
    rw [hx] at hb
    cases hk with
    | folder => exact absurd hb hp.place_free
    | file => exact .file _ _
  · cases hn
    cases hk with
    | folder => exact .folder
    | file => exact absurd hb (hp.way_free x hm _)
  · rw [hn] at hb
    cases hb
    exact hk.symm

theorem store (h : old.Alike Pair old') (hh : old.get? old.workingFolder = some .folder)
    (hs : old.store parent path content = .ok new)
    (hc : (FileEntry.file content).Alike Pair (.file content')) :
    ∃ new', old'.store parent path content' = .ok new' ∧ new.Alike Pair new' := by
  obtain ⟨_, _, -, hp⟩ := store_eq_ok hh hs
  obtain ⟨way, place, new', -, hp, hn, hp'⟩ := store_again hh (h.covered.home hh) h.workingFolder_eq hs
    (h.compatible hp) (h.openWhere _) content'
  exact ⟨new', hn, h.placed hp hp' hc⟩

theorem copy (h : old.Alike Pair old') (hh : old.get? old.workingFolder = some .folder)
    (hs : old.copy source target = .ok new) :
    ∃ new', old'.copy source target = .ok new' ∧ new.Alike Pair new' := by
  obtain ⟨_, _, _, _, _, -, -, -, -, hp⟩ := copy_eq_ok hh hs
  obtain ⟨way, place, origin, original, original', new', -, -, ho, ho', hp, hn, hp'⟩ :=
    copy_again hh (h.covered.home hh) hs h.covered (h.compatible hp) (h.openWhere _)
  refine ⟨new', hn, h.placed hp hp' ?_⟩
  split
  · exact .same _
  · exact h.file ho ho'

end Alike

end FileTree

namespace Generate

variable {Pair : String → String → Prop} {settings : Settings} {folder : Path} {db : Database}
  {name : String} {tree old old' new : FileTree} {content : File}

theorem copyDacpac_alike (h : old.Alike Pair old') (hh : old.get? old.workingFolder = some .folder)
    (hc : copyDacpac settings folder db name old = .ok new) :
    ∃ new', copyDacpac settings folder db name old' = .ok new' ∧ new.Alike Pair new' := by
  obtain ⟨content, hr, hcase⟩ := copyDacpac_stores hc
  obtain ⟨place, later, -, ho, ho', hr'⟩ := h.covered.read? hr
  rcases hcase with ⟨he, rfl⟩ | ⟨he, hname, hstore⟩
  · exact ⟨old', copyDacpac_of_exists hr' (h.covered.exists? he), h⟩
  · obtain ⟨new', hn, halike⟩ := h.store hh hstore (h.file ho ho')
    have he' : old'.exists? (folder.join ⟨Include.lastSegment name⟩) = false :=
      Bool.eq_false_iff.2 fun hexists => by
        rw [h.covers.exists? hexists] at he
        cases he
    exact ⟨new', (copyDacpac_of_absent hr' he' hname).trans hn, halike⟩

end Generate

namespace Project

variable {settings : Settings} {tree other : FileTree} {db : Database} {path : String}

/-- What an include shows in one tree it shows in the other one, up to the content of files. -/
def ShownAlike (settings : Settings) (tree other : FileTree) (path : String) : Prop :=
  ∀ source location, includeFolder settings tree path = .ok (source, location) →
    includeFolder settings other path = .ok (source, location) ∧
      List.Forall₂ (fun entry found => entry.1 = found.1 ∧ entry.2.SameKind found.2)
        (tree.below location) (other.below location)

theorem shownAlike_of_rel (hc : tree.CoveredBy other)
    (h : ∀ source location, includeFolder settings tree path = .ok (source, location) →
      ∀ rest, Option.Rel FileEntry.SameKind (tree.get? (location ++ rest)) (other.get? (location ++ rest))) :
    ShownAlike settings tree other path := by
  intro source location hf
  obtain ⟨hr, hl, hg⟩ := includeFolder_eq_ok.1 hf
  exact ⟨includeFolder_eq_ok.2 ⟨hr, hc.locate? hl, hc.folder hg⟩, forall₂_below (h source location hf)⟩

theorem shownAlike_of_alike {Pair : String → String → Prop} (h : tree.Alike Pair other) :
    ShownAlike settings tree other path :=
  shownAlike_of_rel h.covered fun _ _ _ _ => h.sameShape.kinds _

theorem foldersBelow_eq {location : Location} {depth : Nat}
    (h : List.Forall₂ (fun entry found => entry.1 = found.1 ∧ entry.2.SameKind found.2)
      (tree.below location) (other.below location)) :
    other.foldersBelow location depth = tree.foldersBelow location depth := by
  unfold foldersBelow
  generalize tree.below location = entries at h ⊢
  generalize other.below location = found at h ⊢
  induction h with
  | nil => rfl
  | @cons entry found _ _ hfirst _ ih =>
    obtain ⟨hkey, hkind⟩ := hfirst
    rw [List.filterMap_cons, List.filterMap_cons, ih, hkey]
    simp only [hkind.eq_folder_iff]

theorem addInclude_again {name : String} {listed folders : List String}
    (h : ShownAlike settings tree other path)
    (ha : addInclude settings tree name listed path = .ok folders) :
    addInclude settings other name listed path = .ok folders := by
  obtain ⟨⟨source, location⟩, hf, ha⟩ := bind_eq_ok.1 ha
  obtain ⟨hf', hlist⟩ := h source location hf
  refine bind_eq_ok.2 ⟨(source, location), hf', ?_⟩
  dsimp only at ha ⊢
  rwa [foldersBelow_eq hlist]

/-- The folders of a project are listed from what its includes show. -/
theorem listFolders_again {folders : List String}
    (h : ∀ path ∈ db.includes, ShownAlike settings tree other path)
    (hl : listFolders settings tree db = .ok folders) :
    listFolders settings other db = .ok folders := by
  unfold listFolders at hl ⊢
  generalize scriptFolders db = listed at hl ⊢
  generalize db.includes = paths at h hl
  induction paths generalizing listed with
  | nil => exact hl
  | cons path paths ih =>
    rw [List.forall_mem_cons] at h
    rw [List.foldlM_cons, bind_eq_ok] at hl ⊢
    obtain ⟨added, ha, hl⟩ := hl
    exact ⟨added, addInclude_again h.1 ha, ih added h.2 hl⟩

end Project

end DatabaseProject
