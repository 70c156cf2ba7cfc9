import DatabaseProject.Generate
import DatabaseProject.Proofs.FileTree
import DatabaseProject.Proofs.Outcome

/-!
# One file written

Everything that a run writes, copies or adds to a file tree comes down to one effect: the folders
on the way to a place are made where they are missing, and the place gets a file. `Path.place?`
gives the way and the place from the text of a path, `Placed` says what the effect is.
-/

namespace DatabaseProject

open FileTree Outcome

namespace Path

variable {path base : Path} {here folder place x : Location} {way : List Location} {name : String}
  {inner names : List String}

/-- The way to a file that is stored in a folder under the last part of a path, and its place. -/
def placeIn? (here : Location) (path folder : Path) : Option (List Location × Location) := do
  guard (fits folder)
  let location ← descend? (folder.origin here) folder.fields
  let name ← path.fileName?
  guard (fits path && isName name)
  return (route (folder.origin here) folder.fields, location ++ [name])

/-- The way to the file of a path, and its place. -/
def place? (here : Location) (path : Path) : Option (List Location × Location) :=
  path.placeIn? here (path.parent?.getD ⟨""⟩)

theorem placeIn?_eq_some {parent : Path} : path.placeIn? here parent = some (way, place) ↔
    ∃ folder name, fits parent = true ∧ fits path = true ∧ isName name = true ∧
      path.fileName? = some name ∧ place = folder ++ [name] ∧
      descend? (parent.origin here) parent.fields = some folder ∧
      route (parent.origin here) parent.fields = way := by
  simp only [placeIn?, Option.bind_eq_bind, Option.bind_eq_some_iff, Option.guard_eq_some',
    Option.pure_def, Option.some.injEq, Bool.and_eq_true, Prod.mk.injEq]
  constructor
  · rintro ⟨-, hp, folder, hd, name, hn, -, ⟨hf, hi⟩, rfl, rfl⟩
    exact ⟨folder, name, hp, hf, hi, hn, rfl, hd, rfl⟩
  · rintro ⟨folder, name, hp, hf, hi, hn, rfl, hd, rfl⟩
    exact ⟨(), hp, folder, hd, name, hn, (), ⟨hf, hi⟩, rfl, rfl⟩

theorem place?_eq_some : path.place? here = some (way, place) ↔
    ∃ folder name, fits (path.parent?.getD ⟨""⟩) = true ∧ fits path = true ∧ isName name = true ∧
      path.fileName? = some name ∧ place = folder ++ [name] ∧
      descend? ((path.parent?.getD ⟨""⟩).origin here) (path.parent?.getD ⟨""⟩).fields = some folder ∧
      route ((path.parent?.getD ⟨""⟩).origin here) (path.parent?.getD ⟨""⟩).fields = way :=
  placeIn?_eq_some

theorem fits_of_place? (h : path.place? here = some (way, place)) : fits path = true := by
  obtain ⟨folder, name, -, hf, -⟩ := place?_eq_some.1 h
  exact hf

/-- The place of a path is the one that the path names, and its way ends right before. -/
theorem place?_spec (h : path.place? here = some (way, place)) :
    ∃ front folder name, path.parts = front ++ [name] ∧ isName name = true ∧
      descend? (path.origin here) front = some folder ∧ place = folder ++ [name] ∧
      folder ∈ way ∧ ∀ x, x ∈ way ↔ x ∈ route (path.origin here) front := by
  obtain ⟨folder, name, -, -, hi, hn, rfl, hd, rfl⟩ := place?_eq_some.1 h
  obtain ⟨parent, hp, habs, hparts⟩ := parent_of_fileName hn
  rw [hp, Option.getD_some] at hd ⊢
  have horigin : parent.origin here = path.origin here := by rw [origin, habs, origin]
  rw [horigin] at hd ⊢
  refine ⟨parent.parts, folder, name, hparts, hi, ?_, rfl, mem_route_of_descend? hd, fun x => ?_⟩
  · rw [parts, descend?_filter, hd]
  · rw [parts, mem_route_filter]

/-- Where a path leads to inside a base, and through which places. -/
theorem LeadsTo.place? (hl : LeadsTo base inner name path)
    (h : path.place? here = some (way, place)) :
    ∃ folder, base.target? here = some folder ∧ place = folder ++ inner ++ [name] ∧
      (∀ part ∈ inner ++ [name], isName part = true) ∧
      ∀ x, x ∈ way ↔ x ∈ base.way here ∨ x ∈ route folder inner := by
  obtain ⟨front, last, name', hparts, hi, hd, rfl, -, hway⟩ := place?_spec h
  rw [hl.parts_eq] at hparts
  obtain ⟨hfront, hname⟩ := List.append_inj' hparts rfl
  obtain rfl := List.singleton_inj.1 hname
  obtain rfl := hfront
  have horigin : path.origin here = base.origin here := by
    rw [origin, hl.isAbsolute_eq, origin]
  rw [horigin] at hd hway
  rw [descend?_append] at hd
  obtain ⟨folder, hf, hlast⟩ := Option.bind_eq_some_iff.1 hd
  obtain ⟨rfl, hnames⟩ := (descend?_segments fun part hp => hl.segments part (by simp [hp])).1 hlast
  refine ⟨folder, hf, rfl, ?_, fun x => ?_⟩
  · intro part hp
    rcases List.mem_append.1 hp with hp | hp
    · exact hnames part hp
    · rw [List.mem_singleton.1 hp]
      exact hi
  · rw [hway, mem_route_append hf]
    rfl

end Path

namespace FileTree

variable {tree old new made : FileTree} {path source target : Path} {way other : List Location}
  {folder place : Location} {name : String} {content : File}

/-- Every name in the tree can be one, and the working folder is a folder. -/
structure WellFormed (tree : FileTree) : Prop where
  names : ∀ place entry, tree.get? place = some entry → ∀ name ∈ place, isName name = true
  home : tree.get? tree.workingFolder = some .folder

instance (tree : FileTree) : Decidable tree.WellFormed :=
  decidable_of_iff ((∀ entry ∈ tree.entries.entries, ∀ name ∈ entry.1, isName name = true) ∧
      tree.get? tree.workingFolder = some .folder) <| by
    constructor
    · rintro ⟨hn, hh⟩
      refine ⟨fun place entry hp => ?_, hh⟩
      unfold get? at hp
      split at hp
      · rename_i hroot
        simp [hroot]
      · exact hn _ (OrderedMap.get?_eq_some.1 hp)
    · intro h
      refine ⟨fun entry he => ?_, h.home⟩
      by_cases hroot : entry.1 = []
      · simp [hroot]
      · refine h.names entry.1 entry.2 ?_
        rw [get?, if_neg hroot]
        exact OrderedMap.get?_eq_some.2 he

theorem get?_origin (h : tree.get? tree.workingFolder = some .folder) :
    tree.get? (path.origin tree.workingFolder) = some .folder := by
  unfold Path.origin
  split
  · rfl
  · exact h

/-- A place has got a file, and the folders of a way have been made where they were missing. -/
structure Placed (way : List Location) (place : Location) (content : File)
    (old new : FileTree) : Prop where
  way_free : ∀ x ∈ way, ∀ content, old.get? x ≠ some (.file content)
  place_free : old.get? place ≠ some .folder
  place_open : old.isReadOnly place = false
  place_not_mem : place ∉ way
  workingFolder_eq : new.workingFolder = old.workingFolder
  get?_eq : ∀ x, new.get? x =
    if x = place then some (.file content) else if x ∈ way then some .folder else old.get? x

theorem FoldersMade.congr (h : FoldersMade way old new) (hw : ∀ x, x ∈ way ↔ x ∈ other) :
    FoldersMade other old new where
  free x hx := h.free x ((hw x).2 hx)
  workingFolder_eq := h.workingFolder_eq
  get?_eq x := by simp only [h.get?_eq, hw]

theorem Placed.congr (h : Placed way place content old new) (hw : ∀ x, x ∈ way ↔ x ∈ other) :
    Placed other place content old new where
  way_free x hx := h.way_free x ((hw x).2 hx)
  place_free := h.place_free
  place_open := h.place_open
  place_not_mem hx := h.place_not_mem ((hw place).2 hx)
  workingFolder_eq := h.workingFolder_eq
  get?_eq x := by simp only [h.get?_eq, hw]

theorem makeFolder_eq_ok : tree.makeFolder path = .ok (made, folder) ↔
    fits path = true ∧
      tree.makeFrom? (path.origin tree.workingFolder) path.fields = some (made, folder) := by
  unfold makeFolder makeFolder?
  by_cases hf : fits path = true
  · have hstart : tree.start path = path.origin tree.workingFolder := rfl
    simp only [hf, if_true, true_and, hstart]
    cases tree.makeFrom? (path.origin tree.workingFolder) path.fields <;> simp
  · simp [hf]

theorem storeAt_eq_ok : tree.storeAt folder path content = .ok new ↔
    ∃ name, path.fileName? = some name ∧ fits path = true ∧ isName name = true ∧
      tree.get? folder = some .folder ∧ tree.get? (folder ++ [name]) ≠ some .folder ∧
      tree.isReadOnly (folder ++ [name]) = false ∧ tree.put (folder ++ [name]) (.file content) = new := by
  have hs : tree.storeAt folder path content = .ok new ↔
      tree.storeAt? folder path content = some new := by
    unfold storeAt
    cases tree.storeAt? folder path content <;> simp
  rw [hs]
  simp only [storeAt?, Option.bind_eq_bind, Option.bind_eq_some_iff, Option.guard_eq_some',
    Option.pure_def, Option.some.injEq, Bool.and_eq_true, Bool.not_eq_true']
  constructor
  · rintro ⟨name, hn, -, ⟨hf, hi⟩, -, ⟨hg, ht⟩, -, ho, rfl⟩
    exact ⟨name, hn, hf, hi, hg, ht, ho, rfl⟩
  · rintro ⟨name, hn, hf, hi, hg, ht, ho, rfl⟩
    exact ⟨name, hn, (), ⟨hf, hi⟩, (), ⟨hg, ht⟩, (), ho, rfl⟩

theorem FoldersMade.placed (h : FoldersMade way old made)
    (hp : made.get? place ≠ some .folder) (ho : made.isReadOnly place = false) :
    Placed way place content old (made.put place (.file content)) where
  way_free := h.free
  place_open := by
    rw [← ho]
    refine isReadOnly_congr ?_
    rw [h.get?_eq, if_neg fun hx => hp (by rw [h.get?_eq, if_pos hx])]
  place_free := by
    intro hf
    apply hp
    rw [h.get?_eq, hf, ite_self]
  place_not_mem hx := hp (by rw [h.get?_eq, if_pos hx])
  workingFolder_eq := h.workingFolder_eq
  get?_eq x := by
    rw [get?_put (ne_root_of_get?_ne_folder hp), h.get?_eq]

/-- Stores a file in a folder that is made when it is missing. -/
def store (tree : FileTree) (parent path : Path) (content : File) :
    Except GenerationError FileTree := do
  let (made, folder) ← tree.makeFolder parent
  made.storeAt folder path content

theorem store_eq_ok {parent : Path} (hh : old.get? old.workingFolder = some .folder)
    (h : old.store parent path content = .ok new) :
    ∃ way place, path.placeIn? old.workingFolder parent = some (way, place) ∧
      Placed way place content old new := by
  obtain ⟨⟨made, folder⟩, hm, hs⟩ := bind_eq_ok.1 h
  obtain ⟨hfp, hm⟩ := makeFolder_eq_ok.1 hm
  obtain ⟨hd, hmade⟩ := makeFrom?_eq_some (get?_origin hh) hm
  obtain ⟨name, hn, hf, hi, -, hfree, hopen, rfl⟩ := storeAt_eq_ok.1 hs
  exact ⟨_, _, Path.placeIn?_eq_some.2 ⟨folder, name, hfp, hf, hi, hn, rfl, hd, rfl⟩,
    hmade.placed hfree hopen⟩

/-- Nothing but a file on the way, a folder in the place or a read-only file there keeps a file from
being stored. -/
theorem store_isOk {parent : Path} (hh : old.get? old.workingFolder = some .folder)
    (hp : path.placeIn? old.workingFolder parent = some (way, place))
    (hw : ∀ x ∈ way, ∀ content, old.get? x ≠ some (.file content))
    (hfree : old.get? place ≠ some .folder) (hopen : old.isReadOnly place = false) (hplace : place ∉ way) :
    ∃ new, old.store parent path content = .ok new := by
  obtain ⟨folder, name, hfp, hf, hi, hn, rfl, hd, rfl⟩ := Path.placeIn?_eq_some.1 hp
  obtain ⟨made, hm⟩ := makeFrom?_isSome hd hw
  obtain ⟨-, hmade⟩ := makeFrom?_eq_some (get?_origin hh) hm
  refine ⟨made.put (folder ++ [name]) (.file content),
    bind_eq_ok.2 ⟨(made, folder), makeFolder_eq_ok.2 ⟨hfp, hm⟩,
      storeAt_eq_ok.2 ⟨name, hn, hf, hi, ?_, ?_, ?_, rfl⟩⟩⟩
  · rw [hmade.get?_eq, if_pos (mem_route_of_descend? hd)]
  · rw [hmade.get?_eq, if_neg hplace]
    exact hfree
  · rw [isReadOnly_congr ((hmade.get?_eq _).trans (if_neg hplace)), hopen]

theorem write_eq_ok {content : ByteArray} (hh : old.get? old.workingFolder = some .folder)
    (h : old.write path content = .ok new) :
    ∃ way place, path.place? old.workingFolder = some (way, place) ∧
      Placed way place content old new := store_eq_ok hh h

/-- A copied file is as its source, unless it is the source. -/
theorem copy_eq_ok (hh : old.get? old.workingFolder = some .folder)
    (h : old.copy source target = .ok new) :
    ∃ way place made origin original, target.place? old.workingFolder = some (way, place) ∧
      FoldersMade way old made ∧ made.locate? source = some origin ∧
      old.get? origin = some (.file original) ∧
      Placed way place (if origin = place then .empty else original) old new := by
  obtain ⟨⟨made, folder⟩, hm, h⟩ := bind_eq_ok.1 h
  obtain ⟨hfp, hm⟩ := makeFolder_eq_ok.1 hm
  obtain ⟨hd, hmade⟩ := makeFrom?_eq_some (get?_origin hh) hm
  dsimp only at h
  split at h
  · rename_i hsource
    obtain ⟨emptied, he, hs⟩ := bind_eq_ok.1 h
    obtain ⟨name, hn, hf, hi, -, hfree, hopen, rfl⟩ := storeAt_eq_ok.1 he
    obtain ⟨other, ho, -, -, -, -, -, rfl⟩ := storeAt_eq_ok.1 hs
    obtain rfl : name = other := Option.some.inj (hn.symm.trans ho)
    obtain ⟨original, hread⟩ := isFile_iff.1 hsource
    obtain ⟨origin, hl, hg⟩ := read?_eq_some.1 hread
    have hroot := ne_root_of_get?_ne_folder hfree
    have hold : old.get? origin = some (.file original) := by
      rw [hmade.get?_eq] at hg
      split at hg
      · simp at hg
      · exact hg
    have hcontent : ((made.put (folder ++ [name]) (.file .empty)).read? source).getD .empty =
        if origin = folder ++ [name] then .empty else original := by
      have hlocate : (made.put (folder ++ [name]) (.file .empty)).locate? source = some origin := by
        refine locate?_mono hl rfl fun x _ hx => ?_
        rw [get?_put hroot, if_neg, hx]
        rintro rfl
        exact hfree hx
      have hget : (made.put (folder ++ [name]) (.file .empty)).get? origin =
          some (.file (if origin = folder ++ [name] then .empty else original)) := by
        rw [get?_put hroot, hg]
        split <;> rfl
      rw [read?_eq_some.2 ⟨origin, hlocate, hget⟩]
      rfl
    refine ⟨_, _, made, origin, original,
      Path.place?_eq_some.2 ⟨folder, name, hfp, hf, hi, hn, rfl, hd, rfl⟩, hmade, hl, hold, ?_⟩
    rw [hcontent, put_put]
    exact hmade.placed hfree hopen
  · cases h

theorem copy_isOk (hh : old.get? old.workingFolder = some .folder)
    (hp : target.place? old.workingFolder = some (way, place))
    (hw : ∀ x ∈ way, ∀ content, old.get? x ≠ some (.file content))
    (hfree : old.get? place ≠ some .folder) (hopen : old.isReadOnly place = false) (hplace : place ∉ way)
    (hs : ∀ made, FoldersMade way old made → made.isFile source = true) :
    ∃ new, old.copy source target = .ok new := by
  obtain ⟨folder, name, hfp, hf, hi, hn, rfl, hd, rfl⟩ := Path.place?_eq_some.1 hp
  obtain ⟨made, hm⟩ := makeFrom?_isSome hd hw
  obtain ⟨-, hmade⟩ := makeFrom?_eq_some (get?_origin hh) hm
  have hfolder : made.get? folder = some .folder := by
    rw [hmade.get?_eq, if_pos (mem_route_of_descend? hd)]
  have hmfree : made.get? (folder ++ [name]) ≠ some .folder := by
    rw [hmade.get?_eq, if_neg hplace]
    exact hfree
  have hmopen : made.isReadOnly (folder ++ [name]) = false := by
    rw [isReadOnly_congr ((hmade.get?_eq _).trans (if_neg hplace)), hopen]
  have hroot := ne_root_of_get?_ne_folder hmfree
  let emptied := made.put (folder ++ [name]) (.file .empty)
  let content := (emptied.read? source).getD .empty
  have hemptied : made.storeAt folder target .empty = .ok emptied :=
    storeAt_eq_ok.2 ⟨name, hn, hf, hi, hfolder, hmfree, hmopen, rfl⟩
  have hstored : emptied.storeAt folder target content =
      .ok (emptied.put (folder ++ [name]) (.file content)) := by
    have hget : emptied.get? (folder ++ [name]) = some (.file .empty) := by
      rw [get?_put hroot, if_pos rfl]
    refine storeAt_eq_ok.2 ⟨name, hn, hf, hi, ?_, ?_, isReadOnly_of_get? hget, rfl⟩
    · rw [get?_put hroot, if_neg (by simp), hfolder]
    · simp [hget]
  refine ⟨emptied.put (folder ++ [name]) (.file content),
    bind_eq_ok.2 ⟨(made, folder), makeFolder_eq_ok.2 ⟨hfp, hm⟩, ?_⟩⟩
  dsimp only
  rw [if_pos (hs made hmade)]
  exact bind_eq_ok.2 ⟨emptied, hemptied, hstored⟩

theorem isName_of_place? (hw : tree.WellFormed)
    (hp : path.place? tree.workingFolder = some (way, place)) :
    (∀ x ∈ way, ∀ name ∈ x, isName name = true) ∧ ∀ name ∈ place, isName name = true := by
  have horigin : ∀ name ∈ path.origin tree.workingFolder, isName name = true := by
    unfold Path.origin
    split
    · simp
    · exact hw.names _ _ hw.home
  obtain ⟨front, folder, name, -, hi, -, rfl, hfolder, hway⟩ := Path.place?_spec hp
  have hnames : ∀ x ∈ way, ∀ name ∈ x, isName name = true := fun x hx =>
    isName_of_mem_route horigin ((hway x).1 hx)
  refine ⟨hnames, ?_⟩
  simpa [or_imp, forall_and] using ⟨hnames folder hfolder, hi⟩

theorem Placed.wellFormed (h : Placed way place content old new) (hw : old.WellFormed)
    (hway : ∀ x ∈ way, ∀ name ∈ x, isName name = true)
    (hplace : ∀ name ∈ place, isName name = true) : new.WellFormed := by
  refine ⟨fun x entry hx => ?_, ?_⟩
  · rw [h.get?_eq] at hx
    split_ifs at hx with he hmem
    · rwa [he]
    · exact hway x hmem
    · exact hw.names x entry hx
  · rw [h.workingFolder_eq, h.get?_eq, if_neg, hw.home, ite_self]
    intro he
    exact h.place_free (he ▸ hw.home)

/-- A path leads to a folder, through folders only. -/
structure HasFolder (tree : FileTree) (path : Path) (folder : Location) : Prop where
  target_eq : path.target? tree.workingFolder = some folder
  folders : ∀ x ∈ path.way tree.workingFolder, tree.get? x = some .folder

theorem HasFolder.get?_eq (h : tree.HasFolder path folder) : tree.get? folder = some .folder :=
  h.folders folder (Path.target_mem_way h.target_eq)

/-- Where there are folders all the way, the path of a place leads to it. -/
theorem locate?_of_place? {base : Path} {inner : List String}
    (hl : Path.LeadsTo base inner name path)
    (hp : path.place? tree.workingFolder = some (way, place))
    (hw : ∀ x ∈ way, tree.get? x = some .folder) : tree.locate? path = some place := by
  obtain ⟨front, hfields, hfilter⟩ := hl.fields_eq
  obtain ⟨before, folder, last, hparts, hi, hd, rfl, -, hway⟩ := Path.place?_spec hp
  rw [hl.parts_eq, ← hfilter] at hparts
  obtain ⟨hbefore, hname⟩ := List.append_inj' hparts rfl
  obtain rfl := List.singleton_inj.1 hname
  rw [← hbefore, descend?_filter] at hd
  refine locate?_of_last hfields hi (Path.fits_of_place? hp) hd fun x hx => ?_
  apply hw
  rw [hway, ← hbefore, mem_route_filter]
  exact hx

theorem Placed.folder_of_mem (h : Placed way place content old new) {x : Location} (hx : x ∈ way) :
    new.get? x = some .folder := by
  rw [h.get?_eq, if_neg, if_pos hx]
  rintro rfl
  exact h.place_not_mem hx

theorem Placed.get?_place (h : Placed way place content old new) :
    new.get? place = some (.file content) := by
  rw [h.get?_eq, if_pos rfl]

/-- Any other file stays. -/
theorem Placed.file_eq {x : Location} {found : File} (h : Placed way place content old new)
    (hx : old.get? x = some (.file found)) (hne : x ≠ place) : new.get? x = some (.file found) := by
  rw [h.get?_eq, if_neg hne, if_neg fun hway => h.way_free x hway found hx, hx]

theorem Placed.read?_eq {base : Path} {inner : List String}
    (hl : Path.LeadsTo base inner name path) (h : Placed way place content old new)
    (hp : path.place? old.workingFolder = some (way, place)) : new.read? path = some content := by
  rw [← h.workingFolder_eq] at hp
  exact read?_eq_some.2 ⟨place, locate?_of_place? hl hp fun x => h.folder_of_mem, h.get?_place⟩

theorem Placed.hasFolder_of_way (h : Placed (path.way old.workingFolder) place content old new)
    (ht : path.target? old.workingFolder = some folder) : new.HasFolder path folder where
  target_eq := by rw [h.workingFolder_eq, ht]
  folders x hx := by
    rw [h.workingFolder_eq] at hx
    exact h.folder_of_mem hx

theorem Placed.hasFolder {base : Path} {inner : List String}
    (hl : Path.LeadsTo base inner name path) (h : Placed way place content old new)
    (hp : path.place? old.workingFolder = some (way, place)) :
    ∃ folder, new.HasFolder base folder ∧ place = folder ++ inner ++ [name] := by
  obtain ⟨folder, ht, hplace, -, hway⟩ := hl.place? hp
  refine ⟨folder, ⟨by rw [h.workingFolder_eq, ht], fun x hx => ?_⟩, hplace⟩
  rw [h.workingFolder_eq] at hx
  exact h.folder_of_mem ((hway x).2 (.inl hx))

end FileTree

namespace Project

variable {settings : Settings} {tree : FileTree} {place : Location}

theorem includeFolder_eq_ok {path : String} {source : Path} :
    includeFolder settings tree path = .ok (source, place) ↔
      Include.resolve settings.projectFolder settings.packages path = .ok source ∧
        tree.locate? source = some place ∧ tree.get? place = some .folder := by
  unfold includeFolder
  rw [bind_eq_ok]
  constructor
  · rintro ⟨found, hr, h⟩
    split at h
    · rename_i location hl
      split at h
      · rename_i hf
        cases h
        exact ⟨hr, hl, hf⟩
      · cases h
    · cases h
  · rintro ⟨hr, hl, hf⟩
    refine ⟨source, hr, ?_⟩
    rw [hl]
    simp only [hf, if_true]
    rfl

end Project

namespace Include

theorem no_separator_of_mem_segments {path segment : String} (h : segment ∈ segments path) :
    '/' ∉ segment.toList := by
  obtain ⟨chars, hc, rfl⟩ := List.mem_map.1 h
  rw [String.toList_ofList]
  intro hslash
  have := Path.not_of_mem_splitOnP (List.mem_of_mem_filter hc) hslash
  simp [isSeparator] at this

/-- An include path goes on from the folder of the project or from that of a package. -/
theorem resolve_eq_ok {projectFolder folder : Path} {packages : PackageFolders} {path : String}
    (h : resolve projectFolder packages path = .ok folder) : ∃ base pieces,
      (base = projectFolder ∨ ∃ package, packages.get? package = some base) ∧
        (∀ piece ∈ pieces, piece ∈ segments path) ∧ folder = base.joinAll pieces := by
  unfold resolve at h
  split at h
  · cases h
    exact ⟨projectFolder, [], .inl rfl, by simp, rfl⟩
  · rename_i first rest hs
    split at h
    · split at h
      · cases h
      · rename_i package inside
        split at h
        · cases h
        · rename_i base hb
          cases h
          refine ⟨base, inside, .inr ⟨package, hb⟩, fun piece hp => ?_, rfl⟩
          simp [hs, hp]
    · cases h
      exact ⟨projectFolder, first :: rest, .inl rfl, fun piece hp => by rwa [hs], rfl⟩

theorem no_separator_lastSegment (path : String) : '/' ∉ (lastSegment path).toList := by
  intro h
  rw [lastSegment, String.toList_ofList, List.getLastD_eq_getLast?] at h
  cases hl : (path.toList.splitOnP isSeparator).getLast? with
  | none => simp [hl] at h
  | some last =>
    rw [hl] at h
    have := Path.not_of_mem_splitOnP (List.mem_of_getLast? hl) h
    simp [isSeparator] at this

end Include

namespace Generate

variable {settings : Settings} {folder : Path} {place : Location} {db : Database} {name : String}
  {tree new : FileTree}

/-- A path that goes on from a folder by a field. -/
theorem descend?_join (hf : tree.HasFolder folder place) (hsep : '/' ∉ name.toList) :
    ∃ front, (folder.join ⟨name⟩).fields = front ++ [name] ∧
      descend? ((folder.join ⟨name⟩).origin tree.workingFolder) front = some place ∧
      ∀ x ∈ route ((folder.join ⟨name⟩).origin tree.workingFolder) front, tree.get? x = some .folder := by
  obtain ⟨front, hjoin, hfront⟩ := Path.fields_join folder (Path.isAbsolute_of_no_separator hsep)
  rw [Path.fields_of_no_separator hsep] at hjoin
  have horigin : (folder.join ⟨name⟩).origin tree.workingFolder = folder.origin tree.workingFolder :=
    Path.origin_join (Path.isAbsolute_of_no_separator hsep)
  rw [horigin]
  refine ⟨front, hjoin, ?_, fun x hx => hf.folders x ?_⟩
  · rw [← descend?_filter, hfront]
    exact hf.target_eq
  · rwa [← mem_route_filter, hfront] at hx

/-- Joined to a folder, a name leads to a place in the folder. -/
theorem locate?_join (hf : tree.HasFolder folder place) (hn : isName name = true)
    (hfit : fits (folder.join ⟨name⟩) = true) :
    tree.locate? (folder.join ⟨name⟩) = some (place ++ [name]) := by
  obtain ⟨front, hjoin, hd, hroute⟩ := descend?_join hf (isSegment_of_isName hn).no_separator
  exact locate?_of_last hjoin hn hfit hd hroute

/-- Joined to a folder, a file name that is free there is a name, and its place is empty. -/
theorem free_of_fileName (hf : tree.HasFolder folder place) (hsep : '/' ∉ name.toList)
    (hfit : fits (folder.join ⟨name⟩) = true) {last : String}
    (hn : (folder.join ⟨name⟩).fileName? = some last) (hi : isName last = true)
    (he : tree.exists? (folder.join ⟨name⟩) ≠ true) :
    name = last ∧ tree.get? (place ++ [name]) = none := by
  obtain ⟨front, hjoin, hd, hroute⟩ := descend?_join hf hsep
  have hfiller : Path.isFiller name = false := by
    by_contra hfiller
    rw [Bool.not_eq_false] at hfiller
    apply he
    refine exists?_iff.2 ⟨place, .folder, locate?_of_filler hjoin hfiller ?_ hfit hd hroute, hf.get?_eq⟩
    intro ht
    have hempty : folder.join ⟨name⟩ = ⟨""⟩ := congrArg Path.mk ht
    rw [hempty] at hn
    simp [Path.fileName?, Path.split, Path.fields_empty, Path.isFiller] at hn
  obtain ⟨parent, -, -, hparts⟩ := Path.parent_of_fileName hn
  rw [Path.parts, hjoin, List.filter_append, List.filter_singleton, hfiller] at hparts
  obtain rfl : name = last := List.singleton_inj.1 (List.append_inj' hparts rfl).2
  refine ⟨rfl, ?_⟩
  by_contra hsome
  obtain ⟨entry, hentry⟩ := Option.ne_none_iff_exists'.1 hsome
  exact he (exists?_iff.2 ⟨_, entry, locate?_join hf hi hfit, hentry⟩)

/-- A package file that is copied is there, and it is stored unless there is something under its name. -/
theorem copyDacpac_stores (h : copyDacpac settings folder db name tree = .ok new) :
    ∃ content, tree.read? (dacpacSource settings name) = some content ∧
      (tree.exists? (folder.join ⟨Include.lastSegment name⟩) = true ∧ new = tree ∨
        tree.exists? (folder.join ⟨Include.lastSegment name⟩) = false ∧ Include.lastSegment name ≠ "" ∧
          tree.store folder (folder.join ⟨Include.lastSegment name⟩) content = .ok new) := by
  unfold copyDacpac at h
  dsimp only at h
  split at h
  · cases h
  · rename_i content hread
    refine ⟨content, hread, ?_⟩
    split at h
    · rename_i hexists
      cases h
      exact .inl ⟨hexists, rfl⟩
    · rename_i hexists
      split at h
      · cases h
      · rename_i hname
        exact .inr ⟨Bool.not_eq_true _ ▸ hexists, hname, h⟩

/-- Where something is under the name of a package file nothing is copied. -/
theorem copyDacpac_of_exists {content : File}
    (hr : tree.read? (dacpacSource settings name) = some content)
    (he : tree.exists? (folder.join ⟨Include.lastSegment name⟩) = true) :
    copyDacpac settings folder db name tree = .ok tree := by
  unfold copyDacpac
  dsimp only
  rw [hr]
  exact if_pos he

/-- With nothing under its name a package file is stored. -/
theorem copyDacpac_of_absent {content : File}
    (hr : tree.read? (dacpacSource settings name) = some content)
    (he : tree.exists? (folder.join ⟨Include.lastSegment name⟩) = false)
    (hne : Include.lastSegment name ≠ "") : copyDacpac settings folder db name tree =
      tree.store folder (folder.join ⟨Include.lastSegment name⟩) content := by
  unfold copyDacpac
  simp only [hr, he, if_neg hne]
  rfl

/-- A package file that is copied comes to a place where nothing was; in any case there is
something afterwards. -/
theorem copyDacpac_eq_ok (hf : tree.HasFolder folder place)
    (h : copyDacpac settings folder db name tree = .ok new) :
    ∃ content, tree.read? (dacpacSource settings name) = some content ∧
      new.exists? (folder.join ⟨Include.lastSegment name⟩) = true ∧
      (tree.exists? (folder.join ⟨Include.lastSegment name⟩) = true ∧ new = tree ∨
        tree.exists? (folder.join ⟨Include.lastSegment name⟩) = false ∧
        isName (Include.lastSegment name) = true ∧
        tree.get? (place ++ [Include.lastSegment name]) = none ∧
        Placed (folder.way tree.workingFolder) (place ++ [Include.lastSegment name]) content tree new) := by
  obtain ⟨content, hread, ⟨hexists, rfl⟩ | ⟨hexists, -, hstore⟩⟩ := copyDacpac_stores h
  · exact ⟨content, hread, hexists, .inl ⟨hexists, rfl⟩⟩
  · obtain ⟨⟨made, location⟩, hm, hs⟩ := bind_eq_ok.1 hstore
    dsimp only at hs
    obtain ⟨last, hn, hfit, hi, -, hfree, hopen, rfl⟩ := storeAt_eq_ok.1 hs
    obtain ⟨rfl, hnone⟩ := free_of_fileName hf (Include.no_separator_lastSegment name) hfit hn hi
      (Bool.eq_false_iff.1 hexists)
    obtain ⟨hd, hmade⟩ := makeFrom?_eq_some
      (hf.folders _ Path.origin_mem_way) (makeFolder_eq_ok.1 hm).2
    obtain rfl : location = place := by
      rw [← Path.target?_eq_descend?, hf.target_eq] at hd
      exact (Option.some.inj hd).symm
    have hplaced : Placed (folder.way tree.workingFolder) (location ++ [Include.lastSegment name])
        content tree (made.put (location ++ [Include.lastSegment name]) (.file content)) :=
      (hmade.congr fun x => Path.mem_way.symm).placed hfree hopen
    have hfolder := hplaced.hasFolder_of_way hf.target_eq
    exact ⟨content, hread, exists?_iff.2 ⟨_, _, locate?_join hfolder hi hfit, hplaced.get?_place⟩,
      .inr ⟨hexists, hi, hnone, hplaced⟩⟩

end Generate

end DatabaseProject
