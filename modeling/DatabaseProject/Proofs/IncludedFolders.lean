import DatabaseProject.Proofs.ByteOrder
import DatabaseProject.Proofs.ListedFolders
import DatabaseProject.Proofs.Writing

/-!
# The folders that includes add

Behind the folders of its scripts a project lists those of its includes: include by include, the
folders on the two levels below the folder that the path leads to, in the order of their names, and
each entry only once. So a listing depends on the folders of these two levels alone.
-/

namespace DatabaseProject

open Outcome Text

namespace FileTree

variable {tree other : FileTree} {place : Location} {depth : Nat} {names : List String}

theorem mem_foldersBelow : names ∈ tree.foldersBelow place depth ↔
    names ≠ [] ∧ names.length ≤ depth ∧ tree.get? (place ++ names) = some .folder := by
  simp only [foldersBelow, List.mem_filterMap, Option.ite_none_right_eq_some, Option.some.injEq,
    Prod.exists]
  constructor
  · rintro ⟨_, _, hb, ⟨rfl, hd⟩, rfl⟩
    obtain ⟨hne, hg⟩ := mem_below.1 hb
    exact ⟨hne, hd, hg⟩
  · rintro ⟨hne, hd, hg⟩
    exact ⟨names, .folder, mem_below.2 ⟨hne, hg⟩, ⟨rfl, hd⟩, rfl⟩

theorem pairwise_foldersBelow : (tree.foldersBelow place depth).Pairwise fun names others =>
    inOrder names others = true ∧ names ≠ others := by
  have hdistinct : (tree.below place).Pairwise fun a b => a.1 ≠ b.1 :=
    List.pairwise_map.1 nodup_keys_below
  refine (pairwise_below.and hdistinct).filterMap _ ?_
  rintro a b hab names ha others hb
  simp only [Option.ite_none_right_eq_some, Option.some.injEq] at ha hb
  rw [← ha.2, ← hb.2]
  exact hab

/-- Folders that are the same are listed alike. -/
theorem foldersBelow_congr (h : ∀ names, names ≠ [] → names.length ≤ depth →
      (other.get? (place ++ names) = some .folder ↔ tree.get? (place ++ names) = some .folder)) :
    other.foldersBelow place depth = tree.foldersBelow place depth := by
  have hperm : (other.foldersBelow place depth).Perm (tree.foldersBelow place depth) := by
    rw [List.perm_ext_iff_of_nodup (pairwise_foldersBelow.imp And.right)
      (pairwise_foldersBelow.imp And.right)]
    intro names
    rw [mem_foldersBelow, mem_foldersBelow]
    exact and_congr_right fun hne => and_congr_right fun hd => h names hne hd
  exact hperm.eq_of_pairwise (fun names others _ _ => inOrder_antisymm names others)
    (pairwise_foldersBelow.imp And.left) (pairwise_foldersBelow.imp And.left)

/-- What comes between a folder and one below it is below it too. -/
theorem below_of_between {name child : String} (hl : inOrder [name] names = true) (hne : [name] ≠ names)
    (hu : inOrder names [name, child] = true) : ∃ next rest, names = name :: next :: rest := by
  cases names with
  | nil => cases hl
  | cons first rest =>
    have hsame : first = name := by
      by_contra hfirst
      simp only [inOrder, if_neg hfirst, if_neg (Ne.symm hfirst), decide_eq_true_eq] at hl hu
      exact lt_asymm hl hu
    subst hsame
    cases rest with
    | nil => exact absurd rfl hne
    | cons next rest => exact ⟨next, rest, rfl⟩

/-- The folders on the two levels below a folder, in the lexicographic order of their names as bytes:
behind a folder stand the folders in it. -/
structure IsListing (tree : FileTree) (place : Location) (found : List (List String)) : Prop where
  mem_iff : ∀ names, names ∈ found ↔
    (names.length = 1 ∨ names.length = 2) ∧ tree.get? (place ++ names) = some .folder
  ordered : found.Pairwise fun names others => names.map bytes < others.map bytes
  adjacent : ∀ before name between child after,
    found = before ++ [name] :: between ++ [name, child] :: after →
    ∀ names ∈ between, ∃ sibling, names = [name, sibling]

theorem isListing_foldersBelow : tree.IsListing place (tree.foldersBelow place Project.listedDepth) := by
  have hlevels : ∀ names : List String, names ≠ [] ∧ names.length ≤ Project.listedDepth ↔
      names.length = 1 ∨ names.length = 2 := by
    intro names
    rw [← List.length_pos_iff, Project.listedDepth]
    omega
  refine ⟨fun names => ?_, ?_, ?_⟩
  · rw [mem_foldersBelow, ← and_assoc, hlevels]
  · exact pairwise_foldersBelow.imp fun h => map_bytes_lt_of_inOrder h.1 h.2
  · intro before name between child after he names hn
    have hpairwise : (tree.foldersBelow place Project.listedDepth).Pairwise _ := pairwise_foldersBelow
    have hmem : names ∈ tree.foldersBelow place Project.listedDepth := by
      rw [he]
      simp [hn]
    rw [he, List.append_assoc, List.pairwise_append, List.cons_append, List.pairwise_cons,
      List.pairwise_append] at hpairwise
    obtain ⟨-, ⟨hafter, -, -, hbefore⟩, -⟩ := hpairwise
    obtain ⟨hl, hne⟩ := hafter names (List.mem_append_left _ hn)
    obtain ⟨hu, -⟩ := hbefore names hn [name, child] List.mem_cons_self
    obtain ⟨next, rest, rfl⟩ := below_of_between hl hne hu
    obtain ⟨-, hdepth, -⟩ := mem_foldersBelow.1 hmem
    obtain rfl : rest = [] := List.eq_nil_of_length_eq_zero (Nat.le_zero.1 (Nat.le_of_succ_le_succ
      (Nat.le_of_succ_le_succ hdepth)))
    exact ⟨next, rfl⟩

end FileTree

namespace Project

variable {settings : Settings} {tree other : FileTree} {db : Database} {name path : String}
  {listed folders : List String} {folder : Path} {location : Location}

/-- The entry for a folder of an include. -/
def includedEntry (db : String) (names : List String) : String :=
  db ++ "\\" ++ "\\".intercalate names ++ "\\"

theorem folderEntry_eq_includedEntry {names : List String} (hne : names ≠ []) :
    folderEntry (name :: names) = includedEntry name names := by
  rw [folderEntry_cons, folderEntry_eq_intercalate hne, includedEntry, String.append_assoc, String.append_assoc,
    String.append_assoc]

/-- Of a list of entries, the new ones are appended, each where it occurs first. -/
theorem foldl_addNew_eq (entries listed : List String) :
    entries.foldl addNew listed = listed ++ (entries.filter (!listed.contains ·)).eraseDups := by
  induction entries generalizing listed with
  | nil => simp
  | cons entry rest ih =>
    rw [List.foldl_cons, addNew]
    by_cases hl : listed.contains entry = true
    · rw [if_pos hl, ih, List.filter_cons_of_neg (by simpa using hl)]
    · have hnew : rest.filter (!(listed ++ [entry]).contains ·) =
          (rest.filter (!listed.contains ·)).filter (!· == entry) := by
        rw [List.filter_filter]
        apply List.filter_congr
        intro other _
        simp only [List.contains_append, Bool.not_or, List.contains_cons, List.contains_nil, Bool.or_false]
        exact Bool.and_comm _ _
      rw [if_neg hl, ih, List.filter_cons_of_pos (by simpa using hl), List.eraseDups_cons, hnew,
        List.append_assoc, List.singleton_append]

theorem addInclude_eq (h : includeFolder settings tree path = .ok (folder, location)) :
    addInclude settings tree name listed path =
      if (tree.foldersBelow location listedDepth).all (isListable folder) then
        .ok (((tree.foldersBelow location listedDepth).map fun names =>
          folderEntry (name :: names)).foldl addNew listed)
      else .error (.unreadable folder) := by
  rw [addInclude, h]
  rfl

/-- The folder that an include leads to, and its folders in their order. -/
def Finds (settings : Settings) (tree : FileTree) (path : String) (found : List (List String)) : Prop :=
  ∃ folder location, Include.resolve settings.projectFolder settings.packages path = .ok folder ∧
    tree.locate? folder = some location ∧ tree.get? location = some .folder ∧
    tree.IsListing location found

theorem addInclude_adds (h : addInclude settings tree name listed path = .ok folders) :
    ∃ found, Finds settings tree path found ∧
      folders = (found.map (includedEntry name)).foldl addNew listed := by
  obtain ⟨⟨folder, location⟩, hf, -⟩ := bind_eq_ok.1 h
  rw [addInclude_eq hf] at h
  split at h
  · cases h
    obtain ⟨hr, hl, hg⟩ := includeFolder_eq_ok.1 hf
    refine ⟨_, ⟨folder, location, hr, hl, hg, FileTree.isListing_foldersBelow⟩, ?_⟩
    congr 1
    exact List.map_congr_left fun names hn =>
      folderEntry_eq_includedEntry (FileTree.mem_foldersBelow.1 hn).1
  · cases h

theorem listFolders_adds (h : listFolders settings tree db = .ok folders) :
    ∃ found : List (List (List String)), List.Forall₂ (Finds settings tree) db.includes found ∧
      folders = (found.flatten.map (includedEntry db.name)).foldl addNew (scriptFolders db) := by
  refine foldlM_induction (motive := fun paths folders => ∃ found : List (List (List String)),
    List.Forall₂ (Finds settings tree) paths found ∧
      folders = (found.flatten.map (includedEntry db.name)).foldl addNew (scriptFolders db))
    ⟨[], .nil, rfl⟩ ?_ h
  rintro paths _ path folders ⟨found, hfound, rfl⟩ hstep
  obtain ⟨last, hlast, rfl⟩ := addInclude_adds hstep
  refine ⟨found ++ [last], List.rel_append hfound (.cons hlast .nil), ?_⟩
  rw [List.flatten_append, List.flatten_singleton, List.map_append, List.foldl_append]

/-- Two trees have the same folders on the two levels below the folders of the includes. -/
def SameUpperFolders (settings : Settings) (db : Database) (tree other : FileTree) : Prop :=
  ∀ path ∈ db.includes, ∀ folder location, includeFolder settings tree path = .ok (folder, location) →
    ∀ names : List String, names.length = 1 ∨ names.length = 2 →
      (other.get? (location ++ names) = some .folder ↔ tree.get? (location ++ names) = some .folder)

/-- Includes that lead to the same folders with the same folders below are listed alike. -/
theorem listFolders_congr (h : SameUpperFolders settings db tree other)
    (hf : ∀ path ∈ db.includes, ∃ found, includeFolder settings tree path = .ok found ∧
      includeFolder settings other path = .ok found) :
    listFolders settings other db = listFolders settings tree db := by
  refine foldlM_congr (fun path hp listed => ?_) _
  obtain ⟨⟨folder, location⟩, ht, ho⟩ := hf path hp
  have hbelow : other.foldersBelow location listedDepth = tree.foldersBelow location listedDepth := by
    apply FileTree.foldersBelow_congr
    intro names hne hd
    have hpositive := List.length_pos_iff.2 hne
    exact h path hp folder location ht names (by rw [listedDepth] at hd; omega)
  rw [addInclude_eq ht, addInclude_eq ho, hbelow]

theorem includeFolder_of_listFolders (h : listFolders settings tree db = .ok folders)
    (hp : path ∈ db.includes) :
    ∃ found, includeFolder settings tree path = .ok found := by
  obtain ⟨found, hfound, -⟩ := listFolders_adds h
  obtain ⟨names, -, folder, location, hr, hl, hg, -⟩ := exists_right_of_forall₂ hfound hp
  exact ⟨(folder, location), includeFolder_eq_ok.2 ⟨hr, hl, hg⟩⟩

/-- A path leads to the same folder in all trees where it leads to one. -/
theorem includeFolder_unique {found found' : Path × Location} (hw : other.workingFolder = tree.workingFolder)
    (ht : includeFolder settings tree path = .ok found)
    (ho : includeFolder settings other path = .ok found') : found' = found := by
  obtain ⟨folder, location⟩ := found
  obtain ⟨folder', location'⟩ := found'
  obtain ⟨hr, hl, -⟩ := includeFolder_eq_ok.1 ht
  obtain ⟨hr', hl', -⟩ := includeFolder_eq_ok.1 ho
  obtain rfl : folder = folder' := Except.ok.inj (hr.symm.trans hr')
  have hplace := FileTree.target?_of_locate? hl
  have hplace' := FileTree.target?_of_locate? hl'
  rw [hw, hplace] at hplace'
  rw [Option.some.inj hplace']

theorem includeFolder_mono {found : Path × Location} (hw : other.workingFolder = tree.workingFolder)
    (hm : ∀ place, tree.get? place = some .folder → other.get? place = some .folder)
    (h : includeFolder settings tree path = .ok found) : includeFolder settings other path = .ok found := by
  obtain ⟨folder, location⟩ := found
  obtain ⟨hr, hl, hg⟩ := includeFolder_eq_ok.1 h
  exact includeFolder_eq_ok.2 ⟨hr, FileTree.locate?_mono hl hw fun place _ => hm place, hm _ hg⟩

/-- Behind the folders of the scripts a project lists, include by include and in the order of their
names, the folders on the two levels below the folder that the path leads to, but no entry twice and
none that is there already. In every other tree with the same folders on these levels the listing is
the same if it succeeds, and it succeeds where the folders of the first tree are there: files, and what
is deeper, do not matter. -/
theorem include_folders_listed_in_order (h : listFolders settings tree db = .ok folders) :
    (∃ found : List (List (List String)), List.Forall₂ (Finds settings tree) db.includes found ∧
      folders = scriptFolders db ++ ((found.flatten.map fun names =>
        db.name ++ "\\" ++ "\\".intercalate names ++ "\\").filter
          (!(scriptFolders db).contains ·)).eraseDups) ∧
    ∀ other : FileTree, other.workingFolder = tree.workingFolder →
      SameUpperFolders settings db tree other →
      (∀ folders', listFolders settings other db = .ok folders' → folders' = folders) ∧
      ((∀ place, tree.get? place = some .folder → other.get? place = some .folder) →
        listFolders settings other db = .ok folders) := by
  refine ⟨?_, fun other hw hsame => ⟨fun folders' h' => ?_, fun hm => ?_⟩⟩
  · obtain ⟨found, hfound, rfl⟩ := listFolders_adds h
    exact ⟨found, hfound, foldl_addNew_eq _ _⟩
  · have hequal := listFolders_congr hsame fun path hp => by
      obtain ⟨found, ht⟩ := includeFolder_of_listFolders h hp
      obtain ⟨found', ho⟩ := includeFolder_of_listFolders h' hp
      rw [includeFolder_unique hw ht ho] at ho
      exact ⟨found, ht, ho⟩
    rw [h, h'] at hequal
    exact Except.ok.inj hequal
  · have hequal := listFolders_congr hsame fun path hp => by
      obtain ⟨found, ht⟩ := includeFolder_of_listFolders h hp
      exact ⟨found, ht, includeFolder_mono hw hm ht⟩
    rw [hequal, h]

/-- Two includes that both have a folder of one name, the first of them taken twice. -/
def overlappingIncludes : Database :=
  { Database.ofDecl (DatabaseDecl.named "Shop") with includes := ["first", "second\\", "first/"] }

def overlappingTree : FileTree :=
  FileTree.ofEntries [(["project"], .folder), (["project", "second"], .folder),
    (["project", "second", "sales"], .folder), (["project", "second", "sales", "More"], .folder),
    (["project", "second", "audit"], .folder), (["project", "first"], .folder),
    (["project", "first", "sales"], .folder), (["project", "first", "sales", "Tables"], .folder)]

theorem overlapping_includes_listed_once :
    let settings : Settings := ⟨⟨"/out"⟩, ⟨"/project"⟩, none, ∅⟩
    let deeper := (overlappingTree.put ["project", "first", "sales", "Tables", "Old"] .folder).put
      ["project", "second", "notes"] (.file "".toUTF8)
    let folders := ["Shop\\Security\\", "Shop\\sales\\", "Shop\\sales\\Tables\\", "Shop\\audit\\",
      "Shop\\sales\\More\\"]
    listFolders settings overlappingTree overlappingIncludes = .ok folders ∧
      SameUpperFolders settings overlappingIncludes overlappingTree deeper ∧
      listFolders settings deeper overlappingIncludes = .ok folders := by
  intro settings deeper folders
  have hlisted : listFolders settings overlappingTree overlappingIncludes = .ok folders := by
    apply toOption_eq_some.1
    unfold listFolders addInclude FileTree.foldersBelow
    rw [FileTree.below_eq_insertionSort]
    decide
  have hplaces : ∀ path ∈ overlappingIncludes.includes,
      (includeFolder settings overlappingTree path).toOption.all fun found => found.2.length == 2 := by
    decide
  have hnotes : overlappingTree.get? ["project", "second", "notes"] = none := by decide
  have hget : ∀ place : Location, place ≠ ["project", "first", "sales", "Tables", "Old"] →
      (deeper.get? place = some .folder ↔ overlappingTree.get? place = some .folder) := by
    intro place hp
    rw [FileTree.get?_put (by decide), FileTree.get?_put (by decide), if_neg hp]
    split
    · rename_i hn
      rw [hn, hnotes]
      simp
    · rfl
  have hsame : SameUpperFolders settings overlappingIncludes overlappingTree deeper := by
    intro path hp folder location hf names hn
    apply hget
    intro he
    have hlocation := hplaces path hp
    rw [hf] at hlocation
    have htwo : location.length = 2 := beq_iff_eq.1 hlocation
    have hlength := congrArg List.length he
    rw [List.length_append, htwo] at hlength
    simp only [List.length_cons, List.length_nil] at hlength
    omega
  have hmore : ∀ place, overlappingTree.get? place = some .folder → deeper.get? place = some .folder := by
    intro place hp
    apply (hget place _).2 hp
    rintro rfl
    revert hp
    decide
  obtain ⟨-, hothers⟩ := include_folders_listed_in_order hlisted
  exact ⟨hlisted, hsame, (hothers deeper rfl hsame).2 hmore⟩

end Project

end DatabaseProject
