import DatabaseProject.FileTree
import DatabaseProject.Proofs.OrderedMap
import DatabaseProject.Proofs.Path
import Mathlib.Data.List.Sort
import Mathlib.Data.String.Basic

/-!
# Laws of file trees

Where a path leads is decided by its text and the working folder alone: `Path.target?` is the
place, `Path.way` are the places that it leads through. What is there decides whether the path can
be followed. Every operation is described by the look-ups that it needs and the look-ups in the
tree that it gives.
-/

namespace DatabaseProject

open FileTree

namespace Location

/-- Neither of two places is inside the other. -/
def Apart (first second : Location) : Prop := ¬ first <+: second ∧ ¬ second <+: first

instance (first second : Location) : Decidable (Apart first second) :=
  inferInstanceAs (Decidable (_ ∧ _))

theorem Apart.symm {first second : Location} (h : Apart first second) : Apart second first :=
  ⟨h.2, h.1⟩

theorem Apart.append {first second : Location} (h : Apart first second) (more further : List String) :
    Apart (first ++ more) (second ++ further) := by
  have hno : ∀ {a b : Location}, Apart a b → ∀ x y, ¬ a ++ x <+: b ++ y := by
    intro a b hab x y hp
    rcases List.prefix_or_prefix_of_prefix ((List.prefix_append a x).trans hp)
      (List.prefix_append b y) with h | h
    · exact hab.1 h
    · exact hab.2 h
  exact ⟨hno h more further, hno h.symm further more⟩

end Location

namespace FileTree

variable {tree other made : FileTree} {here place last next : Location} {entry : FileEntry}
  {field name : String} {fields front back : List String}

/-! ## Looking up -/

@[simp] theorem get?_root : tree.get? [] = some .folder := rfl

@[simp] theorem workingFolder_put : (tree.put place entry).workingFolder = tree.workingFolder := rfl

theorem get?_put {target : Location} (h : target ≠ []) :
    (tree.put target entry).get? place = if place = target then some entry else tree.get? place := by
  unfold get? put
  by_cases hp : place = []
  · subst hp
    rw [if_pos rfl, if_pos rfl, if_neg (Ne.symm h)]
  · rw [if_neg hp, if_neg hp]
    exact OrderedMap.get?_put

theorem ne_root_of_get?_ne_folder (h : tree.get? place ≠ some .folder) : place ≠ [] := by
  rintro rfl
  exact h rfl

theorem ne_root_of_get?_eq_none (h : tree.get? place = none) : place ≠ [] := by
  rintro rfl
  cases h

theorem put_put {later : FileEntry} : (tree.put place entry).put place later = tree.put place later :=
  congrArg (FileTree.mk · tree.workingFolder) OrderedMap.put_put

/-- The tree with some entries. -/
def ofEntries (entries : List (Location × FileEntry)) : FileTree :=
  entries.foldl (fun tree entry => tree.put entry.1 entry.2) .empty

/-! ## Where fields lead -/

theorem isName_iff : isName name = true ↔ Path.IsSegment name ∧
    name.utf8ByteSize ≤ maxNameBytes ∧ '\u0000' ∉ name.toList := by
  simp only [isName, Bool.and_eq_true, Bool.not_eq_true', bne_iff_ne, ne_eq, decide_eq_true_eq,
    List.all_eq_true]
  constructor
  · rintro ⟨⟨⟨hf, hp⟩, hb⟩, hc⟩
    exact ⟨⟨hf, hp, fun h => (hc _ h).1 rfl⟩, hb, fun h => (hc _ h).2 rfl⟩
  · rintro ⟨⟨hf, hp, hs⟩, hb, h0⟩
    exact ⟨⟨⟨hf, hp⟩, hb⟩, fun c hc => ⟨by rintro rfl; exact hs hc, by rintro rfl; exact h0 hc⟩⟩

theorem isSegment_of_isName (h : isName name = true) : Path.IsSegment name := (isName_iff.1 h).1

theorem step?_of_isFiller (h : Path.isFiller field = true) : step? here field = some here := by
  rw [step?, if_pos h]

theorem step?_of_isSegment (h : Path.IsSegment name) :
    step? here name = if isName name then some (here ++ [name]) else none := by
  rw [step?, if_neg (by simp [h.not_filler]), if_neg h.ne_parent]

theorem step?_of_isName (h : isName name = true) : step? here name = some (here ++ [name]) := by
  rw [step?_of_isSegment (isSegment_of_isName h), if_pos h]

/-- Where fields lead from a folder, whatever is there. -/
def descend? (here : Location) (fields : List String) : Option Location := fields.foldlM step? here

@[simp] theorem descend?_nil : descend? here [] = some here := rfl

theorem descend?_cons : descend? here (field :: fields) =
    (step? here field).bind (descend? · fields) := rfl

theorem descend?_append : descend? here (front ++ back) =
    (descend? here front).bind (descend? · back) := by
  unfold descend?
  exact List.foldlM_append

theorem descend?_filter : descend? here (fields.filter (!Path.isFiller ·)) = descend? here fields := by
  induction fields generalizing here with
  | nil => rfl
  | cons field fields ih =>
    by_cases h : Path.isFiller field = true
    · rw [List.filter_cons_of_neg (by simp [h]), ih, descend?_cons, step?_of_isFiller h]
      rfl
    · rw [List.filter_cons_of_pos (by simp [h]), descend?_cons, descend?_cons]
      exact congrArg _ (funext fun next => ih)

theorem descend?_segments (h : ∀ name ∈ fields, Path.IsSegment name) :
    descend? here fields = some last ↔ last = here ++ fields ∧ ∀ name ∈ fields, isName name = true := by
  induction fields generalizing here with
  | nil =>
    rw [descend?_nil, Option.some.injEq, List.append_nil]
    exact ⟨fun h => ⟨h.symm, by simp⟩, fun h => h.1.symm⟩
  | cons field fields ih =>
    rw [List.forall_mem_cons] at h
    rw [descend?_cons, step?_of_isSegment h.1, List.forall_mem_cons]
    by_cases hn : isName field = true
    · simp [hn, ih h.2]
    · simp [hn]

theorem descend?_names (h : ∀ name ∈ fields, isName name = true) :
    descend? here fields = some (here ++ fields) :=
  (descend?_segments fun name hn => isSegment_of_isName (h name hn)).2 ⟨rfl, h⟩

theorem prefix_of_descend? (h : ".." ∉ fields) (hd : descend? here fields = some last) :
    here <+: last := by
  induction fields generalizing here with
  | nil =>
    cases hd
    exact List.prefix_rfl
  | cons field fields ih =>
    rw [List.mem_cons, not_or] at h
    obtain ⟨next, hn, hd⟩ := Option.bind_eq_some_iff.1 (descend?_cons ▸ hd)
    refine List.IsPrefix.trans ?_ (ih h.2 hd)
    rw [step?, if_neg (Ne.symm h.1)] at hn
    split_ifs at hn <;> cases hn
    · exact List.prefix_rfl
    · exact List.prefix_append _ _

/-- The places that fields lead through, with the first and the last. -/
def route (here : Location) : List String → List Location
  | [] => [here]
  | field :: rest =>
    here :: match step? here field with
      | some next => route next rest
      | none => []

theorem mem_route_start : here ∈ route here fields := by
  cases fields <;> simp [route]

theorem mem_route_of_descend? (h : descend? here fields = some last) : last ∈ route here fields := by
  induction fields generalizing here with
  | nil =>
    cases h
    exact mem_route_start
  | cons field fields ih =>
    obtain ⟨next, hn, hl⟩ := Option.bind_eq_some_iff.1 (descend?_cons ▸ h)
    simp [route, hn, ih hl]

theorem mem_route_append (h : descend? here front = some next) :
    place ∈ route here (front ++ back) ↔ place ∈ route here front ∨ place ∈ route next back := by
  induction front generalizing here with
  | nil =>
    cases h
    simp only [List.nil_append, route, List.mem_singleton]
    constructor
    · exact .inr
    · rintro (rfl | h)
      · exact mem_route_start
      · exact h
  | cons field front ih =>
    obtain ⟨middle, hm, hn⟩ := Option.bind_eq_some_iff.1 (descend?_cons ▸ h)
    simp only [List.cons_append, route, hm, List.mem_cons, ih hn, or_assoc]

theorem mem_route_append_of_none (h : descend? here front = none) :
    place ∈ route here (front ++ back) ↔ place ∈ route here front := by
  induction front generalizing here with
  | nil => cases h
  | cons field front ih =>
    rw [descend?_cons] at h
    simp only [List.cons_append, route]
    cases hs : step? here field with
    | none => rfl
    | some next =>
      rw [hs, Option.bind_some] at h
      simp only [List.mem_cons, ih h]

theorem mem_route_filter :
    place ∈ route here (fields.filter (!Path.isFiller ·)) ↔ place ∈ route here fields := by
  induction fields generalizing here with
  | nil => rfl
  | cons field fields ih =>
    by_cases h : Path.isFiller field = true
    · rw [List.filter_cons_of_neg (by simp [h]), ih]
      simp only [route, step?_of_isFiller h, List.mem_cons, iff_or_self]
      rintro rfl
      exact mem_route_start
    · rw [List.filter_cons_of_pos (by simp [h])]
      simp only [route]
      cases step? here field with
      | none => rfl
      | some next => simp only [List.mem_cons, ih]

theorem mem_route_names (h : ∀ name ∈ fields, isName name = true) :
    place ∈ route here fields ↔ ∃ front, front <+: fields ∧ place = here ++ front := by
  induction fields generalizing here with
  | nil => simp [route]
  | cons field fields ih =>
    rw [List.forall_mem_cons] at h
    simp only [route, step?_of_isName h.1, List.mem_cons, ih h.2]
    constructor
    · rintro (rfl | ⟨front, hf, rfl⟩)
      · exact ⟨[], List.nil_prefix, by simp⟩
      · exact ⟨field :: front, List.cons_prefix_cons.2 ⟨rfl, hf⟩, by simp⟩
    · rintro ⟨front, hf, rfl⟩
      cases front with
      | nil => exact .inl (by simp)
      | cons first front =>
        obtain ⟨rfl, hfront⟩ := List.cons_prefix_cons.1 hf
        exact .inr ⟨front, hfront, by simp⟩

/-- Where fields do not lead upwards, every place on the way is above the last one. -/
theorem prefix_of_mem_route (h : ".." ∉ fields) (hd : descend? here fields = some last)
    (hp : place ∈ route here fields) : place <+: last := by
  induction fields generalizing here with
  | nil =>
    cases hd
    exact List.mem_singleton.1 hp ▸ List.prefix_rfl
  | cons field fields ih =>
    obtain ⟨next, hn, hnext⟩ := Option.bind_eq_some_iff.1 (descend?_cons ▸ hd)
    simp only [route, hn] at hp
    rcases List.mem_cons.1 hp with rfl | hp
    · exact prefix_of_descend? h hd
    · exact ih (fun hm => h (List.mem_cons_of_mem _ hm)) hnext hp

/-- Fields that do not lead upwards lead through places inside the one where they start. -/
theorem start_prefix_of_mem_route (h : ".." ∉ fields)
    (hp : place ∈ route here fields) : here <+: place := by
  induction fields generalizing here with
  | nil => exact List.mem_singleton.1 hp ▸ List.prefix_rfl
  | cons field fields ih =>
    rw [List.mem_cons, not_or] at h
    unfold route at hp
    rcases List.mem_cons.1 hp with rfl | hp
    · exact List.prefix_rfl
    · split at hp
      · rename_i next hn
        have hnext : descend? here [field] = some next := by
          rw [descend?_cons, hn]
          rfl
        exact (prefix_of_descend? (by simpa using h.1) hnext).trans (ih h.2 hp)
      · cases hp

theorem isName_of_mem_route (hh : ∀ name ∈ here, isName name = true) (hp : place ∈ route here fields) :
    ∀ name ∈ place, isName name = true := by
  induction fields generalizing here with
  | nil =>
    rw [route, List.mem_singleton] at hp
    rwa [hp]
  | cons field fields ih =>
    unfold route at hp
    rcases List.mem_cons.1 hp with rfl | hp
    · exact hh
    · cases hs : step? here field with
      | none => simp [hs] at hp
      | some next =>
        rw [hs] at hp
        refine ih ?_ hp
        unfold step? at hs
        split_ifs at hs with _ _ hn
        · cases hs
          exact hh
        · cases hs
          exact fun name hm => hh name (List.dropLast_subset _ hm)
        · cases hs
          simpa [or_imp, forall_and] using ⟨hh, hn⟩

/-! ## Following fields -/

theorem descend?_of_follow? (h : tree.follow? here fields = some last) :
    descend? here fields = some last := by
  induction fields generalizing here with
  | nil => exact h
  | cons field fields ih =>
    unfold follow? at h
    split at h
    · obtain ⟨next, hn, hl⟩ := Option.bind_eq_some_iff.1 h
      rw [descend?_cons, hn]
      exact ih hl
    · simp at h

/-- A path leads to the same place where there are the same folders on its way. -/
theorem follow?_mono (hf : ∀ x ∈ route here fields, tree.get? x = some .folder → other.get? x = some .folder)
    (h : tree.follow? here fields = some last) : other.follow? here fields = some last := by
  induction fields generalizing here with
  | nil => exact h
  | cons field fields ih =>
    unfold follow? at h ⊢
    split at h
    · rename_i hh
      rw [if_pos (hf _ mem_route_start hh)]
      obtain ⟨next, hn, hl⟩ := Option.bind_eq_some_iff.1 h
      rw [hn]
      refine ih (fun x hx => hf x ?_) hl
      rw [route, hn]
      exact List.mem_cons_of_mem _ hx
    · simp at h

theorem follow?_append_of_route (hd : descend? here front = some next)
    (hf : ∀ x ∈ route here front, tree.get? x = some .folder) :
    tree.follow? here (front ++ back) = tree.follow? next back := by
  induction front generalizing here with
  | nil =>
    cases hd
    rfl
  | cons field front ih =>
    obtain ⟨middle, hm, hn⟩ := Option.bind_eq_some_iff.1 (descend?_cons ▸ hd)
    simp only [route, hm, List.forall_mem_cons] at hf
    rw [List.cons_append, follow?, if_pos hf.1, hm]
    exact ih hn hf.2

/-- What is followed to a folder leads through folders only. -/
theorem folder_of_mem_route (h : tree.follow? here fields = some last)
    (hl : tree.get? last = some .folder) (hx : place ∈ route here fields) :
    tree.get? place = some .folder := by
  induction fields generalizing here with
  | nil =>
    cases h
    rw [route, List.mem_singleton] at hx
    rw [hx, hl]
  | cons field fields ih =>
    unfold follow? at h
    split at h
    · rename_i hh
      obtain ⟨next, hn, hf⟩ := Option.bind_eq_some_iff.1 h
      simp only [route, hn, List.mem_cons] at hx
      rcases hx with rfl | hx
      · exact hh
      · exact ih hf hx
    · simp at h

/-! ## Making folders -/

/-- The folders of a way have been made where they were missing, and nothing else. -/
structure FoldersMade (way : List Location) (old new : FileTree) : Prop where
  free : ∀ x ∈ way, ∀ content, old.get? x ≠ some (.file content)
  workingFolder_eq : new.workingFolder = old.workingFolder
  get?_eq : ∀ x, new.get? x = if x ∈ way then some .folder else old.get? x

variable {way : List Location} {old new : FileTree}

theorem FoldersMade.singleton (hh : tree.get? here = some .folder) : FoldersMade [here] tree tree where
  free := by simp [hh]
  workingFolder_eq := rfl
  get?_eq x := by
    by_cases hx : x = here
    · simp [hx, hh]
    · simp [hx]

/-- A folder that is there already may stand in front of the way. -/
theorem FoldersMade.cons (h : FoldersMade way old new) (hh : old.get? here = some .folder) :
    FoldersMade (here :: way) old new where
  free x hx content := by
    rcases List.mem_cons.1 hx with rfl | hx
    · simp [hh]
    · exact h.free x hx content
  workingFolder_eq := h.workingFolder_eq
  get?_eq x := by
    rw [h.get?_eq]
    by_cases hx : x = here
    · simp [hx, hh]
    · simp [hx]

/-- A folder on the way that was missing may have been made first. -/
theorem FoldersMade.of_put (h : FoldersMade way (old.put here .folder) new)
    (hh : old.get? here = none) (hmem : here ∈ way) : FoldersMade way old new := by
  have hroot : here ≠ [] := ne_root_of_get?_eq_none hh
  refine ⟨fun x hx content hc => ?_, h.workingFolder_eq, fun x => ?_⟩
  · have hne : x ≠ here := by rintro rfl; simp [hh] at hc
    exact h.free x hx content (by rw [get?_put hroot, if_neg hne, hc])
  · rw [h.get?_eq, get?_put hroot]
    by_cases hx : x ∈ way
    · simp [hx]
    · have hne : x ≠ here := by rintro rfl; exact hx hmem
      simp [hx, hne]

theorem makeFrom?_eq_some (hh : tree.get? here = some .folder)
    (h : tree.makeFrom? here fields = some (made, last)) :
    descend? here fields = some last ∧ FoldersMade (route here fields) tree made := by
  induction fields generalizing tree here with
  | nil =>
    cases h
    exact ⟨rfl, .singleton hh⟩
  | cons field fields ih =>
    unfold makeFrom? at h
    obtain ⟨next, hn, h⟩ := Option.bind_eq_some_iff.1 h
    rw [descend?_cons, hn]
    simp only [Option.bind_some, route, hn]
    cases hnext : tree.get? next with
    | none =>
      rw [hnext] at h
      have hroot : next ≠ [] := ne_root_of_get?_eq_none hnext
      obtain ⟨hd, hm⟩ := ih (by simp [get?_put hroot]) h
      exact ⟨hd, (hm.of_put hnext mem_route_start).cons hh⟩
    | some found =>
      cases found with
      | file content => simp [hnext] at h
      | folder =>
        rw [hnext] at h
        obtain ⟨hd, hm⟩ := ih hnext h
        exact ⟨hd, hm.cons hh⟩

theorem makeFrom?_isSome (hd : descend? here fields = some last)
    (hf : ∀ x ∈ route here fields, ∀ content, tree.get? x ≠ some (.file content)) :
    ∃ made, tree.makeFrom? here fields = some (made, last) := by
  induction fields generalizing tree here with
  | nil =>
    cases hd
    exact ⟨tree, rfl⟩
  | cons field fields ih =>
    obtain ⟨next, hn, hd⟩ := Option.bind_eq_some_iff.1 (descend?_cons ▸ hd)
    simp only [route, hn, List.forall_mem_cons] at hf
    unfold makeFrom?
    simp only [hn, Option.bind_some]
    cases hnext : tree.get? next with
    | none =>
      have hroot : next ≠ [] := ne_root_of_get?_eq_none hnext
      apply ih hd
      intro x hx content
      rw [get?_put hroot]
      split
      · simp
      · exact hf.2 x hx content
    | some found =>
      cases found with
      | file content => exact absurd hnext (hf.2 next mem_route_start content)
      | folder => exact ih hd hf.2

/-! ## Listing what is below a folder -/

theorem inOrder_total : ∀ first second : Location,
    (inOrder first second || inOrder second first) = true
  | [], _ => by simp [inOrder]
  | _ :: _, [] => by simp [inOrder]
  | name :: rest, other :: others => by
    by_cases h : name = other
    · subst h
      simpa [inOrder] using inOrder_total rest others
    · simpa [inOrder, h, Ne.symm h] using lt_or_gt_of_ne h

theorem inOrder_trans : ∀ first second third : Location, inOrder first second = true →
    inOrder second third = true → inOrder first third = true
  | [], _, _, _, _ => by simp [inOrder]
  | _ :: _, [], _, h, _ => by simp [inOrder] at h
  | _ :: _, _ :: _, [], _, h => by simp [inOrder] at h
  | a :: first, b :: second, c :: third, hab, hbc => by
    have ih := inOrder_trans first second third
    simp only [inOrder] at hab hbc ⊢
    split at hab
    · rename_i h
      subst h
      split at hbc
      · rename_i h
        subst h
        simpa using ih hab hbc
      · rename_i h
        simpa [h] using hbc
    · rename_i h
      have hlt : a < b := by simpa using hab
      split at hbc
      · rename_i h
        subst h
        simpa [hlt.ne] using hlt
      · have hac : a < c := hlt.trans (by simpa using hbc)
        simpa [hac.ne] using hac

theorem inOrder_antisymm : ∀ first second : Location, inOrder first second = true →
    inOrder second first = true → first = second
  | [], [], _, _ => rfl
  | [], _ :: _, _, h => by simp [inOrder] at h
  | _ :: _, [], h, _ => by simp [inOrder] at h
  | a :: first, b :: second, hab, hba => by
    simp only [inOrder] at hab hba
    by_cases h : a = b
    · subst h
      rw [inOrder_antisymm first second (by simpa using hab) (by simpa using hba)]
    · rw [if_neg h, decide_eq_true_eq] at hab
      rw [if_neg (Ne.symm h), decide_eq_true_eq] at hba
      exact absurd hba hab.asymm

theorem mem_below {rest : List String} :
    (rest, entry) ∈ tree.below place ↔ rest ≠ [] ∧ tree.get? (place ++ rest) = some entry := by
  unfold below
  rw [(List.mergeSort_perm _ _).mem_iff, List.mem_filterMap]
  constructor
  · rintro ⟨⟨key, found⟩, hk, hf⟩
    cases hp : place.isPrefixOf? key with
    | none => simp [hp] at hf
    | some behind =>
      cases behind with
      | nil => simp [hp] at hf
      | cons name behind =>
        simp only [hp, Option.some.injEq, Prod.mk.injEq] at hf
        obtain ⟨rfl, rfl⟩ := hf
        obtain rfl := List.isPrefixOf?_eq_some_iff_append_eq.1 hp
        refine ⟨by simp, ?_⟩
        rw [get?, if_neg (by simp)]
        exact OrderedMap.get?_eq_some.2 hk
  · rintro ⟨hne, hg⟩
    obtain ⟨name, behind, rfl⟩ := List.exists_cons_of_ne_nil hne
    refine ⟨(place ++ name :: behind, entry), ?_, ?_⟩
    · rw [get?, if_neg (by simp)] at hg
      exact OrderedMap.get?_eq_some.1 hg
    · rw [List.isPrefixOf?_eq_some_iff_append_eq.2 rfl]

theorem pairwise_below : (tree.below place).Pairwise fun a b => inOrder a.1 b.1 = true := by
  unfold below
  exact List.pairwise_mergeSort (fun a b c => inOrder_trans a.1 b.1 c.1)
    (fun a b => inOrder_total a.1 b.1) _

theorem nodup_keys_below : ((tree.below place).map Prod.fst).Nodup := by
  have hn : (tree.below place).Nodup := by
    unfold below
    rw [(List.mergeSort_perm _ _).nodup_iff]
    apply List.Nodup.filterMap ?_ (List.Nodup.of_map _ tree.entries.nodup)
    rintro ⟨first, a⟩ ⟨second, b⟩ ⟨rest, c⟩ ha hb
    cases hf : place.isPrefixOf? first <;> cases hs : place.isPrefixOf? second <;>
      simp only [hf, hs, Option.mem_def, reduceCtorEq] at ha hb
    rename_i front back
    cases front <;> cases back <;> simp only [reduceCtorEq, Option.some.injEq, Prod.mk.injEq] at ha hb
    obtain ⟨rfl, rfl⟩ := ha
    obtain ⟨hrest, rfl⟩ := hb
    rw [← List.isPrefixOf?_eq_some_iff_append_eq.1 hf, ← List.isPrefixOf?_eq_some_iff_append_eq.1 hs,
      hrest]
  rw [List.nodup_map_iff_inj_on hn]
  rintro ⟨rest, a⟩ ha ⟨other, b⟩ hb rfl
  have he := (mem_below.1 ha).2.symm.trans (mem_below.1 hb).2
  rw [Option.some.inj he]

theorem mem_keys_below {rest : List String} :
    rest ∈ (tree.below place).map Prod.fst ↔
      rest ≠ [] ∧ (tree.get? (place ++ rest)).isSome = true := by
  simp only [List.mem_map, Prod.exists, exists_and_right, exists_eq_right, mem_below,
    Option.isSome_iff_exists, exists_and_left]

/-- What is below a folder is listed in an order that only depends on what is there. -/
theorem forall₂_below {R : FileEntry → FileEntry → Prop}
    (h : ∀ rest, Option.Rel R (tree.get? (place ++ rest)) (other.get? (place ++ rest))) :
    List.Forall₂ (fun a b => a.1 = b.1 ∧ R a.2 b.2) (tree.below place) (other.below place) := by
  have hkeys : (tree.below place).map Prod.fst = (other.below place).map Prod.fst := by
    have hperm : ((tree.below place).map Prod.fst).Perm ((other.below place).map Prod.fst) := by
      rw [List.perm_ext_iff_of_nodup nodup_keys_below nodup_keys_below]
      intro rest
      rw [mem_keys_below, mem_keys_below]
      have hr := h rest
      cases ht : tree.get? (place ++ rest) <;> cases ho : other.get? (place ++ rest) <;>
        simp_all
    exact hperm.eq_of_pairwise (fun a b _ _ => inOrder_antisymm a b)
      (List.pairwise_map.2 pairwise_below) (List.pairwise_map.2 pairwise_below)
  have hsame : List.Forall₂ (fun a b => a.1 = b.1) (tree.below place) (other.below place) := by
    have heq := List.forall₂_eq_eq_eq ▸ hkeys
    simpa only [List.forall₂_map_left_iff, List.forall₂_map_right_iff] using heq
  rw [List.forall₂_iff_zip] at hsame ⊢
  refine ⟨hsame.1, ?_⟩
  rintro ⟨rest, a⟩ ⟨other, b⟩ hz
  obtain rfl : rest = other := hsame.2 hz
  obtain ⟨ha, hb⟩ := List.of_mem_zip hz
  have hr := h rest
  rw [(mem_below.1 ha).2, (mem_below.1 hb).2] at hr
  cases hr with
  | some hr => exact ⟨rfl, hr⟩

/-- The same list by a sort that is evaluated step by step. -/
theorem below_eq_insertionSort : below = fun tree place =>
    (tree.entries.entries.filterMap fun entry =>
      match place.isPrefixOf? entry.1 with
      | some (name :: rest) => some (name :: rest, entry.2)
      | _ => none).insertionSort fun a b => inOrder a.1 b.1 = true := by
  funext tree place
  have htotal : Std.Total fun a b : List String × FileEntry => inOrder a.1 b.1 = true :=
    ⟨fun a b => by simpa using inOrder_total a.1 b.1⟩
  have htrans : IsTrans (List String × FileEntry) fun a b => inOrder a.1 b.1 = true :=
    ⟨fun a b c => inOrder_trans a.1 b.1 c.1⟩
  have hsame := (List.mergeSort_perm (tree.entries.entries.filterMap fun entry =>
    match place.isPrefixOf? entry.1 with
    | some (name :: rest) => some (name :: rest, entry.2)
    | _ => none) fun a b => inOrder a.1 b.1).trans
      (List.perm_insertionSort (fun a b => inOrder a.1 b.1 = true) _).symm
  refine hsame.eq_of_pairwise (fun a b ha hb hab hba => ?_) pairwise_below
    (List.pairwise_insertionSort _ _)
  exact List.inj_on_of_nodup_map nodup_keys_below ha (hsame.mem_iff.2 hb) (inOrder_antisymm _ _ hab hba)

end FileTree

/-! ## Where a path leads -/

namespace Path

variable {path base : Path} {here folder target place : Location} {name : String}
  {front : List String}

/-- Where a path starts, with a working folder. -/
def origin (here : Location) (path : Path) : Location := if path.isAbsolute then [] else here

/-- The place that a path names. -/
def target? (here : Location) (path : Path) : Option Location := descend? (path.origin here) path.parts

/-- The places that a path leads through, its own among them. -/
def way (here : Location) (path : Path) : List Location := route (path.origin here) path.parts

theorem target?_eq_descend? : path.target? here = descend? (path.origin here) path.fields :=
  descend?_filter

theorem mem_way : place ∈ path.way here ↔ place ∈ route (path.origin here) path.fields :=
  mem_route_filter

theorem origin_mem_way : path.origin here ∈ path.way here := mem_route_start

theorem target_mem_way (h : path.target? here = some target) : target ∈ path.way here :=
  mem_route_of_descend? h

theorem origin_join (h : path.isAbsolute = false) : (base.join path).origin here = base.origin here := by
  rw [origin, isAbsolute_join h, origin]

theorem target?_join (h : path.isAbsolute = false) : (base.join path).target? here =
    (base.target? here).bind (descend? · path.parts) := by
  rw [target?, origin_join h, parts_join h, descend?_append]
  rfl

theorem target?_joinAll {names : List String} (h : ∀ name ∈ names, '/' ∉ name.toList) :
    (base.joinAll names).target? here = (base.target? here).bind (descend? · names) := by
  rw [target?, origin, isAbsolute_joinAll h, parts_joinAll h, descend?_append]
  exact congrArg _ (funext fun place => descend?_filter)

/-- Names joined behind a base that do not lead upwards lead to a place inside it. -/
theorem target?_joinAll_names {names : List String} (hf : base.target? here = some folder)
    (h : ∀ name ∈ names, isName name = true) :
    (base.joinAll names).target? here = some (folder ++ names) := by
  rw [target?_joinAll fun name hn => (isSegment_of_isName (h name hn)).no_separator, hf, Option.bind_some,
    descend?_names h]

theorem target?_joinAll_inside {names : List String} (h : ∀ name ∈ names, '/' ∉ name.toList)
    (hup : ".." ∉ names) (ht : (base.joinAll names).target? here = some target) :
    ∃ folder, base.target? here = some folder ∧ folder <+: target := by
  rw [target?_joinAll h] at ht
  obtain ⟨folder, hf, hd⟩ := Option.bind_eq_some_iff.1 ht
  exact ⟨folder, hf, prefix_of_descend? hup hd⟩

theorem mem_way_join (h : path.isAbsolute = false) (hf : base.target? here = some folder) :
    place ∈ (base.join path).way here ↔ place ∈ base.way here ∨ place ∈ route folder path.parts := by
  rw [way, origin_join h, parts_join h]
  exact mem_route_append hf

theorem mem_way_joinAll {names : List String} (h : ∀ name ∈ names, '/' ∉ name.toList)
    (hf : base.target? here = some folder) :
    place ∈ (base.joinAll names).way here ↔ place ∈ base.way here ∨ place ∈ route folder names := by
  rw [way, origin, isAbsolute_joinAll h, parts_joinAll h]
  exact (mem_route_append hf).trans (or_congr_right mem_route_filter)

/-- Behind a base a path leads through what the base leads through, and further through places
inside the folder of the base. -/
theorem mem_way_of_join (h : IsSegment name) (hp : place ∈ (base.join ⟨name⟩).way here) :
    place ∈ base.way here ∨ ∃ folder, base.target? here = some folder ∧ place = folder ++ [name] := by
  cases hf : base.target? here with
  | none =>
    rw [way, origin_join h.isAbsolute_eq, h.parts_join] at hp
    exact .inl ((mem_route_append_of_none hf).1 hp)
  | some folder =>
    rcases (mem_way_join h.isAbsolute_eq hf).1 hp with hp | hp
    · exact .inl hp
    · rw [h.parts_eq, route, step?_of_isSegment h] at hp
      split at hp
      · rename_i next hnext
        split at hnext
        · cases hnext
          rcases List.mem_cons.1 hp with rfl | hp
          · exact .inl (target_mem_way hf)
          · exact .inr ⟨folder, rfl, by simpa [route] using hp⟩
        · cases hnext
      · rw [List.mem_singleton.1 hp]
        exact .inl (target_mem_way hf)

theorem IsSegment.target?_join (h : IsSegment name) : (base.join ⟨name⟩).target? here = some target ↔
    ∃ folder, base.target? here = some folder ∧ isName name = true ∧ target = folder ++ [name] := by
  rw [Path.target?_join h.isAbsolute_eq, h.parts_eq, Option.bind_eq_some_iff]
  simp only [descend?_cons, step?_of_isSegment h]
  refine exists_congr fun folder => and_congr_right fun _ => ?_
  split
  · rename_i hn
    simp [hn, eq_comm]
  · rename_i hn
    simp [hn]

theorem LeadsTo.target?_eq_some {inner : List String} (h : LeadsTo base inner name path) :
    path.target? here = some target ↔ ∃ folder, base.target? here = some folder ∧
      target = folder ++ inner ++ [name] ∧ ∀ part ∈ inner ++ [name], isName part = true := by
  have horigin : path.origin here = base.origin here := by rw [origin, h.isAbsolute_eq, origin]
  rw [Path.target?, horigin, h.parts_eq, List.append_assoc, descend?_append, Option.bind_eq_some_iff]
  refine exists_congr fun folder => and_congr_right fun _ => ?_
  rw [descend?_segments h.segments, List.append_assoc]

end Path

namespace FileTree

variable {tree other : FileTree} {path : Path} {place last : Location} {name : String}
  {front : List String} {content : File}

theorem locate?_eq_some : tree.locate? path = some place ↔
    path.text ≠ "" ∧ fits path = true ∧ tree.follow? (path.origin tree.workingFolder) path.fields = some place := by
  unfold locate?
  split
  · rename_i h
    exact ⟨fun hl => ⟨h.1, h.2, hl⟩, fun hl => hl.2.2⟩
  · rename_i h
    simp only [reduceCtorEq, false_iff]
    exact fun hl => h ⟨hl.1, hl.2.1⟩

theorem target?_of_locate? (h : tree.locate? path = some place) :
    path.target? tree.workingFolder = some place := by
  rw [Path.target?_eq_descend?]
  exact descend?_of_follow? (locate?_eq_some.1 h).2.2

theorem locate?_mono (h : tree.locate? path = some place)
    (hw : other.workingFolder = tree.workingFolder)
    (hf : ∀ x ∈ path.way tree.workingFolder, tree.get? x = some .folder → other.get? x = some .folder) :
    other.locate? path = some place := by
  obtain ⟨ht, hfit, h⟩ := locate?_eq_some.1 h
  refine locate?_eq_some.2 ⟨ht, hfit, ?_⟩
  rw [hw]
  exact follow?_mono (fun x hx => hf x (Path.mem_way.2 hx)) h

/-- A path with a name at its end leads somewhere when there are folders up to the name. -/
theorem locate?_of_last (hl : path.fields = front ++ [name]) (hn : isName name = true)
    (hfit : fits path = true) (hd : descend? (path.origin tree.workingFolder) front = some last)
    (hf : ∀ x ∈ route (path.origin tree.workingFolder) front, tree.get? x = some .folder) :
    tree.locate? path = some (last ++ [name]) := by
  refine locate?_eq_some.2 ⟨?_, hfit, ?_⟩
  · intro ht
    have hempty : path.fields = [""] := by
      cases path
      simp only at ht
      rw [ht, Path.fields_empty]
    rw [hempty, List.singleton_eq_append_iff] at hl
    simp at hl
    simp [← hl.2, isName, Path.isFiller] at hn
  · rw [hl, follow?_append_of_route hd hf, follow?, if_pos (hf last (mem_route_of_descend? hd)),
      step?_of_isName hn]
    rfl

/-- A filler behind a path to a folder changes nothing. -/
theorem locate?_of_filler (hl : path.fields = front ++ [name]) (hn : Path.isFiller name = true)
    (ht : path.text ≠ "") (hfit : fits path = true)
    (hd : descend? (path.origin tree.workingFolder) front = some last)
    (hf : ∀ x ∈ route (path.origin tree.workingFolder) front, tree.get? x = some .folder) :
    tree.locate? path = some last := by
  refine locate?_eq_some.2 ⟨ht, hfit, ?_⟩
  rw [hl, follow?_append_of_route hd hf, follow?, if_pos (hf last (mem_route_of_descend? hd)),
    step?_of_isFiller hn]
  rfl

theorem read?_eq_some : tree.read? path = some content ↔
    ∃ place, tree.locate? path = some place ∧ tree.get? place = some (.file content) := by
  unfold read? entry?
  constructor
  · intro h
    split at h
    · rename_i found he
      cases h
      exact Option.bind_eq_some_iff.1 he
    · simp at h
  · rintro ⟨place, hl, hg⟩
    simp [hl, hg]

theorem isFile_iff : tree.isFile path = true ↔ ∃ content, tree.read? path = some content := by
  unfold isFile read?
  split <;> simp

theorem exists?_iff : tree.exists? path = true ↔
    ∃ place entry, tree.locate? path = some place ∧ tree.get? place = some entry := by
  simp only [exists?, entry?, Option.isSome_iff_exists, Option.bind_eq_some_iff]
  exact exists_comm

/-- The file at a place. -/
def fileAt? (tree : FileTree) (place : Location) : Option File :=
  match tree.get? place with
  | some (.file content) => some content
  | _ => none

theorem fileAt?_eq_some : tree.fileAt? place = some content ↔ tree.get? place = some (.file content) := by
  unfold fileAt?
  split <;> simp_all

theorem isReadOnly_eq_true : tree.isReadOnly place = true ↔
    ∃ content, tree.get? place = some (.file content) ∧ content.readOnly = true := by
  unfold isReadOnly
  split <;> simp_all

theorem isReadOnly_congr (h : other.get? place = tree.get? place) :
    other.isReadOnly place = tree.isReadOnly place := by
  unfold isReadOnly
  rw [h]

theorem isReadOnly_of_get? (h : tree.get? place = some (.file content)) :
    tree.isReadOnly place = content.readOnly := by
  unfold isReadOnly
  rw [h]

theorem mem_filesBelow {rest : List String} {bytes : ByteArray} : (rest, bytes) ∈ tree.filesBelow place ↔
    rest ≠ [] ∧ ∃ content, tree.get? (place ++ rest) = some (.file content) ∧ content.bytes = bytes := by
  unfold filesBelow
  rw [List.mem_filterMap]
  constructor
  · rintro ⟨⟨names, found⟩, hm, hf⟩
    obtain ⟨hne, hg⟩ := mem_below.1 hm
    cases found with
    | folder => cases hf
    | file content =>
      cases hf
      exact ⟨hne, content, hg, rfl⟩
  · rintro ⟨hne, content, hg, rfl⟩
    exact ⟨(rest, .file content), mem_below.2 ⟨hne, hg⟩, rfl⟩

end FileTree

end DatabaseProject
