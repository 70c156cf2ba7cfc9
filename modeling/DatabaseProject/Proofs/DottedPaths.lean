import DatabaseProject.Proofs.Replay

/-!
# Paths from a dot

A relative path leads to the same place when `./` is written in front of it, as long as the text of
the path stays short enough. So the sources that are looked for below the empty path are those that
are looked for below `.`, except where a path has no segments: the empty path leads nowhere.
-/

namespace DatabaseProject

open FileTree Outcome

namespace Path

variable {path other : Path} {name : String} {names : List String}

/-- The path from the working folder, as written. -/
def dotted (path : Path) : Path := ⟨"./" ++ path.text⟩

/-- The same path, or a relative one with a dot in front of it. -/
inductive SameOrDotted : Path → Path → Prop
  | same (path : Path) : SameOrDotted path path
  | dotted {path : Path} (hne : path.text ≠ "") (hr : path.isAbsolute = false) :
      SameOrDotted path path.dotted

theorem fields_dotted (path : Path) : path.dotted.fields = "." :: path.fields := by
  have hdot : (Path.mk ".").fields = ["."] := fields_of_no_separator (by decide)
  have hfields := @fields_append_separator "." path.text
  rw [hdot] at hfields
  exact hfields

theorem isAbsolute_dotted (path : Path) : path.dotted.isAbsolute = false := by
  simp [isAbsolute, dotted]

theorem dotted_join (hne : path.text ≠ "") (hr : other.isAbsolute = false) :
    path.dotted.join other = (path.join other).dotted := by
  have hlast : path.dotted.text.toList.getLast? = path.text.toList.getLast? := by
    have hchars : path.text.toList ≠ [] := by simpa using hne
    rw [dotted, String.toList_append, List.getLast?_append_of_ne_nil _ hchars]
  simp only [join, hlast, hr, Bool.false_eq_true, if_false]
  split <;> simp [dotted, String.append_assoc]

theorem text_join_ne_empty (hne : path.text ≠ "") (hr : other.isAbsolute = false) :
    (path.join other).text ≠ "" := by
  unfold join
  rw [if_neg (by simp [hr])]
  split <;> simp [hne]

theorem SameOrDotted.join (h : SameOrDotted path other) (piece : Path) :
    SameOrDotted (path.join piece) (other.join piece) := by
  cases h with
  | same => exact .same _
  | dotted hne hr =>
    cases hp : piece.isAbsolute with
    | true =>
      unfold Path.join
      rw [if_pos hp, if_pos hp]
      exact .same piece
    | false =>
      rw [dotted_join hne hp]
      exact .dotted (text_join_ne_empty hne hp) ((isAbsolute_join hp).trans hr)

theorem SameOrDotted.joinAll (h : SameOrDotted path other) (names : List String) :
    SameOrDotted (path.joinAll names) (other.joinAll names) := by
  induction names generalizing path other with
  | nil => exact h
  | cons name rest ih => exact ih (h.join ⟨name⟩)

/-- What is below the working folder, where there are names. -/
theorem sameOrDotted_joinAll (hne : name ≠ "") (hs : '/' ∉ name.toList) (names : List String) :
    SameOrDotted ((Path.mk "").joinAll (name :: names)) ((Path.mk ".").joinAll (name :: names)) := by
  have hr := isAbsolute_of_no_separator hs
  have hempty : (Path.mk "").join ⟨name⟩ = ⟨name⟩ := by simp [Path.join, hr]
  have hdot : (Path.mk ".").join ⟨name⟩ = (Path.mk name).dotted := by
    simp [Path.join, hr, dotted]
  rw [joinAll_cons, joinAll_cons, hempty, hdot]
  exact (SameOrDotted.dotted hne hr).joinAll names

end Path

namespace FileTree

variable {tree old : FileTree} {path source other target : Path}

/-- The path does not come within two bytes of the longest that leads anywhere. -/
def HasRoom (path : Path) : Prop := fits path = true → fits path.dotted = true

instance (path : Path) : Decidable (HasRoom path) :=
  inferInstanceAs (Decidable (fits path = true → fits path.dotted = true))

theorem fits_of_dotted (h : fits path.dotted = true) : fits path = true := by
  simp only [fits, Path.dotted, decide_eq_true_eq, String.utf8ByteSize_append] at h ⊢
  omega

theorem fits_eq (h : path.SameOrDotted other) (hroom : other ≠ path → HasRoom path) :
    fits other = fits path := by
  by_cases he : other = path
  · rw [he]
  cases h with
  | same => exact absurd rfl he
  | dotted =>
    rw [Bool.eq_iff_iff]
    exact ⟨fits_of_dotted, hroom he⟩

theorem locate?_eq (h : path.SameOrDotted other) (hroom : other ≠ path → HasRoom path)
    (hh : tree.get? tree.workingFolder = some .folder) : tree.locate? other = tree.locate? path := by
  have hfits := fits_eq h hroom
  cases h with
  | same => rfl
  | dotted hne hr =>
    have hstart : tree.start path.dotted = tree.start path := by
      simp [start, Path.isAbsolute_dotted, hr]
    have hhome : tree.start path = tree.workingFolder := by simp [start, hr]
    have hfollow : tree.follow? tree.workingFolder ("." :: path.fields) =
        tree.follow? tree.workingFolder path.fields := by
      rw [follow?, if_pos hh, step?_of_isFiller (by decide)]
      rfl
    unfold locate?
    rw [hstart, hfits, Path.fields_dotted, hhome, hfollow]
    simp [hne, Path.dotted]

theorem read?_eq (h : path.SameOrDotted other) (hroom : other ≠ path → HasRoom path)
    (hh : tree.get? tree.workingFolder = some .folder) : tree.read? other = tree.read? path := by
  unfold read? entry?
  rw [locate?_eq h hroom hh]

/-- Copying only reads the source, from trees that cover the first one. -/
theorem copy_congr (h : ∀ later, old.CoveredBy later → later.read? other = later.read? source) :
    old.copy other target = old.copy source target := by
  unfold copy
  cases hm : old.makeFolder (target.parent?.getD ⟨""⟩) with
  | error e => rfl
  | ok made =>
    obtain ⟨made, folder⟩ := made
    have hmade := (keptBy_makeFrom? (makeFolder_eq_ok.1 hm).2).toCoveredBy
    have hfile : made.isFile other = made.isFile source := by
      rw [Bool.eq_iff_iff, isFile_iff, isFile_iff, h made hmade]
    simp only [bind, Except.bind, hfile]
    split
    · cases he : made.storeAt folder target .empty with
      | error e => rfl
      | ok emptied =>
        dsimp only
        rw [h emptied (hmade.trans (keptBy_storeAt he).toCoveredBy)]
    · rfl

end FileTree

end DatabaseProject
