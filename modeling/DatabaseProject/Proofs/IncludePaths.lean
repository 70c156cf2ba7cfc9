import DatabaseProject.Proofs.Assembly
import DatabaseProject.Proofs.DefaultFolder
import DatabaseProject.Proofs.Delimited

/-!
# Where include paths lead

An include path is read as its segments, the runs of characters between separators. They are joined one
by one to the folder of the project or of a package, and since none of them holds a separator or is
empty, joining only writes them behind that folder: nothing in a path can replace the folder, and a path
that goes on behind a separator leads on from where it led before.
-/

namespace DatabaseProject

open Outcome

namespace Path

variable {base : Path} {name : String} {names : List String}

/-- The separator that joining puts behind a path: none behind an empty path or one that ends in it. -/
def separatorBehind (base : Path) : String :=
  if base.text = "" ∨ base.text.toList.getLast? = some '/' then "" else "/"

/-- What is written behind a path when names are joined to it. -/
def behind (base : Path) (names : List String) : String :=
  if names = [] then "" else base.separatorBehind ++ "/".intercalate names

theorem separatorBehind_of_endsInName (h : base.EndsInName) : base.separatorBehind = "/" := by
  rw [separatorBehind, if_neg]
  rintro (hempty | hlast)
  · simp [EndsInName, hempty] at h
  · simp [EndsInName, hlast] at h

theorem text_join (hs : '/' ∉ name.toList) :
    (base.join ⟨name⟩).text = base.text ++ base.separatorBehind ++ name := by
  by_cases h : base.EndsInName
  · rw [h.join_eq hs, separatorBehind_of_endsInName h]
  · rw [EndsInName, Bool.not_eq_false] at h
    rw [join, if_neg (by simp [isAbsolute_of_no_separator hs]), if_pos h, separatorBehind, if_pos,
      String.append_empty]
    rw [Option.all_eq_true] at h
    cases hlast : base.text.toList.getLast? with
    | none =>
      rw [List.getLast?_eq_none_iff, String.toList_eq_nil_iff] at hlast
      exact .inl hlast
    | some c => exact .inr (by rw [beq_iff_eq.1 (h c hlast)])

theorem EndsInName.text_joinAll (h : base.EndsInName)
    (hn : ∀ name ∈ names, name ≠ "" ∧ '/' ∉ name.toList) :
    (base.joinAll names).text = base.text ++ String.join (names.map ("/" ++ ·)) := by
  induction names generalizing base with
  | nil => simp [Path.joinAll]
  | cons name rest ih =>
    rw [List.forall_mem_cons] at hn
    rw [joinAll_cons, ih (endsInName_join hn.1.1 hn.1.2) hn.2, h.join_eq hn.1.2, List.map_cons,
      String.join_cons, String.append_assoc, String.append_assoc, String.append_assoc]

/-- Names are written behind the path that they are joined to. -/
theorem text_joinAll (hn : ∀ name ∈ names, name ≠ "" ∧ '/' ∉ name.toList) :
    (base.joinAll names).text = base.text ++ base.behind names := by
  cases names with
  | nil => simp [joinAll, behind]
  | cons name rest =>
    rw [List.forall_mem_cons] at hn
    rw [joinAll_cons, (endsInName_join hn.1.1 hn.1.2).text_joinAll hn.2, text_join hn.1.2, behind,
      if_neg (List.cons_ne_nil _ _), intercalate_cons, String.append_assoc, String.append_assoc]

theorem joinAll_append {others : List String} :
    base.joinAll (names ++ others) = (base.joinAll names).joinAll others :=
  List.foldl_append

end Path

namespace Include

variable {projectFolder folder base : Path} {packages : PackageFolders} {path other name gap rest : String}
  {names more : List String} {e : GenerationError} {c : Char}

/-- The longest runs of characters of a text that are no separators: in front of each there is the
beginning of the text or a separator, and behind it the end or a separator. -/
inductive Runs : String → List String → Prop
  | gap {gap : String} (h : ∀ c ∈ gap.toList, isSeparator c = true) : Runs gap []
  | run {gap name rest : String} {names : List String} (hgap : ∀ c ∈ gap.toList, isSeparator c = true)
    (hne : name ≠ "") (hname : ∀ c ∈ name.toList, isSeparator c = false)
    (hend : ∀ c ∈ rest.toList.head?, isSeparator c = true) (hrest : Runs rest names) :
    Runs (gap ++ name ++ rest) (name :: names)

/-- A separator divides the segments of a text. -/
theorem segments_append_separator (hc : isSeparator c = true) (front rest : String) :
    segments (front ++ String.singleton c ++ rest) = segments front ++ segments rest := by
  unfold segments
  rw [← List.map_append, ← List.filter_append, ← List.splitOnP_append_cons _ _ hc]
  simp

theorem segments_cons_separator (hc : isSeparator c = true) (rest : String) :
    segments (String.singleton c ++ rest) = segments rest := by
  simpa [segments] using segments_append_separator hc "" rest

theorem segments_of_no_separator (hne : name ≠ "") (h : ∀ c ∈ name.toList, isSeparator c = false) :
    segments name = [name] := by
  rw [segments, List.splitOnP_eq_singleton h]
  simp [hne]

theorem segments_gap_append (h : ∀ c ∈ gap.toList, isSeparator c = true) (rest : String) :
    segments (gap ++ rest) = segments rest := by
  obtain ⟨cs, rfl⟩ : ∃ cs, gap = String.ofList cs := ⟨gap.toList, by simp⟩
  rw [String.toList_ofList] at h
  induction cs with
  | nil => simp
  | cons c cs ih =>
    rw [List.forall_mem_cons] at h
    rw [String.ofList_cons, String.append_assoc, segments_cons_separator h.1, ih h.2]

theorem segments_run_append (hne : name ≠ "") (hname : ∀ c ∈ name.toList, isSeparator c = false)
    (hend : ∀ c ∈ rest.toList.head?, isSeparator c = true) :
    segments (name ++ rest) = name :: segments rest := by
  obtain ⟨cs, rfl⟩ : ∃ cs, rest = String.ofList cs := ⟨rest.toList, by simp⟩
  rw [String.toList_ofList] at hend
  cases cs with
  | nil => simpa [segments] using segments_of_no_separator hne hname
  | cons c cs =>
    have hc := hend c rfl
    rw [String.ofList_cons, ← String.append_assoc, segments_append_separator hc,
      segments_of_no_separator hne hname, segments_cons_separator hc, List.singleton_append]

theorem Runs.segments_eq (h : Runs path names) : segments path = names := by
  induction h with
  | gap h => simpa [segments] using segments_gap_append h ""
  | run hgap hne hname hend _ ih =>
    rw [String.append_assoc, segments_gap_append hgap, segments_run_append hne hname hend, ih]

theorem Runs.start (hne : name ≠ "") (hname : ∀ c ∈ name.toList, isSeparator c = false)
    (hend : ∀ c ∈ rest.toList.head?, isSeparator c = true) (hrest : Runs rest names) :
    Runs (name ++ rest) (name :: names) := by
  have hruns : Runs ("" ++ name ++ rest) (name :: names) := .run (by simp) hne hname hend hrest
  rwa [String.empty_append] at hruns

/-- A separator in front is part of the gap there. -/
theorem Runs.cons_separator (h : Runs path names) (hc : isSeparator c = true) :
    Runs (String.singleton c ++ path) names := by
  cases h with
  | gap h => exact .gap (by simpa [hc] using h)
  | run hgap hne hname hend hrest =>
    rw [← String.append_assoc, ← String.append_assoc]
    exact .run (by simpa [hc] using hgap) hne hname hend hrest

/-- Any other character in front is part of the first run, or a run of its own before a separator. -/
theorem Runs.exists_cons (h : Runs path names) (hc : isSeparator c = false) :
    ∃ more, Runs (String.singleton c ++ path) more := by
  have hone : String.singleton c ≠ "" := by simp [← String.toList_inj]
  have hclear : ∀ d ∈ (String.singleton c).toList, isSeparator d = false := by simpa using hc
  by_cases hend : ∀ d ∈ path.toList.head?, isSeparator d = true
  · exact ⟨_, .start hone hclear hend h⟩
  · cases h with
    | gap h => exact absurd (fun d hd => h d (List.mem_of_mem_head? hd)) hend
    | @run gap name rest names hgap hne hname hbehind hrest =>
      -- The path begins with the run: a gap would begin with a separator.
      obtain rfl : gap = "" := by
        by_contra hg
        obtain ⟨d, ds, hd⟩ := List.exists_cons_of_ne_nil (mt String.toList_eq_nil_iff.1 hg)
        exact hend (by simpa [hd] using hgap d (by simp [hd]))
      rw [String.empty_append, ← String.append_assoc]
      refine ⟨_, .start ?_ ?_ hbehind hrest⟩
      · simp [← String.toList_inj]
      · simpa [hc] using hname

/-- Every text has its runs, and they are its segments. -/
theorem runs_iff : Runs path names ↔ segments path = names := by
  obtain ⟨cs, rfl⟩ : ∃ cs, path = String.ofList cs := ⟨path.toList, by simp⟩
  have hexists : ∃ more, Runs (String.ofList cs) more := by
    induction cs with
    | nil => exact ⟨[], .gap (by simp)⟩
    | cons c cs ih =>
      obtain ⟨more, hmore⟩ := ih
      rw [String.ofList_cons]
      cases hc : isSeparator c with
      | true => exact ⟨more, hmore.cons_separator hc⟩
      | false => exact hmore.exists_cons hc
  refine ⟨Runs.segments_eq, ?_⟩
  rintro rfl
  obtain ⟨more, hmore⟩ := hexists
  rw [hmore.segments_eq]
  exact hmore

/-- The error of segments that lead nowhere: a package is asked for that is not named or not there. -/
inductive Unresolved (packages : PackageFolders) (path : String) : List String → GenerationError → Prop
  | unnamed : Unresolved packages path ["Nuget"] (.unknownPackage "" path)
  | unknown {package : String} {inside : List String} (h : package ∉ packages.keys) :
    Unresolved packages path ("Nuget" :: package :: inside) (.unknownPackage package path)

/-- The folder that segments lead to: from a package if the first one says so, or from the project. -/
inductive Resolved (projectFolder : Path) (packages : PackageFolders) : List String → Path → Prop
  | package {package : String} {inside : List String} {base : Path} (h : packages.get? package = some base) :
    Resolved projectFolder packages ("Nuget" :: package :: inside) (base.joinAll inside)
  | project {names : List String} (h : names.head? ≠ some "Nuget") :
    Resolved projectFolder packages names (projectFolder.joinAll names)

theorem unresolved_iff : Unresolved packages path (segments path) e ↔
    resolve projectFolder packages path = .error e := by
  rw [resolve_eq_error]
  generalize segments path = names
  constructor
  · rintro (_ | hunknown)
    · exact .inl ⟨rfl, rfl⟩
    · exact .inr ⟨_, _, rfl, OrderedMap.get?_eq_none.2 hunknown, rfl⟩
  · rintro (⟨rfl, rfl⟩ | ⟨package, inside, rfl, hunknown, rfl⟩)
    · exact .unnamed
    · exact .unknown (OrderedMap.get?_eq_none.1 hunknown)

theorem resolved_iff : Resolved projectFolder packages (segments path) folder ↔
    resolve projectFolder packages path = .ok folder := by
  unfold resolve
  generalize segments path = names
  constructor
  · rintro (hfound | hother)
    · simp [packageMark, hfound]
    · cases names with
      | nil => rfl
      | cons first rest =>
        have hfirst : first ≠ packageMark := by simpa [packageMark] using hother
        simp [hfirst]
  · intro h
    cases names with
    | nil =>
      cases h
      exact .project (by simp)
    | cons first rest =>
      by_cases hfirst : first = packageMark
      · subst hfirst
        cases rest with
        | nil => simp at h
        | cons package inside =>
          cases hfound : packages.get? package with
          | none => simp [hfound] at h
          | some base =>
            simp only [if_true, hfound] at h
            cases h
            exact .package hfound
      · simp only [hfirst, if_false] at h
        cases h
        exact .project (by simpa [packageMark] using hfirst)

/-- Segments behind others lead on from where these led. -/
theorem Resolved.append (h : Resolved projectFolder packages names folder) (hne : names ≠ []) :
    Resolved projectFolder packages (names ++ more) (folder.joinAll more) := by
  cases h with
  | package h =>
    rw [← Path.joinAll_append]
    exact .package h
  | project h =>
    rw [← Path.joinAll_append]
    exact .project (by rwa [List.head?_append_of_ne_nil _ hne])

theorem ne_empty_of_mem_runs (h : Runs path names) (hm : name ∈ names) : name ≠ "" ∧ '/' ∉ name.toList := by
  rw [← h.segments_eq] at hm
  exact ⟨ne_empty_of_mem_segments hm, no_separator_of_mem_segments hm⟩

/-- Of two paths with the same segments both lead to the same folder, or both ask for a missing package. -/
theorem resolve_congr (h : segments other = segments path) :
    (∀ folder, resolve projectFolder packages other = .ok folder ↔
      resolve projectFolder packages path = .ok folder) ∧
    ∀ package, resolve projectFolder packages other = .error (.unknownPackage package other) ↔
      resolve projectFolder packages path = .error (.unknownPackage package path) := by
  refine ⟨fun folder => by rw [← resolved_iff, ← resolved_iff, h], fun package => ?_⟩
  rw [resolve_eq_error, resolve_eq_error, h]
  simp

/-- A path is read as its runs of characters between separators, and only these decide where it leads: to
the folder of the package that the second one names if the first one is `Nuget`, and to the folder of the
project otherwise, with the other ones joined in their order. Only a package that is missing makes it
fail. What is joined is written behind the folder, whatever it is, and behind a separator a path leads on
from where it led, unless nothing comes before. -/
theorem resolution_follows_segments (projectFolder : Path) (packages : PackageFolders) (path : String) :
    ∃ names, (∀ others, Runs path others ↔ others = names) ∧
      (∀ e, resolve projectFolder packages path = .error e ↔ Unresolved packages path names e) ∧
      (∀ folder, resolve projectFolder packages path = .ok folder ↔
        Resolved projectFolder packages names folder) ∧
      (∀ other, Runs other names →
        (∀ folder, resolve projectFolder packages other = .ok folder ↔
          resolve projectFolder packages path = .ok folder) ∧
        ∀ package, resolve projectFolder packages other = .error (.unknownPackage package other) ↔
          resolve projectFolder packages path = .error (.unknownPackage package path)) ∧
      (∀ base : Path, ∀ inside, inside <:+ names →
        (base.joinAll inside).text = base.text ++ base.behind inside) ∧
      ∀ folder, names ≠ [] → resolve projectFolder packages path = .ok folder →
        ∀ c rest more, isSeparator c = true → Runs rest more →
          resolve projectFolder packages (path ++ String.singleton c ++ rest) =
            .ok (folder.joinAll more) := by
  have hruns : Runs path (segments path) := runs_iff.2 rfl
  refine ⟨segments path, fun others => runs_iff.trans eq_comm, fun e => unresolved_iff.symm,
    fun folder => resolved_iff.symm, ?_, ?_, ?_⟩
  · intro other hother
    exact resolve_congr hother.segments_eq
  · intro base inside hinside
    exact Path.text_joinAll fun name hm => ne_empty_of_mem_runs hruns (hinside.subset hm)
  · intro folder hne hfolder c rest more hc hmore
    rw [← resolved_iff, segments_append_separator hc, hmore.segments_eq]
    exact (resolved_iff.2 hfolder).append hne

/-- A path that begins with a separator, and goes on behind another one. -/
theorem package_path_resolved :
    let packages : PackageFolders := OrderedMap.ofList [("Acme.Sql", ⟨"/pkgs/acme/any"⟩)]
    resolve ⟨"/proj"⟩ packages "/Nuget\\Acme.Sql//" = .ok ⟨"/pkgs/acme/any"⟩ ∧
      resolve ⟨"/proj"⟩ packages "/Nuget\\Acme.Sql//\\Shared/Types\\" = .ok ⟨"/pkgs/acme/any/Shared/Types"⟩ ∧
      resolve ⟨"/proj"⟩ packages "Nuget/Other" = .error (.unknownPackage "Other" "Nuget/Other") := by
  intro packages
  obtain ⟨names, hruns, -, hresolved, -, -, hon⟩ :=
    resolution_follows_segments ⟨"/proj"⟩ packages "/Nuget\\Acme.Sql//"
  obtain rfl : ["Nuget", "Acme.Sql"] = names := (hruns _).1 (runs_iff.2 (by decide))
  have hbase := (hresolved ⟨"/pkgs/acme/any"⟩).2 (.package rfl)
  obtain ⟨others, hothers, hunresolved, -⟩ := resolution_follows_segments ⟨"/proj"⟩ packages "Nuget/Other"
  obtain rfl : ["Nuget", "Other"] = others := (hothers _).1 (runs_iff.2 (by decide))
  refine ⟨hbase, ?_, (hunresolved _).2 (.unknown (by decide))⟩
  exact hon _ (by simp) hbase '\\' "Shared/Types\\" ["Shared", "Types"] rfl (runs_iff.2 (by decide))

end Include

end DatabaseProject
