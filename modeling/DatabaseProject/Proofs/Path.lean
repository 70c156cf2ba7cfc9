import DatabaseProject.Path
import Mathlib.Data.List.Basic

/-!
# Laws of textual paths

What joining, the parent and the file name do to the parts of a path. Fillers come and go with
separators, and a place does not depend on them; so all laws are about `parts`, and `fields` only
occur where the last field has to be a name.
-/

namespace DatabaseProject.Path

/-- The fields that name a part. -/
def parts (path : Path) : List String := path.fields.filter (!isFiller ·)

/-- A name that is one part of a path and does not lead upwards. -/
structure IsSegment (name : String) : Prop where
  not_filler : isFiller name = false
  ne_parent : name ≠ ".."
  no_separator : '/' ∉ name.toList

instance (name : String) : Decidable (IsSegment name) :=
  decidable_of_iff (isFiller name = false ∧ name ≠ ".." ∧ '/' ∉ name.toList)
    ⟨fun h => ⟨h.1, h.2.1, h.2.2⟩, fun h => ⟨h.not_filler, h.ne_parent, h.no_separator⟩⟩

variable {path base : Path} {name first second : String} {names : List String}

theorem isFiller_iff : isFiller name = true ↔ name = "" ∨ name = "." := by
  simp [isFiller]

theorem fields_ne_nil (path : Path) : path.fields ≠ [] := by
  simp [fields, List.splitOnP_ne_nil]

theorem fields_append_separator :
    (Path.mk (first ++ "/" ++ second)).fields = (Path.mk first).fields ++ (Path.mk second).fields := by
  have hs : (first ++ "/" ++ second).toList = first.toList ++ '/' :: second.toList := by
    simp [String.toList_append]
  unfold fields
  rw [hs, List.splitOnP_append_cons _ _ (by simp), List.map_append]

theorem fields_of_no_separator (h : '/' ∉ name.toList) : (Path.mk name).fields = [name] := by
  have hs : name.toList.splitOnP (· == '/') = [name.toList] := by
    apply List.splitOnP_eq_singleton
    intro c hc
    rw [beq_eq_false_iff_ne]
    rintro rfl
    exact h hc
  rw [fields, hs, List.map_singleton, String.ofList_toList]

@[simp] theorem fields_empty : (Path.mk "").fields = [""] := fields_of_no_separator (by decide)

theorem fields_intercalate (hne : names ≠ []) (h : ∀ name ∈ names, '/' ∉ name.toList) :
    (Path.mk ("/".intercalate names)).fields = names := by
  induction names with
  | nil => exact absurd rfl hne
  | cons name rest ih =>
    rw [List.forall_mem_cons] at h
    cases rest with
    | nil =>
      rw [String.intercalate_singleton]
      exact fields_of_no_separator h.1
    | cons next rest =>
      rw [String.intercalate_cons_cons, fields_append_separator, fields_of_no_separator h.1,
        ih (by simp) h.2, List.singleton_append]

theorem not_of_mem_splitOnP {p : Char → Bool} {chars field : List Char} {c : Char}
    (h : field ∈ chars.splitOnP p) (hc : c ∈ field) : p c = false := by
  induction chars generalizing field with
  | nil =>
    rw [List.splitOnP_nil, List.mem_singleton] at h
    simp [h] at hc
  | cons first chars ih =>
    rw [List.splitOnP_cons_eq_if_modifyHead] at h
    split at h
    · rcases List.mem_cons.1 h with rfl | h
      · simp at hc
      · exact ih h hc
    · rename_i hfirst
      obtain ⟨head, tail, ht⟩ := List.exists_cons_of_ne_nil (List.splitOnP_ne_nil p chars)
      rw [ht] at h ih
      rcases List.mem_cons.1 h with rfl | h
      · rcases List.mem_cons.1 hc with rfl | hc
        · simpa using hfirst
        · exact ih List.mem_cons_self hc
      · exact ih (List.mem_cons_of_mem _ h) hc

theorem mem_of_mem_splitOnP {p : Char → Bool} {chars field : List Char} {c : Char}
    (h : field ∈ chars.splitOnP p) (hc : c ∈ field) : c ∈ chars := by
  induction chars generalizing field with
  | nil =>
    rw [List.splitOnP_nil, List.mem_singleton] at h
    simp [h] at hc
  | cons first chars ih =>
    rw [List.splitOnP_cons_eq_if_modifyHead] at h
    split at h
    · rcases List.mem_cons.1 h with rfl | h
      · simp at hc
      · exact List.mem_cons_of_mem first (ih h hc)
    · obtain ⟨head, tail, ht⟩ := List.exists_cons_of_ne_nil (List.splitOnP_ne_nil p chars)
      rw [ht] at h ih
      rcases List.mem_cons.1 h with rfl | h
      · rcases List.mem_cons.1 hc with rfl | hc
        · exact List.mem_cons_self
        · exact List.mem_cons_of_mem first (ih List.mem_cons_self hc)
      · exact List.mem_cons_of_mem first (ih (List.mem_cons_of_mem _ h) hc)

theorem mem_text_of_mem_fields {c : Char} (h : name ∈ path.fields) (hc : c ∈ name.toList) :
    c ∈ path.text.toList := by
  obtain ⟨field, hf, rfl⟩ := List.mem_map.1 h
  rw [String.toList_ofList] at hc
  exact mem_of_mem_splitOnP hf hc

theorem no_separator_of_mem_fields (h : name ∈ path.fields) : '/' ∉ name.toList := by
  obtain ⟨field, hf, rfl⟩ := List.mem_map.1 h
  rw [String.toList_ofList]
  intro hc
  simpa using not_of_mem_splitOnP hf hc

/-- A path is absolute when its first field is empty and not the only one. -/
theorem isAbsolute_iff : path.isAbsolute = true ↔ ∃ field rest, path.fields = "" :: field :: rest := by
  unfold isAbsolute fields
  cases hs : path.text.toList with
  | nil => simp [List.splitOnP_nil]
  | cons c chars =>
    obtain ⟨head, tail, ht⟩ := List.exists_cons_of_ne_nil (List.splitOnP_ne_nil (· == '/') chars)
    rw [List.splitOnP_cons_eq_if_modifyHead, ht]
    by_cases hc : c = '/'
    · simp [hc]
    · simp [hc, String.ofList_eq_empty_iff]

theorem parts_append_separator :
    (Path.mk (first ++ "/" ++ second)).parts = (Path.mk first).parts ++ (Path.mk second).parts := by
  rw [parts, fields_append_separator, List.filter_append]
  rfl

theorem parts_intercalate (h : ∀ name ∈ names, '/' ∉ name.toList) :
    (Path.mk ("/".intercalate names)).parts = names.filter (!isFiller ·) := by
  cases names with
  | nil => simp [parts, isFiller]
  | cons name rest => rw [parts, fields_intercalate (by simp) h]

theorem IsSegment.fields_eq (h : IsSegment name) : (Path.mk name).fields = [name] :=
  fields_of_no_separator h.no_separator

theorem IsSegment.parts_eq (h : IsSegment name) : (Path.mk name).parts = [name] := by
  rw [parts, h.fields_eq, List.filter_singleton, h.not_filler]
  rfl

theorem IsSegment.ne_empty (h : IsSegment name) : name ≠ "" := by
  intro he
  simpa [he, isFiller] using h.not_filler

theorem IsSegment.isAbsolute_eq (h : IsSegment name) : (Path.mk name).isAbsolute = false := by
  rw [← Bool.not_eq_true, isAbsolute_iff, h.fields_eq]
  simp

/-- A name with an ending is a segment, whatever else the name is. -/
theorem IsSegment.of_ending {ending : String} (h : '/' ∉ name.toList) (he : '/' ∉ ending.toList)
    (hl : 2 < ending.length) : IsSegment (name ++ ending) := by
  have hne : ∀ short : String, short.length ≤ 2 → name ++ ending ≠ short := by
    rintro short hs rfl
    rw [String.length_append] at hs
    omega
  refine ⟨?_, hne ".." (by decide), by simp [h, he]⟩
  rw [← Bool.not_eq_true, isFiller_iff, not_or]
  exact ⟨hne "" (by decide), hne "." (by decide)⟩

/-- The fields behind which a joined path has its own, which are the parts of the base and
fillers. -/
theorem fields_join (base : Path) (h : path.isAbsolute = false) :
    ∃ front, (base.join path).fields = front ++ path.fields ∧
      front.filter (!isFiller ·) = base.parts := by
  unfold join
  rw [if_neg (by simp [h])]
  split
  · rename_i hl
    cases hb : base.text.toList.getLast? with
    | none =>
      have hbase : base = ⟨""⟩ := by
        rw [List.getLast?_eq_none_iff, String.toList_eq_nil_iff] at hb
        cases base
        exact congrArg Path.mk hb
      subst hbase
      exact ⟨[], by simp, by simp [parts, isFiller]⟩
    | some c =>
      obtain ⟨front, hf⟩ := List.getLast?_eq_some_iff.1 hb
      have hc : c = '/' := by simpa [hb] using hl
      have hbase : base = ⟨String.ofList front ++ "/" ++ ""⟩ := by
        cases base
        rw [Path.mk.injEq, ← String.toList_inj]
        simpa [hc] using hf
      refine ⟨(Path.mk (String.ofList front)).fields, ?_, ?_⟩
      · rw [hbase, ← fields_append_separator]
        simp
      · rw [hbase, parts_append_separator]
        simp [parts, isFiller]
  · exact ⟨base.fields, fields_append_separator, rfl⟩

theorem parts_join (h : path.isAbsolute = false) :
    (base.join path).parts = base.parts ++ path.parts := by
  obtain ⟨front, hf, hp⟩ := fields_join base h
  rw [parts, hf, List.filter_append, hp]
  rfl

theorem isAbsolute_join (h : path.isAbsolute = false) :
    (base.join path).isAbsolute = base.isAbsolute := by
  unfold join
  rw [if_neg (by simp [h])]
  unfold isAbsolute at h ⊢
  cases hb : base.text.toList with
  | nil => simp [hb, h]
  | cons c rest =>
    split <;> simp [hb]

theorem IsSegment.parts_join (h : IsSegment name) :
    (base.join ⟨name⟩).parts = base.parts ++ [name] := by
  rw [Path.parts_join h.isAbsolute_eq, h.parts_eq]

theorem joinAll_cons : base.joinAll (name :: names) = (base.join ⟨name⟩).joinAll names := rfl

theorem parts_of_no_separator (h : '/' ∉ name.toList) :
    (Path.mk name).parts = [name].filter (!isFiller ·) := by
  rw [parts, fields_of_no_separator h]

theorem isAbsolute_of_no_separator (h : '/' ∉ name.toList) : (Path.mk name).isAbsolute = false := by
  rw [← Bool.not_eq_true, isAbsolute_iff, fields_of_no_separator h]
  simp

theorem parts_joinAll (h : ∀ name ∈ names, '/' ∉ name.toList) :
    (base.joinAll names).parts = base.parts ++ names.filter (!isFiller ·) := by
  induction names generalizing base with
  | nil => simp [joinAll]
  | cons name rest ih =>
    rw [List.forall_mem_cons] at h
    rw [joinAll_cons, ih h.2, Path.parts_join (isAbsolute_of_no_separator h.1),
      parts_of_no_separator h.1, List.append_assoc, ← List.filter_append, List.singleton_append]

theorem isAbsolute_joinAll (h : ∀ name ∈ names, '/' ∉ name.toList) :
    (base.joinAll names).isAbsolute = base.isAbsolute := by
  induction names generalizing base with
  | nil => rfl
  | cons name rest ih =>
    rw [List.forall_mem_cons] at h
    rw [joinAll_cons, ih h.2, Path.isAbsolute_join (isAbsolute_of_no_separator h.1)]

/-- Behind a name a path goes on with fields of its own. -/
theorem fields_join_of_last (front : List String) (hl : path.fields = front ++ [name])
    (hn : name ≠ "") {inner : Path} (hi : inner.isAbsolute = false) :
    (path.join inner).fields = path.fields ++ inner.fields := by
  have hlast : ¬ (path.text.toList.getLast?.all (· == '/') = true) := by
    intro ht
    cases hb : path.text.toList.getLast? with
    | none =>
      have hp : path = ⟨""⟩ := by
        rw [List.getLast?_eq_none_iff, String.toList_eq_nil_iff] at hb
        cases path
        exact congrArg Path.mk hb
      rw [hp, fields_empty] at hl
      exact hn (List.singleton_inj.1 (List.append_inj' (show [] ++ [""] = front ++ [name] from hl) rfl).2).symm
    | some c =>
      obtain ⟨text, hf⟩ := List.getLast?_eq_some_iff.1 hb
      have hc : c = '/' := by simpa [hb] using ht
      have hp : path = ⟨String.ofList text ++ "/" ++ ""⟩ := by
        cases path
        rw [Path.mk.injEq, ← String.toList_inj]
        simpa [hc] using hf
      rw [hp, fields_append_separator, fields_empty] at hl
      exact hn (List.singleton_inj.1 (List.append_inj' hl rfl).2).symm
  rw [join, if_neg (by simp [hi]), if_neg hlast]
  exact fields_append_separator

/-- A path to a name in folders inside a base, all of them given by segments. -/
structure LeadsTo (base : Path) (inner : List String) (name : String) (path : Path) : Prop where
  isAbsolute_eq : path.isAbsolute = base.isAbsolute
  fields_eq : ∃ front, path.fields = front ++ [name] ∧
    front.filter (!isFiller ·) = base.parts ++ inner
  segments : ∀ part ∈ inner ++ [name], IsSegment part

theorem LeadsTo.parts_eq {inner : List String} (h : LeadsTo base inner name path) :
    path.parts = base.parts ++ inner ++ [name] := by
  obtain ⟨front, hf, hp⟩ := h.fields_eq
  rw [parts, hf, List.filter_append, hp, List.filter_singleton,
    (h.segments name (by simp)).not_filler]
  rfl

theorem isAbsolute_of_segments (hf : path.fields = names ++ [name])
    (hs : ∀ part ∈ names ++ [name], IsSegment part) : path.isAbsolute = false := by
  rw [← Bool.not_eq_true, isAbsolute_iff]
  rintro ⟨field, rest, he⟩
  have hempty := (hs "" (by rw [← hf, he]; simp)).not_filler
  simp [isFiller] at hempty

/-- A path of segments joined to a base. -/
theorem leadsTo_join (base : Path) (hf : path.fields = names ++ [name])
    (hs : ∀ part ∈ names ++ [name], IsSegment part) : LeadsTo base names name (base.join path) := by
  have habs := isAbsolute_of_segments hf hs
  obtain ⟨front, hj, hp⟩ := fields_join base habs
  refine ⟨isAbsolute_join habs, ⟨front ++ names, ?_, ?_⟩, hs⟩
  · rw [hj, hf, List.append_assoc]
  · rw [List.filter_append, hp, List.append_right_inj, List.filter_eq_self]
    intro part hpart
    simp [(hs part (by simp [hpart])).not_filler]

theorem IsSegment.leadsTo (h : IsSegment name) (base : Path) : LeadsTo base [] name (base.join ⟨name⟩) :=
  leadsTo_join base h.fields_eq (by simpa using h)

theorem LeadsTo.trans {inner further : List String} {last : String} {other : Path}
    (h : LeadsTo base inner name path) (h' : LeadsTo path further last other) :
    LeadsTo base (inner ++ name :: further) last other := by
  obtain ⟨front, hf, hfilter⟩ := h'.fields_eq
  refine ⟨h'.isAbsolute_eq.trans h.isAbsolute_eq, ⟨front, hf, ?_⟩, fun part hpart => ?_⟩
  · rw [hfilter, h.parts_eq]
    simp
  · replace hpart : part ∈ (inner ++ [name]) ++ (further ++ [last]) := by simpa using hpart
    rcases List.mem_append.1 hpart with hpart | hpart
    · exact h.segments part hpart
    · exact h'.segments part hpart

/-- A path of segments joined behind a name. -/
theorem LeadsTo.join {inner : List String} {last : String} {further : Path}
    (h : LeadsTo base inner name path) (hf : further.fields = names ++ [last])
    (hs : ∀ part ∈ names ++ [last], IsSegment part) :
    LeadsTo base (inner ++ name :: names) last (path.join further) :=
  h.trans (leadsTo_join path hf hs)

theorem dropWhile_filter_isFiller {fields : List String} :
    (fields.dropWhile isFiller).filter (!isFiller ·) = fields.filter (!isFiller ·) := by
  induction fields with
  | nil => rfl
  | cons field rest ih =>
    by_cases h : isFiller field = true
    · rw [List.dropWhile_cons_of_pos h, ih, List.filter_cons_of_neg (by simp [h])]
    · rw [List.dropWhile_cons_of_neg h]

theorem parts_eq_filter_split : path.parts = path.split.2.filter (!isFiller ·) := by
  unfold parts split
  split
  · rename_i h
    rw [h, List.filter_cons_of_neg (by simp [isFiller])]
  · rename_i rest h
    rw [h, List.filter_cons_of_neg (by simp [isFiller])]
    cases rest with
    | nil => rfl
    | cons field rest =>
      simp only [List.isEmpty_cons, Bool.false_eq_true, ↓reduceIte]
      rw [List.filter_cons_of_neg (a := "") (by simp [isFiller])]
  · rfl

theorem no_separator_of_mem_split (h : name ∈ path.split.2) : '/' ∉ name.toList := by
  unfold split at h
  split at h
  · rename_i hf
    exact no_separator_of_mem_fields (by rw [hf]; exact List.mem_cons_of_mem _ h)
  · rename_i rest hf
    cases rest with
    | nil => simp at h
    | cons field rest =>
      rcases List.mem_cons.1 h with rfl | h
      · decide
      · exact no_separator_of_mem_fields (by rw [hf]; exact List.mem_cons_of_mem _ h)
  · exact no_separator_of_mem_fields h

/-- Behind the root the fields are the parts. -/
theorem root_append (hsep : ∀ name ∈ names, '/' ∉ name.toList) :
    (Path.mk ("/" ++ "/".intercalate names)).isAbsolute = true ∧
      (Path.mk ("/" ++ "/".intercalate names)).parts = names.filter (!isFiller ·) := by
  have htext : "/" ++ "/".intercalate names = "" ++ "/" ++ "/".intercalate names := by simp
  rw [htext]
  constructor
  · rw [isAbsolute_iff, fields_append_separator, fields_empty]
    obtain ⟨first, others, ho⟩ := List.exists_cons_of_ne_nil (fields_ne_nil ⟨"/".intercalate names⟩)
    exact ⟨first, others, by simp [ho]⟩
  · rw [parts_append_separator, parts_intercalate hsep]
    simp [parts, isFiller]

/-- An empty field in front of the others takes up a leading point. -/
theorem point_append (hempty : ∀ first ∈ names.head?, first = "")
    (hsep : ∀ name ∈ names, '/' ∉ name.toList) :
    (Path.mk ("." ++ "/".intercalate names)).isAbsolute = false ∧
      (Path.mk ("." ++ "/".intercalate names)).parts = names.filter (!isFiller ·) := by
  obtain ⟨inner, htext, hinner, hparts⟩ : ∃ inner, "." ++ "/".intercalate names =
      "/".intercalate ("." :: inner) ∧ (∀ name ∈ inner, '/' ∉ name.toList) ∧
      inner.filter (!isFiller ·) = names.filter (!isFiller ·) := by
    cases names with
    | nil => exact ⟨[], rfl, by simp, rfl⟩
    | cons name inner =>
      obtain rfl : name = "" := hempty name rfl
      refine ⟨inner, ?_, fun name hn => hsep name (List.mem_cons_of_mem _ hn), ?_⟩
      · cases inner with
        | nil => rfl
        | cons next inner =>
          rw [String.intercalate_cons_cons, String.intercalate_cons_cons, ← String.append_assoc,
            ← String.append_assoc, String.append_empty]
      · rw [List.filter_cons_of_neg (by simp [isFiller])]
  have hdot : ∀ name ∈ "." :: inner, '/' ∉ name.toList :=
    List.forall_mem_cons.2 ⟨by decide, hinner⟩
  rw [htext]
  constructor
  · rw [← Bool.not_eq_true, isAbsolute_iff, fields_intercalate (by simp) hdot]
    simp
  · rw [parts_intercalate hdot, List.filter_cons_of_neg (by simp [isFiller]), hparts]

/-- The first fields of a path that is not at the root are not at the root either. -/
theorem isAbsolute_intercalate (hp : path.isAbsolute = false) (h : names <+: path.fields)
    (hsep : ∀ name ∈ names, '/' ∉ name.toList) :
    (Path.mk ("/".intercalate names)).isAbsolute = false := by
  rw [← Bool.not_eq_true, isAbsolute_iff] at hp ⊢
  rintro ⟨field, rest, hf⟩
  cases names with
  | nil => simp at hf
  | cons name names =>
    rw [fields_intercalate (by simp) hsep] at hf
    obtain ⟨others, ho⟩ := h
    rw [hf] at ho
    exact hp ⟨field, rest ++ others, ho.symm⟩

/-- The front of a path that has been taken apart, put together again. -/
theorem lead_append (h : names <+: path.split.2) :
    (Path.mk (path.split.1 ++ "/".intercalate names)).isAbsolute = path.isAbsolute ∧
      (Path.mk (path.split.1 ++ "/".intercalate names)).parts = names.filter (!isFiller ·) := by
  have hsep : ∀ name ∈ names, '/' ∉ name.toList := fun name hn =>
    no_separator_of_mem_split (h.subset hn)
  unfold split at h ⊢
  split at h
  · rename_i field rest hf
    obtain ⟨habsolute, hparts⟩ := root_append hsep
    exact ⟨habsolute.trans (isAbsolute_iff.2 ⟨field, rest, hf⟩).symm, hparts⟩
  · rename_i rest hf
    have hnot : path.isAbsolute = false := by rw [← Bool.not_eq_true, isAbsolute_iff, hf]; simp
    -- only the empty field, which stands for the rest, can come first
    have hempty : ∀ first ∈ names.head?, first = "" := by
      intro first hfirst
      obtain ⟨others, rfl⟩ := List.head?_eq_some_iff.1 hfirst
      cases rest with
      | nil => simp at h
      | cons field rest => exact (List.cons_prefix_cons.1 h).1
    obtain ⟨hrelative, hparts⟩ := point_append hempty hsep
    exact ⟨hrelative.trans hnot.symm, hparts⟩
  · rename_i hrooted _
    have hnot : path.isAbsolute = false := by
      rw [← Bool.not_eq_true, isAbsolute_iff]
      exact fun ⟨field, rest, hf⟩ => hrooted field rest hf
    simp only [String.empty_append]
    exact ⟨(isAbsolute_intercalate hnot h hsep).trans hnot.symm, parts_intercalate hsep⟩

/-- What stands before the last part names the same place as the parent. -/
theorem parent_of_fileName (h : path.fileName? = some name) :
    ∃ parent, path.parent? = some parent ∧ parent.isAbsolute = path.isAbsolute ∧
      path.parts = parent.parts ++ [name] := by
  obtain ⟨lead, fields, hs⟩ : ∃ lead fields, path.split = (lead, fields) := ⟨_, _, rfl⟩
  unfold fileName? at h
  rw [hs] at h
  cases hd : fields.reverse.dropWhile isFiller with
  | nil => simp [hd] at h
  | cons last above =>
    obtain rfl : last = name := by
      simp only [hd] at h
      split at h <;> simp_all
    have hfields : fields = above.reverse ++ last :: (fields.reverse.takeWhile isFiller).reverse := by
      rw [← List.reverse_inj]
      simp [← hd]
    have hlast : isFiller last = false := by
      have := List.head_dropWhile_not isFiller (l := fields.reverse) (by simp [hd])
      simpa [hd] using this
    have hparts : path.parts = above.reverse.filter (!isFiller ·) ++ [last] := by
      rw [parts_eq_filter_split, hs, ← List.reverse_inj, ← List.filter_reverse,
        ← dropWhile_filter_isFiller, hd, List.filter_cons_of_pos (by simp [hlast])]
      simp
    have hprefix : (above.dropWhile isFiller).reverse <+: path.split.2 := by
      rw [hs, hfields]
      refine List.IsPrefix.trans ?_ (List.prefix_append _ _)
      rw [List.reverse_prefix]
      exact List.dropWhile_suffix _
    obtain ⟨habs, hp⟩ := lead_append hprefix
    refine ⟨⟨lead ++ "/".intercalate (above.dropWhile isFiller).reverse⟩, ?_, ?_, ?_⟩
    · unfold parent?
      simp only [hs, hd]
    · simpa only [hs] using habs
    · rw [hs] at hp
      rw [hp, hparts, List.filter_reverse, List.filter_reverse, dropWhile_filter_isFiller]

/-- The last name in a text: behind it stand only separators and single points. -/
def EndsIn (text name : String) : Prop :=
  name ≠ "" ∧ name ≠ "." ∧ ∃ front fillers : List String,
    text = "/".intercalate (front ++ name :: fillers) ∧
      (∀ field ∈ front ++ [name], '/' ∉ field.toList) ∧ ∀ field ∈ fillers, field = "" ∨ field = "."

theorem intercalate_fields (path : Path) : "/".intercalate path.fields = path.text := by
  rw [← String.toList_inj, String.toList_intercalate, fields, List.map_map]
  simp only [Function.comp_def, String.toList_ofList, List.map_id']
  exact List.intercalate_splitOn '/'

theorem endsIn_iff : EndsIn path.text name ↔ path.parts.getLast? = some name := by
  constructor
  · rintro ⟨hne, hpoint, front, fillers, htext, hsep, hfillers⟩
    have hfields : path.fields = front ++ name :: fillers := by
      have hall : ∀ field ∈ front ++ name :: fillers, '/' ∉ field.toList := by
        intro field hm
        rw [List.append_cons, List.mem_append] at hm
        rcases hm with hm | hm
        · exact hsep field hm
        · rcases hfillers field hm with rfl | rfl <;> decide
      rw [← fields_intercalate (by simp) hall, ← htext]
    have hname : isFiller name = false := by
      rw [← Bool.not_eq_true, isFiller_iff]
      exact fun h => h.elim hne hpoint
    have hrest : fillers.filter (!isFiller ·) = [] :=
      List.filter_eq_nil_iff.2 fun field hm => by simp [isFiller_iff.2 (hfillers field hm)]
    rw [parts, hfields, List.filter_append, List.filter_cons_of_pos (by simp [hname]), hrest]
    simp
  · intro h
    obtain ⟨before, hparts⟩ := List.getLast?_eq_some_iff.1 h
    obtain ⟨front, back, hfields, -, hback⟩ := List.filter_eq_append_iff.1 hparts
    obtain ⟨between, fillers, rfl, -, hname, hfillers⟩ := List.filter_eq_cons_iff.1 hback
    rw [Bool.not_eq_true', ← Bool.not_eq_true, isFiller_iff, not_or] at hname
    refine ⟨hname.1, hname.2, front ++ between, fillers, ?_, fun field hm => ?_, fun field hm => ?_⟩
    · rw [← intercalate_fields, hfields, List.append_assoc]
    · refine @no_separator_of_mem_fields path field ?_
      rw [hfields]
      simp only [List.mem_append, List.mem_cons] at hm ⊢
      tauto
    · rw [← isFiller_iff]
      simpa using List.filter_eq_nil_iff.1 hfillers field hm

theorem fileName?_eq_some : path.fileName? = some name ↔ EndsIn path.text name ∧ name ≠ ".." := by
  have hlast : path.parts.getLast? = (path.split.2.reverse.dropWhile isFiller).head? := by
    rw [parts_eq_filter_split, List.getLast?_eq_head?_reverse, ← List.filter_reverse,
      ← dropWhile_filter_isFiller]
    cases hd : path.split.2.reverse.dropWhile isFiller with
    | nil => rfl
    | cons found above =>
      have hfound : isFiller found = false := by
        have := List.head_dropWhile_not isFiller (l := path.split.2.reverse) (by simp [hd])
        simpa [hd] using this
      rw [List.filter_cons_of_pos (by simp [hfound]), List.head?_cons, List.head?_cons]
  rw [endsIn_iff, hlast, fileName?]
  cases path.split.2.reverse.dropWhile isFiller with
  | nil => simp
  | cons found above =>
    rw [List.head?_cons]
    dsimp only
    split
    · rename_i hup
      rw [beq_iff_eq] at hup
      simp [hup, eq_comm]
    · rename_i hup
      rw [beq_iff_eq] at hup
      constructor
      · intro h
        cases h
        exact ⟨rfl, hup⟩
      · exact fun h => h.1

/-- A name up to its last point, where that is not its first character. -/
inductive StemOf : String → String → Prop
  | cut {stem ending : String} : stem ≠ "" → '.' ∉ ending.toList → StemOf (stem ++ "." ++ ending) stem
  | whole {name : String} : '.' ∉ name.toList.tail → StemOf name name

theorem stemOf_of_stem? (h : path.stem? = some first) :
    ∃ name, EndsIn path.text name ∧ name ≠ ".." ∧ StemOf name first := by
  obtain ⟨name, hname, rfl⟩ := Option.map_eq_some_iff.1 h
  obtain ⟨hends, hup⟩ := fileName?_eq_some.1 hname
  refine ⟨name, hends, hup, ?_⟩
  have hsplit : name.toList = (name.toList.reverse.dropWhile (· != '.')).reverse ++
      (name.toList.reverse.takeWhile (· != '.')).reverse := by
    rw [← List.reverse_append, List.takeWhile_append_dropWhile, List.reverse_reverse]
  have hbehind : '.' ∉ (name.toList.reverse.takeWhile (· != '.')).reverse := by
    rw [List.mem_reverse]
    intro hm
    simpa using List.all_eq_true.1 List.all_takeWhile _ hm
  cases hd : name.toList.reverse.dropWhile (· != '.') with
  | nil =>
    rw [hd, List.reverse_nil, List.nil_append] at hsplit
    exact .whole fun hm => hbehind (hsplit ▸ List.mem_of_mem_tail hm)
  | cons c front =>
    obtain rfl : c = '.' := by
      have hpoint := List.head_dropWhile_not (· != '.') (l := name.toList.reverse) (by simp [hd])
      simpa [hd] using hpoint
    rw [hd, List.reverse_cons, List.append_assoc, List.singleton_append] at hsplit
    generalize (name.toList.reverse.takeWhile (· != '.')).reverse = ending at hsplit hbehind
    dsimp only
    split
    · rename_i hempty
      rw [List.isEmpty_iff.1 hempty] at hsplit
      exact .whole (by rwa [hsplit])
    · rename_i hempty
      have hname : name = String.ofList front.reverse ++ "." ++ String.ofList ending := by
        rw [← String.toList_inj, hsplit]
        simp
      rw [hname]
      refine .cut (fun h => hempty ?_) (by rwa [String.toList_ofList])
      simpa [← String.toList_inj] using h
theorem StemOf.mem {c : Char} (h : StemOf second first) (hc : c ∈ first.toList) : c ∈ second.toList := by
  cases h with
  | cut => simp [hc]
  | whole => exact hc

theorem mem_text_of_stem? {c : Char} (h : path.stem? = some name) (hc : c ∈ name.toList) :
    c ∈ path.text.toList := by
  obtain ⟨last, hends, -, hstem⟩ := stemOf_of_stem? h
  have hlast : last ∈ path.parts := List.mem_of_getLast? (endsIn_iff.1 hends)
  exact mem_text_of_mem_fields (List.mem_of_mem_filter hlast) (hstem.mem hc)

end DatabaseProject.Path
