import DatabaseProject.Proofs.Delimited
import DatabaseProject.Solution

/-!
# What a solution file tells of its solution

The file names each entry on a line of its own and configures it in a section, and it has the id of the
solution in another section. As long as no name or id holds a quotation mark or a line feed, lines and
sections can be told apart whatever the names look like, so the entries and the id can be read off the
text.
-/

namespace DatabaseProject

namespace Solution

variable {solution other : Solution} {entry : SolutionEntry} {name guid line header : String}
  {lines content others : List String} {part : String × List String}

/-- The lines that start the entry of a project. -/
def isEntry (line : String) : Bool := "Project(".toList.isPrefixOf line.toList

/-- How the entry of a project with an id starts. -/
def entryStart (name guid : String) : String :=
  "Project(\"\x7b00D1A9C2-B5F0-4AF3-8072-F6C62B433612\x7d\") = \"" ++ name ++ "\", \"" ++ name
    ++ ".sqlproj\", \"" ++ guid ++ "\""

theorem filter_isEntry_sectionLines (name time : String) (content : List String) :
    (sectionLines name time content).filter isEntry = [] := by
  rw [List.filter_eq_nil_iff]
  intro line h
  simp only [sectionLines, List.cons_append, List.nil_append, List.mem_cons, List.mem_append,
    List.mem_map, List.not_mem_nil, or_false] at h
  obtain rfl | ⟨_, -, rfl⟩ | rfl := h <;> simp [isEntry, String.toList_append]

theorem isEntry_append {line : String} (h : isEntry line = true) (rest : String) :
    isEntry (line ++ rest) = true := by
  rw [isEntry, List.isPrefixOf_iff_prefix] at h ⊢
  rw [String.toList_append]
  exact h.trans (List.prefix_append _ _)

theorem entryLines_eq (entry : SolutionEntry) :
    entryLines entry = [entryStart entry.name entry.guid, "EndProject"] := rfl

theorem filter_isEntry_entryLines (entry : SolutionEntry) :
    (entryLines entry).filter isEntry = [entryStart entry.name entry.guid] := by
  have hstart : isEntry (entryStart entry.name entry.guid) = true := by
    iterate 6 refine isEntry_append ?_ _
    decide
  rw [entryLines_eq, List.filter_cons_of_pos hstart, List.filter_cons_of_neg (by decide), List.filter_nil]

/-- A solution file names its entries in their order. -/
theorem filter_isEntry_lines (solution : Solution) : solution.lines.filter isEntry =
    solution.entries.map fun entry => entryStart entry.name entry.guid := by
  simp only [lines, List.filter_append, filter_isEntry_sectionLines, List.append_nil, List.filter_flatMap,
    filter_isEntry_entryLines, ← List.map_eq_flatMap]
  simp [isEntry]

/-- The names and ids that the file shows. -/
def shownTexts (solution : Solution) : List String :=
  solution.guid :: solution.entries.flatMap fun entry => [entry.name, entry.guid]

/-- No name or id ends the quotation or the line that it stands in. -/
def IsQuotable (solution : Solution) : Prop :=
  ∀ text ∈ solution.shownTexts, '"' ∉ text.toList ∧ '\n' ∉ text.toList

instance (solution : Solution) : Decidable solution.IsQuotable :=
  inferInstanceAs (Decidable (∀ text ∈ solution.shownTexts, '"' ∉ text.toList ∧ '\n' ∉ text.toList))

/-- No id ends the line that it stands in. -/
structure HasUnbrokenIds (solution : Solution) : Prop where
  guid : Unbroken solution.guid
  entries : ∀ entry ∈ solution.entries, Unbroken entry.guid

theorem IsQuotable.of_mem (h : solution.IsQuotable) (he : entry ∈ solution.entries) :
    ('"' ∉ entry.name.toList ∧ Unbroken entry.name) ∧ '"' ∉ entry.guid.toList ∧ Unbroken entry.guid := by
  have hmem : ∀ text ∈ [entry.name, entry.guid], text ∈ solution.shownTexts := fun text ht =>
    List.mem_cons_of_mem _ (List.mem_flatMap.2 ⟨entry, he, ht⟩)
  exact ⟨h _ (hmem _ (by simp)), h _ (hmem _ (by simp))⟩

theorem IsQuotable.hasUnbrokenIds (h : solution.IsQuotable) : solution.HasUnbrokenIds :=
  ⟨(h _ List.mem_cons_self).2, fun _ he => (h.of_mem he).2.2⟩

/-- What is done with a project in each configuration, as it is written behind the id of the project. -/
def configurationTexts : List String :=
  [".Debug|Any CPU.ActiveCfg = Debug|Any CPU", ".Debug|Any CPU.Build.0 = Debug|Any CPU",
    ".Debug|Any CPU.Deploy.0 = Debug|Any CPU", ".Release|Any CPU.ActiveCfg = Release|Any CPU",
    ".Release|Any CPU.Build.0 = Release|Any CPU", ".Release|Any CPU.Deploy.0 = Release|Any CPU"]

/-- The six lines for the configurations of a project. -/
def configured (guid : String) : List String := configurationTexts.map ("\t\t" ++ guid ++ ·)

/-- The sections of the file, each with its header and the lines in it. -/
def sections (solution : Solution) : List (String × List String) :=
  [("\tGlobalSection(SolutionConfigurationPlatforms) = preSolution",
      ["\t\tDebug|Any CPU = Debug|Any CPU", "\t\tRelease|Any CPU = Release|Any CPU"]),
    ("\tGlobalSection(ProjectConfigurationPlatforms) = postSolution",
      solution.entries.flatMap fun entry => configured entry.guid),
    ("\tGlobalSection(SolutionProperties) = preSolution", ["\t\tHideSolutionNode = FALSE"]),
    ("\tGlobalSection(ExtensibilityGlobals) = postSolution", ["\t\tSolutionGuid = " ++ solution.guid])]

/-- The headers of all sections. -/
def sectionHeaders : List String :=
  ["\tGlobalSection(SolutionConfigurationPlatforms) = preSolution",
    "\tGlobalSection(ProjectConfigurationPlatforms) = postSolution",
    "\tGlobalSection(SolutionProperties) = preSolution",
    "\tGlobalSection(ExtensibilityGlobals) = postSolution"]

theorem map_fst_sections (solution : Solution) : solution.sections.map Prod.fst = sectionHeaders := rfl

/-- The line that ends a section. -/
def sectionEnd : String := "\tEndGlobalSection"

/-- A line begins a section. -/
def opensSection (line : String) : Bool := "\tGlobalSection(".toList.isPrefixOf line.toList

/-- The header stands in the lines once, and behind it the content of the section and its end: no other
section begins or ends before. -/
def HasSection (lines : List String) (header : String) (content : List String) : Prop :=
  lines.count header = 1 ∧ (∀ line ∈ content, opensSection line = false ∧ line ≠ sectionEnd) ∧
    ∃ before after, lines = before ++ header :: content ++ sectionEnd :: after

/-- The lines before the entries. -/
def preamble : List String :=
  ["Microsoft Visual Studio Solution File, Format Version 12.00", "# Visual Studio Version 16",
    "VisualStudioVersion = 16.0.31112.23", "MinimumVisualStudioVersion = 10.0.40219.1"]

theorem map_configurationLines (entry : SolutionEntry) :
    (configurationLines entry).map ("\t\t" ++ ·) = configured entry.guid := by
  simp only [configurationLines, configurations, configurationSteps, configured, configurationTexts,
    List.flatMap_cons, List.flatMap_nil, List.map_cons, List.map_nil, List.append_nil, List.cons_append,
    List.nil_append, String.append_assoc]
  rfl

theorem lines_eq (solution : Solution) : solution.lines = preamble ++
    (solution.entries.flatMap fun entry => [entryStart entry.name entry.guid, "EndProject"]) ++
    "Global" :: (solution.sections.flatMap fun part => part.1 :: part.2 ++ [sectionEnd]) ++
    ["EndGlobal"] := by
  have hprojects : (solution.entries.flatMap configurationLines).map ("\t\t" ++ ·) =
      solution.entries.flatMap fun entry => configured entry.guid := by
    rw [List.map_flatMap]
    simp only [map_configurationLines]
  have hguid : "\t\t" ++ ("SolutionGuid = " ++ solution.guid) = "\t\tSolutionGuid = " ++ solution.guid := by
    rw [← String.append_assoc]
    rfl
  simp only [lines, sectionLines, hprojects, sections, List.flatMap_cons, List.flatMap_nil, List.map_cons,
    List.map_nil, hguid, List.append_assoc, List.cons_append, List.nil_append]
  rfl

/-- A text of given characters: those of a literal need not be computed from its bytes. -/
theorem unbroken_ofList {cs : List Char} (h : '\n' ∉ cs) : Unbroken (String.ofList cs) := by
  rwa [Unbroken, String.toList_ofList]

theorem opensSection_append (rest : String) : opensSection ("\tGlobalSection(" ++ rest) = true := by
  rw [opensSection, String.toList_append, List.isPrefixOf_iff_prefix]
  exact List.prefix_append _ _

theorem not_opensSection_ofList {c : Char} (hc : c ≠ '\t') (cs : List Char) :
    opensSection (String.ofList (c :: cs)) = false := by
  simp [opensSection, List.isPrefixOf, hc.symm]

theorem not_opensSection_preamble : ∀ line ∈ preamble, opensSection line = false := by
  simp only [preamble, List.forall_mem_cons]
  exact ⟨not_opensSection_ofList (by decide) _, not_opensSection_ofList (by decide) _,
    not_opensSection_ofList (by decide) _, not_opensSection_ofList (by decide) _, by simp⟩

theorem unbroken_preamble : ∀ line ∈ preamble, Unbroken line := by
  simp only [preamble, List.forall_mem_cons]
  exact ⟨unbroken_ofList (by decide), unbroken_ofList (by decide), unbroken_ofList (by decide),
    unbroken_ofList (by decide), by simp⟩

theorem opensSection_sectionHeaders : ∀ header ∈ sectionHeaders, opensSection header = true := by
  simp only [sectionHeaders, List.forall_mem_cons]
  exact ⟨opensSection_append "SolutionConfigurationPlatforms) = preSolution",
    opensSection_append "ProjectConfigurationPlatforms) = postSolution",
    opensSection_append "SolutionProperties) = preSolution",
    opensSection_append "ExtensibilityGlobals) = postSolution", by simp⟩

theorem unbroken_sectionHeaders : ∀ header ∈ sectionHeaders, Unbroken header := by
  simp only [sectionHeaders, List.forall_mem_cons]
  exact ⟨unbroken_ofList (by decide), unbroken_ofList (by decide), unbroken_ofList (by decide),
    unbroken_ofList (by decide), by simp⟩

theorem unbroken_configurationTexts : ∀ text ∈ configurationTexts, Unbroken text := by
  simp only [configurationTexts, List.forall_mem_cons]
  exact ⟨unbroken_ofList (by decide), unbroken_ofList (by decide), unbroken_ofList (by decide),
    unbroken_ofList (by decide), unbroken_ofList (by decide), unbroken_ofList (by decide), by simp⟩

/-- A project line is cut by its quotation marks. -/
theorem entryStart_eq_intercalate (name guid : String) : entryStart name guid = "\"".intercalate
    ["Project(", "\x7b00D1A9C2-B5F0-4AF3-8072-F6C62B433612\x7d", ") = ", name, ", ", name ++ ".sqlproj",
      ", ", guid, ""] := by
  delta entryStart
  simp [← String.toList_inj]

/-- A line is indented further than what begins and ends a section. -/
def IsIndented (line : String) : Prop := ∃ rest, line = "\t\t" ++ rest

theorem IsIndented.not_opensSection (h : IsIndented line) : opensSection line = false := by
  obtain ⟨rest, rfl⟩ := h
  simp [opensSection, String.toList_append, List.isPrefixOf]

theorem IsIndented.ne_sectionEnd (h : IsIndented line) : line ≠ sectionEnd := by
  obtain ⟨rest, rfl⟩ := h
  simp [sectionEnd, ← String.toList_inj]

theorem isIndented_of_mem_configured (h : line ∈ configured guid) : IsIndented line := by
  obtain ⟨text, -, rfl⟩ := List.mem_map.1 h
  exact ⟨guid ++ text, String.append_assoc ..⟩

theorem isIndented_of_mem (hp : part ∈ solution.sections) (hl : line ∈ part.2) : IsIndented line := by
  simp only [sections, List.mem_cons, List.not_mem_nil, or_false] at hp
  rcases hp with rfl | rfl | rfl | rfl
  · have hall : ∀ c ∈ configurations, IsIndented ("\t\t" ++ c ++ "|Any CPU = " ++ c ++ "|Any CPU") := by
      intro c _
      exact ⟨c ++ "|Any CPU = " ++ c ++ "|Any CPU", by simp only [String.append_assoc]⟩
    simp only [List.mem_cons, List.not_mem_nil, or_false] at hl
    rcases hl with rfl | rfl
    · exact hall "Debug" (by decide)
    · exact hall "Release" (by decide)
  · obtain ⟨entry, -, hl⟩ := List.mem_flatMap.1 hl
    exact isIndented_of_mem_configured hl
  · rw [List.mem_singleton.1 hl]
    exact ⟨"HideSolutionNode = FALSE", rfl⟩
  · rw [List.mem_singleton.1 hl]
    exact ⟨"SolutionGuid = " ++ solution.guid, by rw [← String.append_assoc]; rfl⟩

theorem mem_sectionHeaders (hp : part ∈ solution.sections) : part.1 ∈ sectionHeaders :=
  map_fst_sections solution ▸ List.mem_map_of_mem hp

theorem filter_opensSection_part (hp : part ∈ solution.sections) :
    (part.1 :: part.2 ++ [sectionEnd]).filter opensSection = [part.1] := by
  have hheader := opensSection_sectionHeaders _ (mem_sectionHeaders hp)
  have hcontent : part.2.filter opensSection = [] := by
    rw [List.filter_eq_nil_iff]
    intro line hl
    rw [(isIndented_of_mem hp hl).not_opensSection]
    exact Bool.false_ne_true
  rw [List.filter_append, List.filter_cons_of_pos hheader, hcontent]
  rfl

/-- No line of the file begins a section but the headers in their order. -/
theorem filter_opensSection_lines (solution : Solution) :
    solution.lines.filter opensSection = sectionHeaders := by
  have hentries : (solution.entries.flatMap fun entry =>
      [entryStart entry.name entry.guid, "EndProject"]).filter opensSection = [] := by
    rw [List.filter_flatMap, List.flatMap_eq_nil_iff]
    intro entry _
    rw [entryStart_eq_intercalate, intercalate_cons]
    generalize String.join _ = rest
    simp [opensSection, List.isPrefixOf]
  have hparts : (solution.sections.flatMap fun part => part.1 :: part.2 ++ [sectionEnd]).filter
      opensSection = sectionHeaders := by
    rw [List.filter_flatMap, ← map_fst_sections solution, List.map_eq_flatMap]
    exact List.flatMap_congr fun part => filter_opensSection_part
  have hpreamble : preamble.filter opensSection = [] :=
    List.filter_eq_nil_iff.2 fun line hl => Bool.eq_false_iff.1 (not_opensSection_preamble line hl)
  rw [lines_eq, List.filter_append, List.filter_append, List.filter_append, hpreamble, hentries,
    List.filter_cons_of_neg (by decide), hparts]
  decide

/-- All sections stand in the file. -/
theorem hasSection_lines (hp : part ∈ solution.sections) (rest : List String)
    (hrest : ∀ line ∈ rest, opensSection line = false) :
    HasSection (solution.lines ++ rest) part.1 part.2 := by
  have hheader := mem_sectionHeaders hp
  have hnodup : sectionHeaders.Nodup := by simp [sectionHeaders]
  refine ⟨?_, fun line hl => ?_, ?_⟩
  · rw [← List.count_filter (opensSection_sectionHeaders _ hheader), List.filter_append, filter_opensSection_lines,
      List.filter_eq_nil_iff.2 (by simpa using hrest), List.append_nil]
    exact List.count_eq_one_of_mem hnodup hheader
  · have hindented := isIndented_of_mem hp hl
    exact ⟨hindented.not_opensSection, hindented.ne_sectionEnd⟩
  · obtain ⟨before, after, hsplit⟩ := List.append_of_mem hp
    rw [lines_eq, hsplit, List.flatMap_append, List.flatMap_cons]
    generalize (before.flatMap fun part => part.1 :: part.2 ++ [sectionEnd]) = front
    generalize (after.flatMap fun part => part.1 :: part.2 ++ [sectionEnd]) = back
    generalize (preamble ++ solution.entries.flatMap fun entry =>
      [entryStart entry.name entry.guid, "EndProject"]) = start
    exact ⟨start ++ "Global" :: front, back ++ "EndGlobal" :: rest, by simp⟩

/-- A section has no other content. -/
theorem HasSection.content_unique (h : HasSection lines header content)
    (h' : HasSection lines header others) : content = others := by
  have hfirst : ∀ before after : List String, (before ++ header :: after).count header = 1 →
      ∀ line ∈ before, line ≠ header := by
    rintro before after hone line hl rfl
    rw [List.count_append, List.count_cons_self] at hone
    have hpositive := List.count_pos_iff.2 hl
    omega
  obtain ⟨hone, hcontent, before, after, hlines⟩ := h
  obtain ⟨-, hothers, before', after', hlines'⟩ := h'
  rw [List.append_assoc, List.cons_append] at hlines hlines'
  have hbefore := hfirst _ _ (hlines ▸ hone)
  have hbefore' := hfirst _ _ (hlines' ▸ hone)
  obtain ⟨-, hrest⟩ := append_inj_of_forall (p := (· ≠ header)) hbefore hbefore' (by simp) (by simp)
    (hlines.symm.trans hlines')
  rw [List.cons.injEq] at hrest
  exact (append_inj_of_forall (p := (· ≠ sectionEnd)) (fun line hl => (hcontent line hl).2)
    (fun line hl => (hothers line hl).2) (by simp) (by simp) hrest.2).1

theorem unbroken_of_mem_configured (h : Unbroken guid) (hl : line ∈ configured guid) : Unbroken line := by
  obtain ⟨text, ht, rfl⟩ := List.mem_map.1 hl
  rw [unbroken_append, unbroken_append]
  exact ⟨⟨by decide, h⟩, unbroken_configurationTexts text ht⟩

theorem unbroken_of_mem_sections (h : solution.HasUnbrokenIds) (hp : part ∈ solution.sections)
    (hl : line ∈ part.2) : Unbroken line := by
  simp only [sections, List.mem_cons, List.not_mem_nil, or_false] at hp
  rcases hp with rfl | rfl | rfl | rfl
  · simp only [List.mem_cons, List.not_mem_nil, or_false] at hl
    rcases hl with rfl | rfl
    · exact unbroken_ofList (by decide)
    · exact unbroken_ofList (by decide)
  · obtain ⟨entry, he, hl⟩ := List.mem_flatMap.1 hl
    exact unbroken_of_mem_configured (h.entries entry he) hl
  · rw [List.mem_singleton.1 hl]
    exact unbroken_ofList (by decide)
  · rw [List.mem_singleton.1 hl, unbroken_append]
    exact ⟨unbroken_ofList (by decide), h.guid⟩

/-- The lines behind the entries. -/
def closing (solution : Solution) : List String :=
  "Global" :: (solution.sections.flatMap fun part => part.1 :: part.2 ++ [sectionEnd]) ++ ["EndGlobal"]

theorem lines_eq_around (solution : Solution) :
    solution.lines = preamble ++ (solution.entries.flatMap entryLines) ++ solution.closing := by
  rw [lines_eq, List.append_assoc]
  rfl

theorem unbroken_around (h : solution.HasUnbrokenIds) :
    ∀ line ∈ preamble ++ solution.closing, Unbroken line := by
  have hsections : ∀ line ∈ solution.sections.flatMap fun part => part.1 :: part.2 ++ [sectionEnd],
      Unbroken line := by
    intro line hl
    obtain ⟨part, hp, hl⟩ := List.mem_flatMap.1 hl
    rw [List.mem_append, List.mem_cons, List.mem_singleton] at hl
    rcases hl with (rfl | hl) | rfl
    · exact unbroken_sectionHeaders _ (mem_sectionHeaders hp)
    · exact unbroken_of_mem_sections h hp hl
    · decide
  simp only [closing, List.forall_mem_append, List.forall_mem_cons]
  exact ⟨unbroken_preamble, ⟨by decide, hsections⟩, by decide, by simp⟩

theorem unbroken_of_mem_lines (h : solution.HasUnbrokenIds)
    (hn : ∀ entry ∈ solution.entries, Unbroken entry.name) : ∀ line ∈ solution.lines, Unbroken line := by
  have haround := unbroken_around h
  rw [List.forall_mem_append] at haround
  have hentries : ∀ line ∈ solution.entries.flatMap entryLines, Unbroken line := by
    intro line hl
    obtain ⟨entry, he, hl⟩ := List.mem_flatMap.1 hl
    have hname := hn entry he
    have hguid := h.entries entry he
    simp only [entryLines_eq, List.mem_cons, List.not_mem_nil, or_false] at hl
    rcases hl with rfl | rfl
    · delta entryStart
      simp +decide [unbroken_append, hname, hguid]
    · decide
  rw [lines_eq_around]
  simp only [List.forall_mem_append]
  exact ⟨⟨haround.1, hentries⟩, haround.2⟩

theorem lines_ne_nil (solution : Solution) : solution.lines ≠ [] := by simp [lines]

theorem text_eq (solution : Solution) : solution.text = "\n".intercalate solution.lines ++ "\n" := by
  rw [← unlines_eq solution.lines_ne_nil]
  rfl

/-- The file consists of the lines, each with a line feed behind it. -/
theorem textLines_text (h : solution.HasUnbrokenIds)
    (hn : ∀ entry ∈ solution.entries, Unbroken entry.name) :
    textLines solution.text = solution.lines ++ [""] := by
  have hlines := textLines_append ("\n".intercalate solution.lines) ""
  rwa [String.append_empty, ← text_eq, textLines_intercalate solution.lines_ne_nil
    (unbroken_of_mem_lines h hn)] at hlines

theorem IsQuotable.textLines_text (h : solution.IsQuotable) :
    textLines solution.text = solution.lines ++ [""] :=
  Solution.textLines_text h.hasUnbrokenIds fun _ he => (h.of_mem he).1.2

/-- The texts between the quotation marks of a line, and those around them. -/
def quotedParts (line : String) : List String := (line.toList.splitOn '"').map String.ofList

/-- The entry that a line names: the second text in quotation marks is its name and the fourth its id. -/
def entryOf? (line : String) : Option SolutionEntry :=
  match quotedParts line with
  | [_, _, _, name, _, _, _, guid, _] => some ⟨name, guid⟩
  | _ => none

theorem entryOf?_entryStart (hn : '"' ∉ name.toList) (hg : '"' ∉ guid.toList) :
    entryOf? (entryStart name guid) = some ⟨name, guid⟩ := by
  have hparts : ∀ text ∈ ["Project(", "\x7b00D1A9C2-B5F0-4AF3-8072-F6C62B433612\x7d", ") = ", name, ", ",
      name ++ ".sqlproj", ", ", guid, ""], '"' ∉ text.toList := by
    simp +decide [hn, hg]
  have hcut : quotedParts (entryStart name guid) = _ :=
    entryStart_eq_intercalate name guid ▸ cut_intercalate '"' (by simp) hparts
  rw [entryOf?, hcut]

/-- Around the entries no line begins like a project line. -/
theorem filter_isEntry_around (solution : Solution) : (preamble ++ solution.closing).filter isEntry = [] := by
  have hentries : (solution.entries.flatMap entryLines).filter isEntry =
      solution.entries.map fun entry => entryStart entry.name entry.guid := by
    rw [List.filter_flatMap, List.map_eq_flatMap]
    exact List.flatMap_congr fun entry _ => filter_isEntry_entryLines entry
  -- The lines of the entries are all that begin like one, so that none are left for the others.
  have hlengths := congrArg List.length (filter_isEntry_lines solution)
  rw [lines_eq_around, List.filter_append, List.filter_append, hentries, List.length_append,
    List.length_append] at hlengths
  rw [← List.length_eq_zero_iff, List.filter_append, List.length_append]
  omega

/-- The lines of a name behind its first that begin like a project line. -/
def entriesWithin (name : String) : List String := (textLines name).tail.filter isEntry

theorem textLines_of_unbroken (h : Unbroken line) : textLines line = [line] := by
  rw [textLines, List.splitOn_eq_singleton h]
  simp

theorem entriesWithin_of_unbroken (h : Unbroken line) : entriesWithin line = [] := by
  rw [entriesWithin, textLines_of_unbroken h]
  rfl

/-- The last line of a text goes on with the first of what follows. -/
theorem textLines_append_rest {text rest last first : String} (ht : textLines text = others ++ [last])
    (hr : textLines rest = first :: lines) : textLines (text ++ rest) = others ++ (last ++ first) :: lines := by
  have hpieces : ∀ text : String, text.toList.splitOn '\n' = (textLines text).map String.toList := by
    intro text
    simp [textLines, Function.comp_def]
  have htext := hpieces text
  have hrest := hpieces rest
  rw [ht, List.map_append, List.map_singleton] at htext
  rw [hr, List.map_cons] at hrest
  rw [textLines, String.toList_append, splitOn_append htext hrest]
  simp [Function.comp_def, String.ofList_append]

theorem textLines_append_of_unbroken {rest first : String} (h : Unbroken line)
    (hr : textLines rest = first :: lines) : textLines (line ++ rest) = (line ++ first) :: lines := by
  have hline : textLines line = [] ++ [line] := textLines_of_unbroken h
  exact textLines_append_rest hline hr

theorem exists_first_line (text : String) : ∃ first rest, textLines text = first :: rest :=
  List.exists_cons_of_ne_nil (textLines_ne_nil text)

theorem entriesWithin_append (h : Unbroken line) (text : String) :
    entriesWithin (line ++ text) = entriesWithin text := by
  obtain ⟨first, rest, hr⟩ := exists_first_line text
  rw [entriesWithin, textLines_append_of_unbroken h hr, entriesWithin, hr]
  rfl

/-- A line that goes on with a character of no project line begins like one or not before it. -/
theorem isEntry_append_of_not_mem {c : Char} (hc : c ∉ "Project(".toList) (line rest : String) :
    isEntry (line ++ String.ofList (c :: rest.toList)) = isEntry line := by
  rw [Bool.eq_iff_iff, isEntry, isEntry, List.isPrefixOf_iff_prefix, List.isPrefixOf_iff_prefix,
    String.toList_append]
  constructor
  · intro h
    rcases List.prefix_or_prefix_of_prefix h (List.prefix_append line.toList _) with hline | ⟨more, hmore⟩
    · exact hline
    · rw [← hmore, List.prefix_append_right_inj, String.toList_ofList] at h
      cases more with
      | nil => exact ⟨[], by simpa using hmore.symm⟩
      | cons d more =>
        obtain ⟨rfl, -⟩ := List.cons_prefix_cons.1 h
        exact absurd (hmore ▸ List.mem_append_right _ List.mem_cons_self) hc
  · exact fun h => h.trans (List.prefix_append _ _)

theorem length_entriesWithin_append {c : Char} (hc : c ∉ "Project(".toList) (hne : c ≠ '\n')
    (name rest : String) : (entriesWithin (name ++ String.ofList (c :: rest.toList))).length =
      (entriesWithin name).length + (entriesWithin rest).length := by
  obtain ⟨first, lines, hr⟩ := exists_first_line rest
  obtain ⟨others, last, hname⟩ := (List.eq_nil_or_concat _).resolve_left (textLines_ne_nil name)
  rw [List.concat_eq_append] at hname
  have hmark : textLines (String.ofList (c :: rest.toList)) = String.ofList (c :: first.toList) :: lines := by
    have hone : Unbroken (String.ofList [c]) := unbroken_ofList (by simpa using Ne.symm hne)
    have hall := textLines_append_of_unbroken hone hr
    simpa [← String.ofList_append, ← String.toList_inj] using hall
  rw [entriesWithin, textLines_append_rest hname hmark, entriesWithin, entriesWithin, hr, hname]
  cases others with
  | nil => simp
  | cons other others =>
    rw [List.cons_append, List.cons_append, List.tail_cons, List.tail_cons, List.tail_cons,
      List.filter_append, List.filter_append, List.length_append, List.length_append, Nat.add_assoc,
      List.filter_cons, isEntry_append_of_not_mem hc, List.filter_singleton]
    cases isEntry last <;> simp [Nat.add_comm]

/-- The name is in its entry twice, and so is each of its lines. -/
theorem length_filter_isEntry_entryStart (name : String) (h : Unbroken guid) :
    ((textLines (entryStart name guid)).filter isEntry).length = 1 + 2 * (entriesWithin name).length := by
  let start := "Project(\"\x7b00D1A9C2-B5F0-4AF3-8072-F6C62B433612\x7d\") = \""
  let behind := name ++ String.ofList ('"' :: (", \"" ++ (name ++
    String.ofList ('.' :: ("sqlproj\", \"" ++ guid ++ "\"").toList))).toList)
  have hsplit : entryStart name guid = start ++ behind := by
    delta entryStart
    simp [start, behind, ← String.toList_inj]
  have hstart : Unbroken start := by decide
  have hend : Unbroken ("sqlproj\", \"" ++ guid ++ "\"") := by
    simp +decide [unbroken_append, h]
  obtain ⟨first, lines, hlines⟩ := exists_first_line behind
  have hcount : (entriesWithin behind).length = 2 * (entriesWithin name).length := by
    rw [length_entriesWithin_append (by decide) (by decide), entriesWithin_append (by decide),
      length_entriesWithin_append (by decide) (by decide), entriesWithin_of_unbroken hend, List.length_nil]
    omega
  rw [entriesWithin, hlines, List.tail_cons] at hcount
  rw [hsplit, textLines_append_of_unbroken hstart hlines,
    List.filter_cons_of_pos (isEntry_append (by decide) first), List.length_cons, hcount, Nat.add_comm]

/-- The lines of a file are the lines of its lines, and an empty one behind the last line feed. -/
theorem textLines_join (lines : List String) :
    textLines (String.join (lines.map (· ++ "\n"))) = lines.flatMap textLines ++ [""] := by
  induction lines with
  | nil => rfl
  | cons line lines ih =>
    rw [List.map_cons, String.join_cons, textLines_append, ih, List.flatMap_cons, List.append_assoc]

/-- The lines of the file that begin like a project line: one for each entry, and two for each line within
a name that does so. -/
theorem length_filter_isEntry_text (h : solution.HasUnbrokenIds) :
    ((textLines solution.text).filter isEntry).length =
      solution.entries.length + 2 * (solution.entries.flatMap fun entry => entriesWithin entry.name).length := by
  have haround : ((preamble ++ solution.closing).flatMap textLines).filter isEntry = [] := by
    have hlines : (preamble ++ solution.closing).flatMap textLines = preamble ++ solution.closing := by
      rw [List.flatMap_congr fun line hl => textLines_of_unbroken (unbroken_around h line hl),
        List.flatMap_singleton']
    rw [hlines, filter_isEntry_around]
  have hentry : ∀ entry ∈ solution.entries, (((entryLines entry).flatMap textLines).filter isEntry).length =
      1 + 2 * (entriesWithin entry.name).length := by
    intro entry he
    rw [entryLines_eq, List.flatMap_cons, List.flatMap_singleton, List.filter_append, List.length_append,
      length_filter_isEntry_entryStart entry.name (h.entries entry he)]
    rfl
  have hentries : (((solution.entries.flatMap entryLines).flatMap textLines).filter isEntry).length =
      solution.entries.length + 2 * (solution.entries.flatMap fun entry => entriesWithin entry.name).length := by
    generalize solution.entries = entries at hentry
    induction entries with
    | nil => rfl
    | cons entry entries ih =>
      rw [List.forall_mem_cons] at hentry
      simp only [List.flatMap_cons, List.flatMap_append, List.filter_append, List.length_append,
        List.length_cons, hentry.1, ih hentry.2]
      omega
  rw [List.flatMap_append, List.filter_append, List.append_eq_nil_iff] at haround
  have htext : textLines solution.text = solution.lines.flatMap textLines ++ [""] := textLines_join _
  rw [htext, lines_eq_around, List.flatMap_append, List.flatMap_append, List.filter_append, List.filter_append,
    List.filter_append, haround.1, haround.2, List.nil_append, List.append_nil, List.length_append, hentries]
  rfl

/-- The file has one project line for each entry unless a line within a name looks like one. -/
theorem length_filter_isEntry_eq_iff (h : solution.HasUnbrokenIds) :
    ((textLines solution.text).filter isEntry).length = solution.entries.length ↔
      ∀ entry ∈ solution.entries, entriesWithin entry.name = [] := by
  rw [length_filter_isEntry_text h, ← List.flatMap_eq_nil_iff, ← List.length_eq_zero_iff]
  omega

/-- The text of an entry, with its end. -/
def entryText (name guid : String) : String := entryStart name guid ++ "\nEndProject\n"

/-- The entries stand in the file one behind the other, whatever the names are. -/
theorem exists_around_entryTexts (solution : Solution) : ∃ before after, solution.text =
    before ++ "\n" ++ String.join (solution.entries.map fun entry => entryText entry.name entry.guid) ++
      after := by
  have hentry : ∀ entry : SolutionEntry, String.join ((entryLines entry).map (· ++ "\n")) =
      entryText entry.name entry.guid := by
    intro entry
    simp [entryLines_eq, entryText, ← String.toList_inj]
  have hentries : String.join ((solution.entries.flatMap entryLines).map (· ++ "\n")) =
      String.join (solution.entries.map fun entry => entryText entry.name entry.guid) := by
    induction solution.entries with
    | nil => rfl
    | cons entry entries ih =>
      rw [List.flatMap_cons, List.map_append, String.join_append, hentry, ih, List.map_cons, String.join_cons]
  have hpreamble : unlines preamble = "\n".intercalate preamble ++ "\n" := unlines_eq (by decide)
  refine ⟨"\n".intercalate preamble, unlines solution.closing, ?_⟩
  rw [← hpreamble, ← hentries, text, lines_eq_around]
  simp [unlines, String.join_append, String.append_assoc]

theorem entryOf?_text (h : solution.IsQuotable) :
    ((textLines solution.text).filter isEntry).map entryOf? = solution.entries.map some := by
  have hlast : [""].filter isEntry = [] := by decide
  rw [h.textLines_text, List.filter_append, filter_isEntry_lines, hlast, List.append_nil, List.map_map]
  refine List.map_congr_left fun entry he => ?_
  obtain ⟨⟨hname, -⟩, hguid, -⟩ := h.of_mem he
  rw [Function.comp_apply, entryOf?_entryStart hname hguid]

theorem hasSection_text (h : solution.IsQuotable) (hp : part ∈ solution.sections) :
    HasSection (textLines solution.text) part.1 part.2 := by
  rw [h.textLines_text]
  exact hasSection_lines hp [""] (by decide)

theorem guid_eq_of_text_eq (h : solution.IsQuotable) (ho : other.IsQuotable)
    (ht : other.text = solution.text) : other.guid = solution.guid := by
  -- The section with the id has the same content in both.
  have hmem : ∀ shown : Solution, ("\tGlobalSection(ExtensibilityGlobals) = postSolution",
      ["\t\tSolutionGuid = " ++ shown.guid]) ∈ shown.sections := by simp [sections]
  have hcontent := hasSection_text ho (hmem other)
  have hown := hasSection_text h (hmem solution)
  rw [ht] at hcontent
  have hsame := hcontent.content_unique hown
  rwa [List.cons.injEq, String.append_right_inj, and_iff_left rfl] at hsame

theorem entries_eq_of_text_eq (h : solution.IsQuotable) (ho : other.IsQuotable)
    (ht : other.text = solution.text) : other.entries = solution.entries := by
  have hread := entryOf?_text ho
  rw [ht, entryOf?_text h] at hread
  exact (List.map_injective_iff.2 (Option.some_injective _) hread).symm

/-- The text of a solution file tells its lines and its sections apart, whatever is in the names, and gives
the id and the entries of the solution back: a line that begins like a project line is that of an entry, in
the order of the entries and with its end behind it, and name and id can be read from it; every section
stands there once and is ended, and the one for the projects has six lines for each entry in their order. -/
theorem text_determines_solution (solution : Solution) (h : solution.IsQuotable) :
    (∃ body, solution.text = body ++ "\n") ∧
    (∃ before after, textLines solution.text = before ++
        (solution.entries.flatMap fun entry => [entryStart entry.name entry.guid, "EndProject"]) ++ after ∧
      ∀ line ∈ before ++ after, isEntry line = false) ∧
    ((textLines solution.text).filter isEntry).map entryOf? = solution.entries.map some ∧
    (textLines solution.text).filter opensSection = sectionHeaders ∧
    (∀ part ∈ solution.sections, HasSection (textLines solution.text) part.1 part.2) ∧
    ∀ other : Solution, other.IsQuotable → other.text = solution.text →
      other.guid = solution.guid ∧ other.entries = solution.entries := by
  refine ⟨⟨_, text_eq solution⟩, ?_, entryOf?_text h, ?_, fun part => hasSection_text h, fun other ho ht =>
    ⟨guid_eq_of_text_eq h ho ht, entries_eq_of_text_eq h ho ht⟩⟩
  · refine ⟨preamble, solution.closing ++ [""], ?_, fun line hl => ?_⟩
    · rw [h.textLines_text, lines_eq_around, List.append_assoc]
      rfl
    rw [← List.append_assoc, List.mem_append, List.mem_singleton] at hl
    rcases hl with hl | rfl
    · exact Bool.eq_false_iff.2 (List.filter_eq_nil_iff.1 (filter_isEntry_around solution) line hl)
    · rfl
  · rw [h.textLines_text, List.filter_append, filter_opensSection_lines]
    rfl

/-- Names that look like parts of a project line, and one that has the look of a section. -/
def misleadingSolution : Solution :=
  ⟨"Shop", "{0}", [⟨"Project(A), B.sqlproj", "{1}"⟩, ⟨"\tEndGlobalSection", "{2}.Debug|Any CPU"⟩, ⟨"", ""⟩]⟩

theorem misleading_solution_told :
    misleadingSolution.IsQuotable ∧
      ((textLines misleadingSolution.text).filter isEntry).map entryOf? =
        misleadingSolution.entries.map some ∧
      (∀ part ∈ misleadingSolution.sections, HasSection (textLines misleadingSolution.text) part.1 part.2) ∧
      ∀ other : Solution, other.IsQuotable → other.text = misleadingSolution.text →
        other.guid = "{0}" ∧ other.entries = misleadingSolution.entries := by
  have hquotable : misleadingSolution.IsQuotable := by decide
  obtain ⟨-, -, hentries, -, hsections, hother⟩ := text_determines_solution misleadingSolution hquotable
  exact ⟨hquotable, hentries, hsections, hother⟩

end Solution

end DatabaseProject
