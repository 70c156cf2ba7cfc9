import DatabaseProject.Project.Comparison
import DatabaseProject.Project.Descriptor
import DatabaseProject.ProjectId
import DatabaseProject.Proofs.Outcome
import DatabaseProject.Solution
import Mathlib.Data.List.Forall2
import Mathlib.Data.Set.Function

/-!
# Renamed ids

Project files hold ids that come from a source of ids, and a run with another source writes other
ids at the same places. `Renamed` relates the texts of two such runs; everything that is written is
related piece by piece, from the ids up to whole files.
-/

namespace DatabaseProject

open Outcome

/-- Two texts that differ only where one has an id and the other has its partner. -/
inductive Renamed (Pair : String → String → Prop) : String → String → Prop
  | same (text : String) : Renamed Pair text text
  | id {id other : String} : Pair id other → Renamed Pair id other
  | append {front front' back back' : String} : Renamed Pair front front' → Renamed Pair back back' →
      Renamed Pair (front ++ back) (front' ++ back')

/-- The ids that two sources give at the same turns, up to a turn. -/
def IdPair (ids others : Nat → String) (count : Nat) (id other : String) : Prop :=
  ∃ turn < count, id = ids turn ∧ other = others turn

/-- Sources that give no id twice pair the ids one to one. -/
theorem biUnique_idPair {ids others : Nat → String} {count : Nat}
    (hi : Set.InjOn ids {turn | turn < count}) (ho : Set.InjOn others {turn | turn < count}) :
    Relator.BiUnique (IdPair ids others count) := by
  constructor
  · rintro _ _ _ ⟨turn, ht, rfl, rfl⟩ ⟨later, hl, rfl, he⟩
    rw [ho ht hl he]
  · rintro _ _ _ ⟨turn, ht, rfl, rfl⟩ ⟨later, hl, he, rfl⟩
    rw [hi ht hl he]

variable {Pair : String → String → Prop}

/-- Written XML holds the ids as they are. -/
def Plain (Pair : String → String → Prop) : Prop :=
  ∀ id other, Pair id other → Xml.Markup.escape id = id ∧ Xml.Markup.escape other = other

theorem plain_idPair {ids others : Nat → String} {count : Nat}
    (hi : ∀ turn, Xml.Markup.escape (ids turn) = ids turn)
    (ho : ∀ turn, Xml.Markup.escape (others turn) = others turn) : Plain (IdPair ids others count) := by
  rintro _ _ ⟨turn, -, rfl, rfl⟩
  exact ⟨hi turn, ho turn⟩

namespace ProjectId

theorem mem_hexDigits_of_mem_hex {word : UInt64} {digits : Nat} {c : Char} (h : c ∈ hex word digits) :
    c ∈ hexDigits := by
  induction digits generalizing word with
  | zero => cases h
  | succ digits ih =>
    rcases List.mem_append.1 h with h | h
    · exact ih h
    · have hlt : word.toNat % 16 < hexDigits.length := Nat.mod_lt _ (by decide)
      rw [List.mem_singleton.1 h, List.getD_eq_getElem?_getD, List.getElem?_eq_getElem hlt]
      exact List.getElem_mem hlt

/-- The characters of ids. -/
def idChars : List Char := '\u007b' :: '\u007d' :: '-' :: hexDigits

theorem mem_idChars {high low : UInt64} {c : Char} (hc : c ∈ (ofWords high low).toList) : c ∈ idChars := by
  simp only [ofWords, String.toList_ofList, List.mem_append, List.mem_singleton] at hc
  simp only [idChars, List.mem_cons]
  rcases hc with ((((((((((rfl | hc) | rfl) | hc) | rfl) | hc) | rfl) | hc) | rfl) | hc) | rfl) <;>
    first
    | exact .inr (.inr (.inr (mem_hexDigits_of_mem_hex hc)))
    | simp

/-- Ids are written in XML as they are. -/
theorem escape_ofWords (high low : UInt64) :
    Xml.Markup.escape (ofWords high low) = ofWords high low := by
  have hplain : idChars.all (fun c => Xml.Markup.escapeChar c == [c]) = true := by decide
  have hchars : ∀ c ∈ (ofWords high low).toList, Xml.Markup.escapeChar c = [c] :=
    fun c hc => beq_iff_eq.1 (List.all_eq_true.1 hplain c (mem_idChars hc))
  rw [Xml.Markup.escape, List.flatMap_congr hchars, List.flatMap_singleton', String.ofList_toList]

theorem escape_nth (seed : UInt64) (n : Nat) : Xml.Markup.escape (nth seed n) = nth seed n :=
  escape_ofWords _ _

end ProjectId

namespace Renamed

variable {text text' : String} {texts texts' : List String}

theorem mono {Wide : String → String → Prop} (h : Renamed Pair text text')
    (hle : ∀ id other, Pair id other → Wide id other) : Renamed Wide text text' := by
  induction h with
  | same => exact .same _
  | id hp => exact .id (hle _ _ hp)
  | append _ _ front back => exact .append front back

theorem wrap (front : String) (h : Renamed Pair text text') (back : String) :
    Renamed Pair (front ++ text ++ back) (front ++ text' ++ back) :=
  .append (.append (.same front) h) (.same back)

theorem join (h : List.Forall₂ (Renamed Pair) texts texts') :
    Renamed Pair (String.join texts) (String.join texts') := by
  induction h with
  | nil => exact .same _
  | cons hfirst _ ih =>
    rw [String.join_cons, String.join_cons]
    exact .append hfirst ih

theorem lines (h : List.Forall₂ (Renamed Pair) texts texts') :
    Renamed Pair (String.join (texts.map (· ++ "\n"))) (String.join (texts'.map (· ++ "\n"))) := by
  apply join
  rw [List.forall₂_map_left_iff, List.forall₂_map_right_iff]
  exact h.imp fun _ _ ht => .append ht (.same "\n")

end Renamed

theorem Renamed.forall₂_refl (texts : List String) : List.Forall₂ (Renamed Pair) texts texts :=
  List.forall₂_same.2 fun text _ => .same text

namespace Xml.Markup

theorem escape_append (first second : String) :
    escape (first ++ second) = escape first ++ escape second := by
  rw [escape, String.toList_append, List.flatMap_append, String.ofList_append]
  rfl

theorem renamed_escape {text text' : String} (hp : Plain Pair) (h : Renamed Pair text text') :
    Renamed Pair (escape text) (escape text') := by
  induction h with
  | same text => exact .same _
  | id h =>
    rw [(hp _ _ h).1, (hp _ _ h).2]
    exact .id h
  | append _ _ hfront hback =>
    rw [escape_append, escape_append]
    exact .append hfront hback

/-- Markup that differs only in ids, at every depth. -/
def Alike (Pair : String → String → Prop) (markup other : Markup) : Prop :=
  ∀ depth, List.Forall₂ (Renamed Pair) (markup.lines depth) (other.lines depth)

variable {children children' : List Markup}

theorem Alike.refl (markup : Markup) : Alike Pair markup markup := fun _ => Renamed.forall₂_refl _

theorem forall₂_alike_refl (children : List Markup) : List.Forall₂ (Alike Pair) children children :=
  List.forall₂_same.2 fun markup _ => .refl markup

theorem Alike.field {text text' : String} (hp : Plain Pair) (name : String)
    (h : Renamed Pair text text') : Alike Pair (.field name text) (.field name text') := by
  intro depth
  simp only [Markup.field, Markup.lines]
  exact .cons (.append (.append (.wrap _ (renamed_escape hp h) _) (.same _)) (.same _)) .nil

theorem Alike.group (name : String) (attributes : Attributes)
    (h : List.Forall₂ (Alike Pair) children children') :
    Alike Pair (.group name attributes children) (.group name attributes children') := by
  intro depth
  rw [Markup.lines, Markup.lines]
  refine List.rel_append (List.rel_append (Renamed.forall₂_refl _) ?_) (Renamed.forall₂_refl _)
  exact List.rel_flatMap h fun _ _ ha => ha (depth + 1)

theorem Alike.document {markup other : Markup} (h : Alike Pair markup other) :
    Renamed Pair markup.document other.document :=
  Renamed.lines (.cons (.same _) (h 0))

end Xml.Markup

open Xml

/-- References that differ only in the id of the project they name. -/
inductive ProjectReference.Alike (Pair : String → String → Prop) :
    ProjectReference → ProjectReference → Prop
  | same (reference : ProjectReference) : Alike Pair reference reference
  | project (name : String) {guid guid' : String} : Pair guid guid' →
      Alike Pair (.project name guid) (.project name guid')

/-- Projects that differ only in their ids and in those of the projects they refer to. -/
structure Project.Alike (Pair : String → String → Prop) (project other : Project) : Prop where
  others_eq : other = { project with guid := other.guid, references := other.references }
  guid : Pair project.guid other.guid
  references : List.Forall₂ (ProjectReference.Alike Pair) project.references other.references

theorem ProjectReference.Alike.mono {Wide : String → String → Prop} {reference other : ProjectReference}
    (h : reference.Alike Pair other) (hle : ∀ id other, Pair id other → Wide id other) :
    reference.Alike Wide other := by
  cases h with
  | same => exact .same _
  | project name hg => exact .project name (hle _ _ hg)

theorem Project.Alike.mono {Wide : String → String → Prop} {project other : Project}
    (h : project.Alike Pair other) (hle : ∀ id other, Pair id other → Wide id other) :
    project.Alike Wide other :=
  ⟨h.others_eq, hle _ _ h.guid, h.references.imp fun _ _ hr => hr.mono hle⟩

theorem ProjectReference.Alike.markup {reference other : ProjectReference} (hp : Plain Pair)
    (h : reference.Alike Pair other) : Markup.Alike Pair reference.markup other.markup := by
  cases h with
  | same => exact .refl _
  | project name hg =>
    exact .group _ _ (.cons (.refl _) <| .cons (.field hp _ (.id hg)) <| Markup.forall₂_alike_refl _)

namespace Project

variable {project other : Project} {previous previous' : List Project}

theorem Alike.name_eq (h : project.Alike Pair other) : other.name = project.name := by
  rw [h.others_eq]

theorem Alike.refers (h : project.Alike Pair other) (hp : Plain Pair) :
    List.Forall₂ (Markup.Alike Pair) (project.references.map ProjectReference.markup)
      (other.references.map ProjectReference.markup) := by
  rw [List.forall₂_map_left_iff, List.forall₂_map_right_iff]
  exact h.references.imp fun _ _ hr => hr.markup hp

theorem Alike.identityProperties (h : project.Alike Pair other) (hp : Plain Pair) :
    Markup.Alike Pair project.identityProperties other.identityProperties := by
  have hguid := Markup.Alike.field hp "ProjectGuid" (.id h.guid)
  rw [h.others_eq] at hguid ⊢
  exact .group _ _ (.cons (.refl _) <| .cons (.refl _) <| .cons (.refl _) <| .cons (.refl _) <|
    .cons (.refl _) <| .cons hguid <| Markup.forall₂_alike_refl _)

/-- The files of alike projects differ only in ids. -/
theorem Alike.descriptor (h : project.Alike Pair other) (hp : Plain Pair) :
    Renamed Pair project.descriptor other.descriptor := by
  have hidentity := h.identityProperties hp
  have hreferences := h.refers hp
  apply Markup.Alike.document
  rw [h.others_eq] at hidentity hreferences ⊢
  exact .group _ _ (.cons (.refl _) <| .cons hidentity <| .cons (.refl _) <| .cons (.refl _) <|
    .cons (.refl _) <| .cons (.refl _) <| .cons (.refl _) <| .cons (.refl _) <|
    .cons (.group _ _ hreferences) <| Markup.forall₂_alike_refl _)

theorem Alike.comparison (h : project.Alike Pair other) (hp : Plain Pair) (options : ComparisonOptions) :
    Renamed Pair (project.comparison options) (other.comparison options) := by
  have hguid := Markup.Alike.field hp "ProjectGuid" (.id h.guid)
  apply Markup.Alike.document
  rw [h.others_eq] at hguid ⊢
  exact .group _ _ (.cons (.refl _) <| .cons (.group _ _ <| .cons (.group _ _ <|
    .cons (.refl _) <| .cons hguid <| Markup.forall₂_alike_refl _) .nil) <| Markup.forall₂_alike_refl _)

/-- A reference is looked for in the projects before by name alone. -/
theorem projectReference_alike {db : Database} {name : String} {reference : ProjectReference}
    (h : List.Forall₂ (Alike Pair) previous previous')
    (hr : projectReference previous db name = .ok reference) :
    ∃ reference', projectReference previous' db name = .ok reference' ∧
      reference.Alike Pair reference' := by
  unfold projectReference at hr ⊢
  induction h with
  | nil => cases hr
  | @cons first first' _ _ hfirst _ ih =>
    rw [List.find?_cons] at hr ⊢
    rw [hfirst.name_eq]
    by_cases hname : (first.name == name) = true
    · simp only [hname, Except.ok.injEq] at hr ⊢
      subst hr
      rw [hfirst.name_eq]
      exact ⟨_, rfl, .project _ hfirst.guid⟩
    · simp only [hname] at hr ⊢
      exact ih hr

theorem reference_alike {settings : Settings} {db : Database} {dependency : Dependency}
    {reference : ProjectReference} (h : List.Forall₂ (Alike Pair) previous previous')
    (hr : Project.reference settings previous db dependency = .ok reference) :
    ∃ reference', Project.reference settings previous' db dependency = .ok reference' ∧
      reference.Alike Pair reference' := by
  unfold Project.reference at hr ⊢
  cases hk : dependency.kind with
  | dacpac =>
    rw [hk] at hr
    exact ⟨reference, hr, .same _⟩
  | database =>
    rw [hk] at hr
    exact projectReference_alike h hr
  | system =>
    rw [hk] at hr
    exact ⟨reference, hr, .same _⟩

theorem listFolders_of_assemble {settings : Settings} {tree : FileTree} {db : Database} {guid : String}
    (h : assemble settings tree previous guid db = .ok project) :
    listFolders settings tree db = .ok project.folders := by
  obtain ⟨_, -, h⟩ := bind_eq_ok.1 h
  obtain ⟨folders, hl, h⟩ := bind_eq_ok.1 h
  cases h
  exact hl

/-- Of the tree a project only shows the folders that are listed. -/
theorem assemble_congr {settings : Settings} {tree other : FileTree} {db : Database} {guid : String}
    (h : listFolders settings tree db = listFolders settings other db) :
    assemble settings tree previous guid db = assemble settings other previous guid db := by
  unfold assemble
  rw [h]

/-- Behind alike projects, with partner ids and the same folders, alike projects are assembled. -/
theorem assemble_alike {settings : Settings} {tree other : FileTree} {db : Database}
    {guid guid' : String} (h : List.Forall₂ (Alike Pair) previous previous') (hg : Pair guid guid')
    (hf : ∀ folders, listFolders settings tree db = .ok folders →
      listFolders settings other db = .ok folders)
    (hp : assemble settings tree previous guid db = .ok project) :
    ∃ project', assemble settings other previous' guid' db = .ok project' ∧
      project.Alike Pair project' := by
  obtain ⟨references, hr, hp⟩ := bind_eq_ok.1 hp
  obtain ⟨folders, hl, hp⟩ := bind_eq_ok.1 hp
  cases hp
  obtain ⟨references', hr', halike⟩ := mapM_forall₂ (fun _ _ => reference_alike h) hr
  exact ⟨_, bind_eq_ok.2 ⟨references', hr', bind_eq_ok.2 ⟨folders, hf _ hl, rfl⟩⟩,
    ⟨rfl, hg, halike⟩⟩

end Project

namespace Solution

variable {projects projects' : List Project}

theorem renamed_entryLines {name guid guid' : String} (hg : Pair guid guid') :
    List.Forall₂ (Renamed Pair) (entryLines ⟨name, guid⟩) (entryLines ⟨name, guid'⟩) :=
  .cons (.wrap _ (.id hg) _) (Renamed.forall₂_refl _)

theorem renamed_configurationLines {name guid guid' : String} (hg : Pair guid guid') :
    List.Forall₂ (Renamed Pair) (configurationLines ⟨name, guid⟩) (configurationLines ⟨name, guid'⟩) := by
  refine List.rel_flatMap (List.forall₂_same.2 fun _ _ => rfl) ?_
  rintro configuration _ rfl
  rw [List.forall₂_map_left_iff, List.forall₂_map_right_iff]
  refine List.forall₂_same.2 fun step _ => ?_
  simp only [String.append_assoc]
  exact .append (.id hg) (.same _)

theorem renamed_sectionLines (name time : String) {content content' : List String}
    (h : List.Forall₂ (Renamed Pair) content content') :
    List.Forall₂ (Renamed Pair) (sectionLines name time content) (sectionLines name time content') := by
  refine List.rel_append (List.rel_append (Renamed.forall₂_refl _) ?_) (Renamed.forall₂_refl _)
  rw [List.forall₂_map_left_iff, List.forall₂_map_right_iff]
  exact h.imp fun _ _ hl => .append (.same _) hl

/-- Solution files of alike projects differ only in ids. -/
theorem renamed_text {name guid guid' : String} (hg : Pair guid guid')
    (h : List.Forall₂ (Project.Alike Pair) projects projects') :
    Renamed Pair (ofProjects name guid projects).text (ofProjects name guid' projects').text := by
  have heach : ∀ linesOf : SolutionEntry → List String,
      (∀ name guid guid', Pair guid guid' →
        List.Forall₂ (Renamed Pair) (linesOf ⟨name, guid⟩) (linesOf ⟨name, guid'⟩)) →
      List.Forall₂ (Renamed Pair) ((ofProjects name guid projects).entries.flatMap linesOf)
        ((ofProjects name guid' projects').entries.flatMap linesOf) := by
    intro linesOf hlines
    simp only [ofProjects, List.flatMap_map]
    refine List.rel_flatMap h fun project other ha => ?_
    rw [ha.name_eq]
    exact hlines _ _ _ ha.guid
  apply Renamed.lines
  refine List.rel_append (List.rel_append (List.rel_append (List.rel_append (List.rel_append
    (List.rel_append (List.rel_append ?_ ?_) ?_) ?_) ?_) ?_) ?_) ?_
  · exact Renamed.forall₂_refl _
  · exact heach _ fun _ _ _ => renamed_entryLines
  · exact Renamed.forall₂_refl _
  · exact Renamed.forall₂_refl _
  · exact renamed_sectionLines _ _ (heach _ fun _ _ _ => renamed_configurationLines)
  · exact Renamed.forall₂_refl _
  · exact renamed_sectionLines _ _ (.cons (.append (.same _) (.id hg)) .nil)
  · exact Renamed.forall₂_refl _

end Solution

end DatabaseProject
