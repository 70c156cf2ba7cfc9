import DatabaseProject.Project.Comparison
import DatabaseProject.Project.Descriptor
import DatabaseProject.Proofs.Delimited
import DatabaseProject.Proofs.WrittenTree

/-!
# Texts of elements in a written document

A document is cut at every opening bracket. A piece that goes on with a name and a closing bracket starts
an element without attributes, and what is left of the piece is the text of the element. No text or value
is written with an opening bracket, so these are the texts of the markup, whatever stands in it: the
document need not be well-formed for that.
-/

namespace DatabaseProject

namespace Xml

/-- The rest of a piece that starts an element of the name without attributes. -/
def startedText? (name : String) (piece : List Char) : Option String :=
  (piece.dropPrefix? (name.toList ++ ['>'])).map String.ofList

/-- The texts behind the start tags of a name, from a place outside of all tags on. -/
def textsFrom (name : String) (s : List Char) : List String :=
  (s.splitOn '<').tail.filterMap (startedText? name)

/-- The texts behind the start tags of a name in a document. -/
def elementTexts (name document : String) : List String := textsFrom name document.toList

variable {field name text : String} {attributes : Attributes} {s more rest : List Char} {c : Char}
  {texts others : List String}

theorem textsFrom_append (h : '<' ∉ s) : textsFrom field (s ++ rest) = textsFrom field rest := by
  obtain ⟨behind, pieces, hp⟩ := List.exists_cons_of_ne_nil (List.splitOn_ne_nil '<' rest)
  rw [textsFrom, splitOn_append_of_not_mem h hp, textsFrom, hp]
  rfl

theorem textsFrom_mark (rest : List Char) :
    textsFrom field ('<' :: rest) = (rest.splitOn '<').filterMap (startedText? field) := by
  rw [textsFrom, List.splitOn_cons_eq_if_modifyHead, if_pos (by simp), List.tail_cons]

/-- A piece between two brackets. -/
theorem textsFrom_piece (h : '<' ∉ s) : textsFrom field ('<' :: (s ++ '<' :: rest)) =
    (startedText? field s).toList ++ textsFrom field ('<' :: rest) := by
  rw [textsFrom_mark, textsFrom_mark, List.splitOn_append_cons_self_of_not_mem h]
  cases hs : startedText? field s <;> simp [hs]

/-- A piece that starts no element of the name, whatever follows. -/
theorem textsFrom_other (h : '<' ∉ s) (hs : ∀ behind, startedText? field (s ++ behind) = none) :
    textsFrom field ('<' :: (s ++ rest)) = textsFrom field rest := by
  obtain ⟨behind, pieces, hp⟩ := List.exists_cons_of_ne_nil (List.splitOn_ne_nil '<' rest)
  rw [textsFrom_mark, splitOn_append_of_not_mem h hp, textsFrom, hp]
  simp [hs]

theorem startedText?_eq_some {piece : List Char} :
    startedText? name piece = some text ↔ piece = name.toList ++ '>' :: text.toList := by
  rw [startedText?, Option.map_eq_some_iff]
  constructor
  · rintro ⟨found, hf, rfl⟩
    obtain ⟨start, rfl, he⟩ := List.dropPrefix?_eq_some_iff.1 hf
    rw [eq_of_beq he, String.toList_ofList, List.append_assoc, List.singleton_append]
  · rintro rfl
    refine ⟨text.toList, List.dropPrefix?_eq_some_iff.2 ⟨name.toList ++ ['>'], by simp, by simp⟩, by simp⟩

/-- A piece starts with a name up to the first character that is in no name. -/
theorem startedText?_append {chars : List Char} (hf : IsName field) (hn : ∀ d ∈ chars, isNameChar d = true)
    (hc : isNameChar c = false) : startedText? field (chars ++ c :: rest) =
      if chars = field.toList ∧ c = '>' then some (String.ofList rest) else none := by
  have hsame : ∀ text, startedText? field (chars ++ c :: rest) = some text →
      chars = field.toList ∧ c = '>' := by
    intro text ht
    have hparts := append_inj_of_forall (p := fun d => isNameChar d = true) hn (fun d hd => (hf.2 d hd).1)
      (by simp [hc]) (by simp +decide) (startedText?_eq_some.1 ht)
    exact ⟨hparts.1, (List.cons.inj hparts.2).1⟩
  split
  · rename_i h
    rw [startedText?_eq_some, h.1, h.2, String.toList_ofList]
  · rename_i h
    rw [← Option.not_isSome_iff_eq_none, Option.isSome_iff_exists]
    exact fun ⟨text, ht⟩ => h (hsame text ht)

/-- Whatever follows, characters show the texts for a name. -/
def Shows (field : String) (s : List Char) (texts : List String) : Prop :=
  ∀ rest, textsFrom field (s ++ rest) = texts ++ textsFrom field rest

theorem Shows.append (h : Shows field s texts) (h' : Shows field more others) :
    Shows field (s ++ more) (texts ++ others) := by
  intro rest
  rw [List.append_assoc, h, h', List.append_assoc]

theorem Shows.flatMap {α : Type} {written : α → List Char} {shown : α → List String} {parts : List α}
    (h : ∀ part ∈ parts, Shows field (written part) (shown part)) :
    Shows field (parts.flatMap written) (parts.flatMap shown) := by
  induction parts with
  | nil => exact fun _ => rfl
  | cons part parts ih =>
    rw [List.forall_mem_cons] at h
    exact h.1.append (ih h.2)

theorem shows_of_not_mem (h : '<' ∉ s) : Shows field s [] := fun _ => textsFrom_append h

theorem shows_other (h : '<' ∉ s) (hs : ∀ behind, startedText? field (s ++ behind) = none) :
    Shows field ('<' :: s) [] := fun _ => textsFrom_other h hs

/-- A piece before the next tag. -/
theorem Shows.behind (h : Shows field ('<' :: more) []) (hs : '<' ∉ s) :
    Shows field ('<' :: (s ++ '<' :: more)) (startedText? field s).toList := by
  intro rest
  have hmore := h rest
  rw [List.cons_append, List.nil_append] at hmore
  rw [List.cons_append, List.append_assoc, List.cons_append, textsFrom_piece hs, hmore]

theorem IsName.not_mem (h : IsName name) (hc : isNameChar c = false) : c ∉ name.toList := by
  intro hm
  simp [(h.2 c hm).1] at hc

theorem not_mem_tagChars (hn : IsName name) (ha : ∀ a ∈ attributes, IsName a.1) :
    '<' ∉ tagChars name attributes := by
  have hopen : isNameChar '<' = false := by decide
  simp only [tagChars, List.mem_append, List.mem_flatMap, not_or, not_exists, not_and]
  refine ⟨hn.not_mem hopen, fun a hm => ?_⟩
  have hvalue : '<' ∉ escapeAll a.2.toList := not_mem_escapeAll (by decide) (by decide) _
  simp [attributeChars, (ha a hm).not_mem hopen, hvalue]

theorem startedText?_of_not_name (hf : IsName field) (hc : isNameChar c = false) (hne : c ≠ '>') :
    startedText? field (c :: rest) = none := by
  have hnone : startedText? field ([] ++ c :: rest) = none := by
    rw [startedText?_append hf (by simp) hc]
    exact if_neg fun h => hne h.2
  exact hnone

/-- An end tag starts no element. -/
theorem shows_endTag (hf : IsName field) (hn : IsName name) :
    Shows field ('<' :: '/' :: (name.toList ++ ['>'])) [] := by
  refine shows_other (by simp [hn.not_mem (c := '<') (by decide)]) fun behind => ?_
  exact startedText?_of_not_name hf (by decide) (by decide)

/-- A tag starts an element without attributes only where it has none and does not end the element. -/
theorem startedText?_tag (hf : IsName field) (hn : IsName name) (isEmpty : Bool) (rest : List Char) :
    startedText? field (tagChars name attributes ++ (tagEnd isEmpty ++ rest)) =
      if name = field ∧ attributes = [] ∧ isEmpty = false then some (String.ofList rest) else none := by
  have hname : ∀ d ∈ name.toList, isNameChar d = true := fun d hd => (hn.2 d hd).1
  unfold tagChars
  cases attributes with
  | nil =>
    rw [List.flatMap_nil, List.append_nil]
    cases isEmpty with
    | false =>
      refine (startedText?_append hf hname (by decide)).trans ?_
      simp [String.toList_inj]
    | true => exact (startedText?_append hf hname (by decide)).trans (by simp)
  | cons a attributes =>
    rw [List.flatMap_cons, List.append_assoc]
    exact (startedText?_append hf hname (by decide)).trans (by simp)

namespace Markup

/-- The texts of the leaves of a name without attributes, in their order. -/
def fieldTexts (field : String) : Markup → List String
  | leaf name attributes text => if name = field ∧ attributes = [] then [text] else []
  | bare _ _ => []
  | group _ _ children => children.flatMap (fieldTexts field)

/-- Markup with names for names, in which only leaves can have the name without attributes. -/
inductive Legible (field : String) : Markup → Prop
  | leaf {name : String} {attributes : Attributes} {text : String} (hn : IsName name)
      (ha : ∀ a ∈ attributes, IsName a.1) : Legible field (.leaf name attributes text)
  | bare {name : String} {attributes : Attributes} (hn : IsName name)
      (ha : ∀ a ∈ attributes, IsName a.1) : Legible field (.bare name attributes)
  | group {name : String} {attributes : Attributes} {children : List Markup} (hn : IsName name)
      (ha : ∀ a ∈ attributes, IsName a.1) (hne : name = field → attributes ≠ [])
      (hc : ∀ child ∈ children, Legible field child) : Legible field (.group name attributes children)

theorem shows_indentation (depth : Nat) : Shows field (indentation depth) [] :=
  shows_of_not_mem (by simp [indentation])

theorem Legible.shows {markup : Markup} (hf : IsName field) (h : markup.Legible field) (depth : Nat) :
    Shows field (markup.chars depth) ((markup.fieldTexts field).map escape) := by
  induction h generalizing depth with
  | @leaf name attributes text hn ha =>
    have hopen : '<' ∉ escapeAll text.toList := not_mem_escapeAll (by decide) (by decide) _
    have hall := (shows_indentation depth).append ((shows_endTag hf hn).behind
      (s := tagChars name attributes ++ (tagEnd false ++ escapeAll text.toList))
      (by simp [not_mem_tagChars hn ha, tagEnd, hopen]))
    rw [startedText?_tag hf hn] at hall
    rw [chars_leaf, fieldTexts]
    by_cases hfield : name = field ∧ attributes = []
    · simpa [hfield, escape, escapeAll] using hall
    · rw [if_neg fun h => hfield ⟨h.1, h.2.1⟩] at hall
      simpa [hfield] using hall
  | @bare name attributes hn ha =>
    have htag : Shows field ('<' :: (tagChars name attributes ++ tagEnd true)) [] := by
      refine shows_other (by simp [not_mem_tagChars hn ha, tagEnd]) fun behind => ?_
      rw [List.append_assoc, startedText?_tag hf hn, if_neg (by simp)]
    rw [chars_bare, fieldTexts, List.map_nil]
    exact (shows_indentation depth).append htag
  | @group name attributes children hn ha hne hc ih =>
    have hchildren : Shows field (children.flatMap (chars (depth + 1)))
        ((children.flatMap (fieldTexts field)).map escape) := by
      rw [List.map_flatMap]
      exact Shows.flatMap fun child hm => ih child hm (depth + 1)
    have htag : Shows field ('<' :: (tagChars name attributes ++ tagEnd false)) [] := by
      refine shows_other (by simp [not_mem_tagChars hn ha, tagEnd]) fun behind => ?_
      rw [List.append_assoc, startedText?_tag hf hn, if_neg fun h => hne h.1 h.2.1]
    have hall := (shows_indentation depth).append (htag.append (hchildren.append
      ((shows_indentation depth).append (shows_endTag hf hn))))
    rw [chars_group]
    simpa [fieldTexts] using hall

/-- The document of legible markup shows the texts of its leaves, escaped. -/
theorem Legible.elementTexts_document {root : Markup} (hf : IsName field) (h : root.Legible field) :
    elementTexts field root.document = (root.fieldTexts field).map escape := by
  have hdeclaration : Shows field declaration.toList [] := by
    refine shows_other (by decide) fun behind => ?_
    exact startedText?_of_not_name hf (by decide) (by decide)
  have hall := hdeclaration.append ((h.shows hf 0).append (shows_of_not_mem (s := ['\n']) (by decide))) []
  rw [elementTexts, toList_document]
  simpa [textsFrom] using hall

theorem legible_field {chars : List Char} {text : String} (hn : isNameText chars = true) :
    (Markup.field (String.ofList chars) text).Legible field := .leaf (.ofList hn) (by simp)

end Markup

end Xml

/-- The id of the project that is referred to. -/
def ProjectReference.guid? : ProjectReference → Option String
  | .project _ guid => some guid
  | _ => none

namespace Project

open Xml (IsName Markup elementTexts isNameText)
open Xml.Markup (legible_field)

variable {field : String} (project : Project)

/-- The elements that hold ids of projects. -/
def idFields : List String := ["ProjectGuid", "Project"]

theorem isName_of_mem_idFields (hf : field ∈ idFields) : IsName field := by
  simp only [idFields, List.mem_cons, List.not_mem_nil, or_false] at hf
  rcases hf with rfl | rfl <;> exact .ofList (by decide)

/-- Elements that are not themselves those with ids. -/
theorem legible_group {chars : List Char} {attributes : Xml.Attributes} {children : List Markup}
    (hf : field ∈ idFields) (hn : isNameText chars = true) (hother : String.ofList chars ∉ idFields)
    (ha : ∀ a ∈ attributes, IsName a.1) (hc : ∀ child ∈ children, child.Legible field) :
    (Markup.group (String.ofList chars) attributes children).Legible field :=
  .group (.ofList hn) ha (fun he => absurd (he ▸ hf) hother) hc

theorem isName_include {value : String} : ∀ a ∈ [("Include", value)], IsName a.1 :=
  List.forall_mem_singleton.2 (.ofList (by decide))

theorem isName_condition {value : String} : ∀ a ∈ [("Condition", value)], IsName a.1 :=
  List.forall_mem_singleton.2 (.ofList (by decide))

theorem legible_artifact (hf : field ∈ idFields) (path literal : String) :
    (ProjectReference.artifact path literal).Legible field := by
  refine legible_group hf (by decide) (by decide) isName_include ?_
  simp only [List.forall_mem_cons, List.not_mem_nil, false_imp_iff, implies_true, and_true]
  exact ⟨legible_field (by decide), legible_field (by decide), legible_field (by decide)⟩

theorem legible_reference (hf : field ∈ idFields) (reference : ProjectReference) :
    reference.markup.Legible field := by
  cases reference with
  | dacpac fileName => exact legible_artifact hf _ _
  | system name hintPath => exact legible_artifact hf _ _
  | project name guid =>
    refine legible_group hf (by decide) (by decide) isName_include ?_
    simp only [List.forall_mem_cons, List.not_mem_nil, false_imp_iff, implies_true, and_true]
    exact ⟨legible_field (by decide), legible_field (by decide), legible_field (by decide),
      legible_field (by decide), legible_field (by decide)⟩

theorem legible_identityProperties (hf : field ∈ idFields) :
    project.identityProperties.Legible field := by
  refine legible_group hf (by decide) (by decide) (by simp) ?_
  simp only [List.forall_mem_cons, List.not_mem_nil, false_imp_iff, implies_true, and_true]
  refine ⟨.leaf (.ofList (by decide)) isName_condition, .leaf (.ofList (by decide)) isName_condition,
    ?_, ?_, ?_, ?_, ?_, ?_, .bare (.ofList (by decide)) (by simp), ?_, ?_, ?_, ?_, ?_, ?_, ?_, ?_, ?_, ?_, ?_⟩
  all_goals exact legible_field (by decide)

theorem legible_releaseProperties (hf : field ∈ idFields) :
    project.releaseProperties.Legible field := by
  refine legible_group hf (by decide) (by decide) isName_condition ?_
  simp only [List.forall_mem_cons, List.not_mem_nil, false_imp_iff, implies_true, and_true]
  refine ⟨?_, ?_, ?_, ?_, ?_, ?_, ?_, ?_, ?_, ?_⟩
  all_goals exact legible_field (by decide)

theorem legible_debugProperties (hf : field ∈ idFields) :
    project.debugProperties.Legible field := by
  refine legible_group hf (by decide) (by decide) isName_condition ?_
  simp only [List.forall_mem_cons, List.not_mem_nil, false_imp_iff, implies_true, and_true]
  refine ⟨?_, ?_, ?_, ?_, ?_, ?_, ?_, ?_, ?_, ?_, ?_⟩
  all_goals exact legible_field (by decide)

theorem legible_toolProperties (hf : field ∈ idFields) : toolProperties.Legible field := by
  refine legible_group hf (by decide) (by decide) (by simp) ?_
  simp only [List.forall_mem_cons, List.not_mem_nil, false_imp_iff, implies_true, and_true]
  exact ⟨.leaf (.ofList (by decide)) isName_condition, .leaf (.ofList (by decide)) isName_condition,
    .leaf (.ofList (by decide)) isName_condition⟩

theorem legible_folderMarkup (folder : String) : (folderMarkup folder).Legible field :=
  .bare (.ofList (by decide)) isName_include

theorem legible_items (hf : field ∈ idFields) {children : List Markup}
    (hc : ∀ child ∈ children, child.Legible field) : (Markup.group "ItemGroup" [] children).Legible field :=
  legible_group hf (by decide) (by decide) (by simp) hc

theorem legible_markup (hf : field ∈ idFields) : project.markup.Legible field := by
  have himport : ∀ file condition : String,
      (Markup.bare "Import" [("Project", file), ("Condition", condition)]).Legible field ∧
        (Markup.bare "Import" [("Condition", condition), ("Project", file)]).Legible field := by
    intro file condition
    have hnames : IsName "Project" ∧ IsName "Condition" := ⟨.ofList (by decide), .ofList (by decide)⟩
    exact ⟨.bare (.ofList (by decide)) (by simp [hnames]), .bare (.ofList (by decide)) (by simp [hnames])⟩
  have hroot : ∀ a ∈ [("DefaultTargets", "Build"), ("xmlns", buildSpace), ("ToolsVersion", "4.0")],
      IsName a.1 := by
    simp only [List.forall_mem_cons, List.not_mem_nil, false_imp_iff, implies_true, and_true]
    exact ⟨.ofList (by decide), .ofList (by decide), .ofList (by decide)⟩
  refine .group (.ofList (by decide)) hroot (fun _ => List.cons_ne_nil _ _) ?_
  simp only [List.forall_mem_cons, List.not_mem_nil, false_imp_iff, implies_true, and_true]
  refine ⟨(himport _ _).1, project.legible_identityProperties hf, project.legible_releaseProperties hf,
    project.legible_debugProperties hf, legible_toolProperties hf, (himport _ _).2, (himport _ _).2,
    legible_items hf ?_, legible_items hf ?_, legible_items hf ?_, legible_items hf ?_⟩
  · simp only [List.forall_mem_cons, List.not_mem_nil, false_imp_iff, implies_true, and_true]
    exact ⟨.bare (.ofList (by decide)) isName_include, legible_folderMarkup _⟩
  · rw [List.forall_mem_map]
    exact fun reference _ => legible_reference hf reference
  · split
    · exact List.forall_mem_singleton.2 (.bare (.ofList (by decide)) isName_include)
    · simp
  · rw [List.forall_mem_map]
    exact fun folder _ => legible_folderMarkup folder

theorem legible_comparisonMarkup (hf : field ∈ idFields) (options : ComparisonOptions) :
    (project.comparisonMarkup options).Legible field := by
  refine legible_group hf (by decide) (by decide) (by simp) ?_
  simp only [List.forall_mem_cons, List.not_mem_nil, false_imp_iff, implies_true, and_true]
  refine ⟨legible_field (by decide), ?_, ?_, ?_⟩ <;>
    refine legible_group hf (by decide) (by decide) (by simp) ?_
  · refine List.forall_mem_singleton.2 (legible_group hf (by decide) (by decide) (by simp) ?_)
    simp only [List.forall_mem_cons, List.not_mem_nil, false_imp_iff, implies_true, and_true]
    exact ⟨legible_field (by decide), legible_field (by decide), legible_field (by decide),
      legible_field (by decide)⟩
  · refine List.forall_mem_singleton.2 (legible_group hf (by decide) (by decide) (by simp) ?_)
    exact List.forall_mem_singleton.2 (legible_field (by decide))
  · rw [List.forall_mem_map]
    exact fun type _ => legible_field (by decide)

theorem fieldTexts_reference (reference : ProjectReference) :
    reference.markup.fieldTexts "ProjectGuid" = [] ∧
      reference.markup.fieldTexts "Project" = reference.guid?.toList := by
  cases reference <;>
    simp [ProjectReference.markup, ProjectReference.artifact, Markup.field, Markup.fieldTexts,
      ProjectReference.guid?]

theorem fieldTexts_folderMarkup (field folder : String) : (folderMarkup folder).fieldTexts field = [] := by
  simp [folderMarkup, Markup.fieldTexts]

/-- A project file has the id of the project once. -/
theorem elementTexts_projectGuid :
    elementTexts "ProjectGuid" project.descriptor = [Markup.escape project.guid] := by
  have htexts : project.markup.fieldTexts "ProjectGuid" = [project.guid] := by
    simp [markup, identityProperties, releaseProperties, debugProperties, toolProperties, Markup.field,
      Markup.fieldTexts, List.flatMap_map, fieldTexts_reference, fieldTexts_folderMarkup, apply_ite]
  have hid : "ProjectGuid" ∈ idFields := by decide
  rw [descriptor, (project.legible_markup hid).elementTexts_document (isName_of_mem_idFields hid), htexts,
    List.map_singleton]

/-- A project file has the id of each project that is referred to. -/
theorem elementTexts_project : elementTexts "Project" project.descriptor =
    (project.references.filterMap ProjectReference.guid?).map Markup.escape := by
  have htexts : project.markup.fieldTexts "Project" =
      project.references.filterMap ProjectReference.guid? := by
    rw [List.filterMap_eq_flatMap_toList]
    simp [markup, identityProperties, releaseProperties, debugProperties, toolProperties, Markup.field,
      Markup.fieldTexts, List.flatMap_map, fieldTexts_reference, fieldTexts_folderMarkup, apply_ite]
  have hid : "Project" ∈ idFields := by decide
  rw [descriptor, (project.legible_markup hid).elementTexts_document (isName_of_mem_idFields hid), htexts]

/-- A schema comparison has the id of the project once. -/
theorem elementTexts_comparison (options : ComparisonOptions) :
    elementTexts "ProjectGuid" (project.comparison options) = [Markup.escape project.guid] := by
  have htexts : (project.comparisonMarkup options).fieldTexts "ProjectGuid" = [project.guid] := by
    simp [comparisonMarkup, Markup.field, Markup.fieldTexts, List.flatMap_map]
  have hid : "ProjectGuid" ∈ idFields := by decide
  rw [comparison, (project.legible_comparisonMarkup hid options).elementTexts_document
    (isName_of_mem_idFields hid), htexts, List.map_singleton]

end Project

end DatabaseProject
