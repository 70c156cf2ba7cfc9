import DatabaseProject.Proofs.WrittenTokens
import Mathlib.Data.Option.Basic

/-!
# Trees of written markup

The document of readable markup is well-formed, and its tree is the markup with the indentation of
each line as a text node before the tag. Without these nodes the tree is the markup itself.
-/

namespace DatabaseProject.Xml

/-- The attributes of a read element; a declaration of the default namespace is none of them. -/
def ordinaryAttributes (attributes : Attributes) : List Attribute :=
  (attributes.filter (·.1 ≠ "xmlns")).map fun a => ⟨none, a.1, a.2⟩

/-- The text node that the indentation of a line makes. -/
def indentationNode (depth : Nat) : Node := .text (String.ofList (indentation depth))

/-- White space behind a line end. -/
def Node.isIndentation : Node → Bool
  | .text content => content.toList.head? == some '\n' && content.toList.all isSpace
  | _ => false

mutual

/-- The tree without indentation. -/
def Node.withoutIndentation : Node → Node
  | .element name attributes children => .element name attributes (nodesWithoutIndentation children)
  | node => node

def nodesWithoutIndentation : List Node → List Node
  | [] => []
  | node :: rest =>
    if node.isIndentation then nodesWithoutIndentation rest
    else node.withoutIndentation :: nodesWithoutIndentation rest

end

theorem nodesWithoutIndentation_eq (nodes : List Node) : nodesWithoutIndentation nodes =
    (nodes.filter fun node => !node.isIndentation).map Node.withoutIndentation := by
  induction nodes with
  | nil => simp [nodesWithoutIndentation]
  | cons node rest ih =>
    cases h : node.isIndentation <;> simp [nodesWithoutIndentation, h, ih]

/-- The element without the indentation inside it. -/
def Element.withoutIndentation (e : Element) : Element :=
  { e with children := nodesWithoutIndentation e.children }

namespace Markup

/-- The element of markup, with nothing but its own text and elements. -/
def tree : Markup → Element
  | leaf name attributes text =>
    ⟨name, ordinaryAttributes attributes, if text = "" then [] else [.text text]⟩
  | bare name attributes => ⟨name, ordinaryAttributes attributes, []⟩
  | group name attributes children =>
    ⟨name, ordinaryAttributes attributes, children.map fun child => child.tree.toNode⟩

/-- The element of markup as it is written at a depth. -/
def element (depth : Nat) : Markup → Element
  | leaf name attributes text =>
    ⟨name, ordinaryAttributes attributes, if text = "" then [] else [.text text]⟩
  | bare name attributes => ⟨name, ordinaryAttributes attributes, []⟩
  | group name attributes children =>
    ⟨name, ordinaryAttributes attributes,
      (children.flatMap fun child => [indentationNode (depth + 1), (child.element (depth + 1)).toNode])
        ++ [indentationNode depth]⟩

theorem isIndentation_indentationNode (depth : Nat) : (indentationNode depth).isIndentation = true := by
  simp [indentationNode, Node.isIndentation, indentation, isSpace]

/-- Without its indentation, the written element is the element. -/
theorem Readable.withoutIndentation {markup : Markup} (h : markup.Readable) (depth : Nat) :
    (markup.element depth).withoutIndentation = markup.tree := by
  induction h generalizing depth with
  | @leaf name attributes text hn ha ht =>
    have hhead : text.toList.head? ≠ some '\n' := by
      intro he
      exact (isPlain_iff.1 (ht _ (List.mem_of_head? he))).2.2.1 rfl
    have htext : (Node.text text).isIndentation = false := by simp [Node.isIndentation, hhead]
    by_cases hempty : text = ""
    · simp [element, tree, Element.withoutIndentation, nodesWithoutIndentation, hempty]
    · simp [element, tree, Element.withoutIndentation, nodesWithoutIndentation, hempty, htext,
        Node.withoutIndentation]
  | bare hn ha => simp [element, tree, Element.withoutIndentation, nodesWithoutIndentation]
  | @group name attributes children hn ha hc ih =>
    have hchild : ∀ child ∈ children,
        (child.element (depth + 1)).toNode.withoutIndentation = child.tree.toNode := by
      intro child hm
      rw [← ih child hm (depth + 1)]
      rfl
    have helement : ∀ child : Markup, (child.element (depth + 1)).toNode.isIndentation = false :=
      fun child => rfl
    have hnodes : nodesWithoutIndentation ((children.flatMap fun child =>
        [indentationNode (depth + 1), (child.element (depth + 1)).toNode]) ++ [indentationNode depth]) =
          children.map fun child => child.tree.toNode := by
      rw [nodesWithoutIndentation_eq, List.filter_append, List.filter_flatMap]
      simpa [isIndentation_indentationNode, helement, ← List.map_eq_flatMap] using hchild
    simp only [element, tree, Element.withoutIndentation, hnodes]

end Markup

theorem foldlM_add? {attributes : Attributes} (hv : ∀ a ∈ attributes, PlainText a.2)
    (hs : ∀ a ∈ attributes, a.1 = "xmlns" → a.2 ≠ xmlnsSpace ∧ a.2 ≠ xmlSpace)
    (ordinary : List (QualifiedName × String)) :
    (attributes.map rawAttribute).foldlM AttributeParts.add? ⟨[], ordinary⟩ = some ⟨[], ordinary ++
      (attributes.filter (·.1 ≠ "xmlns")).map fun a => (unqualified a.1, a.2)⟩ := by
  induction attributes generalizing ordinary with
  | nil => simp
  | cons a more ih =>
    rw [List.forall_mem_cons] at hv hs
    have hvalue : attributeValue? (escapeAll a.2.toList) = some a.2 := attributeValue?_escape hv.1
    rw [List.map_cons, List.foldlM_cons]
    by_cases hx : a.1 = "xmlns"
    · have hadd : AttributeParts.add? ⟨[], ordinary⟩ (rawAttribute a) = some ⟨[], ordinary⟩ := by
        simp [AttributeParts.add?, rawAttribute, hvalue, hx, AttributeParts.declareDefault?, hs.1 hx]
      rw [hadd]
      simp [ih hv.2 hs.2, hx]
    · have hadd : AttributeParts.add? ⟨[], ordinary⟩ (rawAttribute a) =
          some ⟨[], ordinary ++ [(unqualified a.1, a.2)]⟩ := by
        simp [AttributeParts.add?, rawAttribute, hvalue, hx]
      rw [hadd]
      simp [ih hv.2 hs.2, hx]

theorem foldlM_addAttribute? (scope : Scope) (attributes : Attributes) (found : List Attribute)
    (hn : (found.map (·.name) ++ attributes.map (·.1)).Nodup) :
    (attributes.map fun a => (unqualified a.1, a.2)).foldlM
        (fun found a => addAttribute? scope found a.1 a.2) found =
      some (found ++ attributes.map fun a => ⟨none, a.1, a.2⟩) := by
  induction attributes generalizing found with
  | nil => simp
  | cons a more ih =>
    have hnew : a.1 ∉ found.map (·.name) := by
      intro hm
      exact (List.nodup_append.1 hn).2.2 a.1 hm a.1 (by simp) rfl
    have hadd : addAttribute? scope found (unqualified a.1) a.2 = some (found ++ [⟨none, a.1, a.2⟩]) := by
      have hnames : ∀ b ∈ found, b.space = none → ¬ b.name = a.1 := by
        intro b hb _ he
        exact hnew (List.mem_map.2 ⟨b, hb, he⟩)
      simp [addAttribute?, eq_true hnames]
    rw [List.map_cons, List.foldlM_cons, hadd]
    simp only [Option.bind_eq_bind, Option.bind_some]
    rw [ih]
    · simp
    · simpa using hn

/-- An element opens in the scope around it. -/
theorem openElement?_raw {attributes : Attributes} (ha : ReadableAttributes attributes) (outer : Scope)
    (name : String) : openElement? outer (unqualified name) (attributes.map rawAttribute) =
      some (outer, ordinaryAttributes attributes) := by
  have hordinary := foldlM_addAttribute? outer (attributes.filter (·.1 ≠ "xmlns")) []
    (by simpa using ha.nodup.sublist (List.filter_sublist.map _))
  unfold openElement? ordinaryAttributes
  rw [foldlM_add? ha.values ha.spaces, List.nil_append]
  generalize attributes.filter (·.1 ≠ "xmlns") = kept at hordinary ⊢
  simp [hordinary]

/-- An element with more children, in order. -/
def OpenElement.addChildren (e : OpenElement) (nodes : List Node) : OpenElement :=
  { e with children := nodes.reverse ++ e.children }

theorem OpenElement.addChildren_addChild (e : OpenElement) (node : Node) (nodes : List Node) :
    (e.addChild node).addChildren nodes = e.addChildren (node :: nodes) := by
  simp [addChildren, addChild]

namespace Progress

/-- An element can begin here: inside another one, or as the root. -/
def Expects (p : Progress) : Prop := p.stack ≠ [] ∨ p.root = none

/-- The element of a start tag. -/
def begun (p : Progress) (name : String) (attributes : Attributes) : OpenElement :=
  ⟨unqualified name, ordinaryAttributes attributes, (p.stack.head?.map (·.scope)).getD [], []⟩

/-- Goes on inside an element. -/
def enter (p : Progress) (e : OpenElement) : Progress := { p with stack := e :: p.stack }

variable {p : Progress}

theorem expects_enter (p : Progress) (e : OpenElement) : (p.enter e).Expects := .inl (by simp [enter])

theorem Expects.addNode (h : p.Expects) (node : Node) : (p.addNode node).Expects := by
  unfold Progress.addNode
  split
  · exact h
  · exact .inl (by simp)

theorem step?_indentation (p : Progress) (depth : Nat) :
    p.step? (.text (indentation depth)) = some (p.addNode (indentationNode depth)) := by
  have hmarks : ∀ c ∈ indentation depth, c ∉ marks := by
    intro c hc
    simp only [indentation, List.mem_cons, List.mem_replicate] at hc
    rcases hc with rfl | ⟨-, rfl⟩ <;> decide
  have hread : characterData? (indentation depth) = some (String.ofList (indentation depth)) := by
    have hreturn : '\r' ∉ indentation depth := by simp [indentation]
    rw [← characterData?_escapeAll hreturn, escapeAll_of_no_marks hmarks]
  cases hs : p.stack with
  | nil =>
    have hspaces : (indentation depth).all isSpace = true := by simp [indentation, isSpace]
    simp [step?, hs, hspaces, addNode]
  | cons e outer => simp [step?, hs, hread, addNode, indentationNode]

theorem step?_startTag (h : p.Expects) {attributes : Attributes} (ha : ReadableAttributes attributes)
    (name : String) : p.step? (.startTag (unqualified name) (attributes.map rawAttribute) false) =
      some (p.enter (p.begun name attributes)) := by
  have hexpects : (¬ p.stack = [] ∨ p.root = none) = True := eq_true h
  simp [step?, openElement?_raw ha, hexpects, enter, begun]

theorem step?_emptyTag (h : p.Expects) {attributes : Attributes} (ha : ReadableAttributes attributes)
    (name : String) : p.step? (.startTag (unqualified name) (attributes.map rawAttribute) true) =
      p.addElement? ⟨name, ordinaryAttributes attributes, []⟩ := by
  have hexpects : (¬ p.stack = [] ∨ p.root = none) = True := eq_true h
  simp [step?, openElement?_raw ha, hexpects, OpenElement.close]

theorem step?_text (p : Progress) (e : OpenElement) {text : String} (h : PlainText text) :
    (p.enter e).step? (.text (escapeAll text.toList)) = some (p.enter (e.addChild (.text text))) := by
  simp [step?, enter, characterData?_escape h, addNode]

theorem step?_endTag (p : Progress) (e : OpenElement) (name : String) (h : e.name = unqualified name) :
    (p.enter e).step? (.endTag (unqualified name)) = p.addElement? e.close := by
  simp [step?, enter, h]

end Progress

namespace Markup

open Progress

/-- Children of which each adds its element add them all, in order. -/
theorem foldlM_children {children : List Markup} {depth : Nat}
    (h : ∀ child ∈ children, ∀ p : Progress, p.Expects → (child.tokens depth).foldlM step? p =
      (p.addNode (indentationNode depth)).addElement? (child.element depth)) (p : Progress) (e : OpenElement) :
    (children.flatMap (tokens depth)).foldlM step? (p.enter e) =
      some (p.enter (e.addChildren (children.flatMap fun child =>
        [indentationNode depth, (child.element depth).toNode]))) := by
  induction children generalizing e with
  | nil => rfl
  | cons child more ih =>
    rw [List.forall_mem_cons] at h
    rw [List.flatMap_cons, List.foldlM_append, h.1 _ (expects_enter p e)]
    show (more.flatMap (tokens depth)).foldlM step? (p.enter ((e.addChild _).addChild _)) = _
    rw [ih h.2, OpenElement.addChildren_addChild, OpenElement.addChildren_addChild]
    rfl

/-- The tokens of readable markup add its element, behind the indentation. -/
theorem Readable.foldlM_tokens {markup : Markup} (h : markup.Readable) (depth : Nat) {p : Progress}
    (hp : p.Expects) : (markup.tokens depth).foldlM step? p =
      (p.addNode (indentationNode depth)).addElement? (markup.element depth) := by
  induction h generalizing depth p with
  | @leaf name attributes text hn ha ht =>
    have hq := hp.addNode (indentationNode depth)
    rw [tokens, List.append_assoc, List.cons_append, List.foldlM_cons, step?_indentation]
    generalize p.addNode (indentationNode depth) = q at hq
    simp only [Option.bind_eq_bind, Option.bind_some, List.cons_append, List.nil_append, List.foldlM_cons,
      step?_startTag hq ha]
    split
    · rename_i hempty
      simp only [List.nil_append, List.foldlM_cons, List.foldlM_nil]
      rw [step?_endTag q _ name rfl]
      simp [hempty, element, OpenElement.close, begun]
    · rename_i hne
      simp only [List.cons_append, List.nil_append, List.foldlM_cons, List.foldlM_nil, step?_text _ _ ht,
        Option.bind_eq_bind, Option.bind_some]
      rw [step?_endTag q _ name rfl]
      simp [hne, element, OpenElement.close, begun, OpenElement.addChild]
  | @bare name attributes hn ha =>
    rw [tokens, List.foldlM_cons, step?_indentation]
    simp [step?_emptyTag (hp.addNode _) ha, element]
  | @group name attributes children hn ha hc ih =>
    have hq := hp.addNode (indentationNode depth)
    rw [tokens, List.append_assoc, List.cons_append, List.foldlM_cons, step?_indentation]
    generalize p.addNode (indentationNode depth) = q at hq
    have hchildren := foldlM_children (fun child hm p hp => ih child hm (depth + 1) hp) q
    simp only [Option.bind_eq_bind, Option.bind_some, List.cons_append, List.nil_append, List.foldlM_cons,
      step?_startTag hq ha, List.foldlM_append, hchildren, step?_indentation, List.foldlM_nil]
    show (((q.enter _).step? _).bind some) = _
    rw [step?_endTag q _ name rfl, Option.bind_fun_some]
    simp [element, OpenElement.close, OpenElement.addChildren, OpenElement.addChild, begun]

end Markup

theorem isXmlChar_of_isNameChar {c : Char} (h : isNameChar c = true) : isXmlChar c = true := by
  simp only [isNameChar, isNameStart, inRanges, nameStartRanges, nameExtraRanges, List.any_cons,
    List.any_nil, Bool.or_eq_true, decide_eq_true_eq, Bool.or_false] at h
  unfold isXmlChar
  split
  · omega
  · simp only [Bool.and_eq_true, bne_iff_ne]
    omega

theorem isXmlChar_tagChars {name : String} {attributes : Attributes} (hn : IsName name)
    (ha : ReadableAttributes attributes) : ∀ c ∈ tagChars name attributes, isXmlChar c = true := by
  have hname : ∀ name, IsName name → ∀ c ∈ name.toList, isXmlChar c = true :=
    fun _ h c hc => isXmlChar_of_isNameChar (h.2 c hc).1
  have hvalue : ∀ a ∈ attributes, ∀ c ∈ escapeAll a.2.toList, isXmlChar c = true := by
    intro a hm
    exact isXmlChar_escapeAll fun c hc => (isPlain_iff.1 (ha.values a hm c hc)).1
  intro c hc
  simp only [tagChars, attributeChars, List.mem_append, List.mem_flatMap, List.mem_cons,
    List.not_mem_nil, or_false] at hc
  rcases hc with hc | ⟨a, hm, rfl | ((hc | rfl | rfl | hc) | rfl)⟩
  · exact hname name hn c hc
  · decide
  · exact hname a.1 (ha.names a hm) c hc
  · decide
  · decide
  · exact hvalue a hm c hc
  · decide

namespace Markup

theorem Readable.isXmlChar_chars {markup : Markup} (h : markup.Readable) (depth : Nat) :
    ∀ c ∈ markup.chars depth, isXmlChar c = true := by
  have hindentation : ∀ depth, ∀ c ∈ indentation depth, isXmlChar c = true := by
    intro depth c hc
    simp only [indentation, List.mem_cons, List.mem_replicate] at hc
    rcases hc with rfl | ⟨-, rfl⟩ <;> decide
  have hend : ∀ isEmpty, ∀ c ∈ tagEnd isEmpty, isXmlChar c = true := by
    intro isEmpty
    cases isEmpty <;> simp [tagEnd, isXmlChar]
  have hclose : ∀ name, IsName name → ∀ c ∈ '<' :: '/' :: (name.toList ++ ['>']), isXmlChar c = true := by
    intro name hn
    simp only [List.forall_mem_cons, List.forall_mem_append]
    exact ⟨by decide, by decide, fun c hc => isXmlChar_of_isNameChar (hn.2 c hc).1, by decide, by simp⟩
  induction h generalizing depth with
  | @leaf name attributes text hn ha ht =>
    have htext := isXmlChar_escapeAll fun c hc => (isPlain_iff.1 (ht c hc)).1
    rw [chars_leaf, List.forall_mem_append, List.forall_mem_cons, List.forall_mem_append,
      List.forall_mem_append, List.forall_mem_append]
    exact ⟨hindentation depth, by decide, isXmlChar_tagChars hn ha, hend false, htext, hclose name hn⟩
  | @bare name attributes hn ha =>
    rw [chars_bare, List.forall_mem_append, List.forall_mem_cons, List.forall_mem_append]
    exact ⟨hindentation depth, by decide, isXmlChar_tagChars hn ha, hend true⟩
  | @group name attributes children hn ha hc ih =>
    have hchildren : ∀ c ∈ children.flatMap (chars (depth + 1)), isXmlChar c = true := by
      intro c hm
      obtain ⟨child, hchild, hm⟩ := List.mem_flatMap.1 hm
      exact ih child hchild (depth + 1) c hm
    rw [chars_group, List.forall_mem_append, List.forall_mem_cons, List.forall_mem_append,
      List.forall_mem_append, List.forall_mem_append, List.forall_mem_append]
    exact ⟨hindentation depth, by decide, isXmlChar_tagChars hn ha, hend false, hchildren,
      hindentation depth, hclose name hn⟩

/-- Line ends belong to the lines before them; a reader finds them before the next line. -/
theorem toList_document (root : Markup) :
    root.document.toList = declaration.toList ++ (root.chars 0 ++ ['\n']) := by
  have hlines : ∀ lines : List String, '\n' :: (String.join (lines.map (· ++ "\n"))).toList =
      (lines.flatMap fun line => '\n' :: line.toList) ++ ['\n'] := by
    intro lines
    induction lines with
    | nil => rfl
    | cons line rest ih => simp [← ih]
  rw [chars, ← hlines, document]
  simp

theorem Readable.tokens?_chars {root : Markup} (h : root.Readable) :
    tokens? (root.chars 0 ++ ['\n']) = some (root.tokens 0 ++ [.text ['\n']]) :=
  ((h.reads 0 ['\n']).append (.cons rfl (.nil []))).tokens?_eq

/-- The document of readable markup is well-formed, and its root is the markup as written. -/
theorem Readable.root?_document {root : Markup} (h : root.Readable) :
    Document.root? root.document = some (root.element 0) := by
  have hmark : Document.skipMark root.document.toList = root.document.toList := by
    rw [toList_document]
    rfl
  have hchars : root.document.toList.all isXmlChar = true := by
    rw [toList_document, List.all_append, List.all_append, List.all_eq_true.2 (h.isXmlChar_chars 0)]
    decide
  have hdeclaration : skipDeclaration? root.document.toList = some (root.chars 0 ++ ['\n']) := by
    rw [toList_document]
    rfl
  have htokens := h.tokens?_chars
  have hrun : (root.tokens 0 ++ [Token.text ['\n']]).foldlM Progress.step? ⟨[], none⟩ =
      some ⟨[], some (root.element 0)⟩ := by
    rw [List.foldlM_append, h.foldlM_tokens 0 (.inr rfl)]
    rfl
  unfold Document.root?
  simp only [hmark, hchars, hdeclaration, guard_true, Option.pure_def, Option.bind_eq_bind,
    Option.bind_some, htokens, hrun]
  rfl

end Markup

/-- A text that is a document with a root element: it starts with its only declaration, and all its
tags are closed in proper nesting. -/
structure Document.WellFormed (text : String) (root : Element) : Prop where
  nested : ∃ body tokens, text = Markup.declaration ++ body ∧ tokens? body.toList = some tokens ∧
    Nested tokens
  root : Document.root? text = some root

/-- The document of readable markup reads as the markup. -/
theorem Markup.Readable.document {root : Markup} (h : root.Readable) : ∃ read,
    Document.WellFormed root.document read ∧ read.withoutIndentation = root.tree := by
  refine ⟨root.element 0, ⟨⟨String.ofList (root.chars 0 ++ ['\n']),
    root.tokens 0 ++ [Token.text ['\n']], ?_, ?_, ?_⟩, h.root?_document⟩, h.withoutIndentation 0⟩
  · rw [← String.toList_inj, toList_document, String.toList_append, String.toList_ofList]
  · rw [String.toList_ofList, h.tokens?_chars]
  · exact (h.nested 0).append (.text _ .nil)

namespace Element

/-- The elements below an element that a path of names leads to, in document order. -/
def descend (e : Element) : List String → List Element
  | [] => [e]
  | name :: rest => (e.elementsNamed name).flatMap (·.descend rest)

/-- The texts of the elements that a path of names leads to. -/
def textsAt (e : Element) (names : List String) : List String := (e.descend names).map (·.text)

/-- What the items that a path of names leads to include. -/
def includesAt (e : Element) (names : List String) : List String :=
  (e.descend names).filterMap (·.attribute? "Include")

end Element

namespace Markup

/-- The name of the element. -/
def name : Markup → String
  | leaf name _ _ => name
  | bare name _ => name
  | group name _ _ => name

@[simp] theorem name_leaf (tag : String) (attributes : Attributes) (text : String) :
    (leaf tag attributes text).name = tag := rfl

@[simp] theorem name_bare (tag : String) (attributes : Attributes) : (bare tag attributes).name = tag := rfl

@[simp] theorem name_group (tag : String) (attributes : Attributes) (children : List Markup) :
    (group tag attributes children).name = tag := rfl

theorem name_tree (markup : Markup) : markup.tree.name = markup.name := by
  cases markup <;> simp [tree]

theorem elements_group (name : String) (attributes : Attributes) (children : List Markup) :
    (group name attributes children).tree.elements = children.map tree := by
  simp [tree, Element.elements, List.filterMap_map, Function.comp_def, Element.toNode, Node.element?]

theorem elementsNamed_group (name : String) (attributes : Attributes) (children : List Markup)
    (wanted : String) : (group name attributes children).tree.elementsNamed wanted =
      (children.filter (·.name == wanted)).map tree := by
  simp [Element.elementsNamed, elements_group, List.filter_map, Function.comp_def, name_tree]

theorem text_leaf (name : String) (attributes : Attributes) (text : String) :
    (leaf name attributes text).tree.text = text := by
  by_cases h : text = "" <;> simp [tree, Element.text, h, Node.text?]

theorem textsAt_group (name : String) (attributes : Attributes) (children : List Markup)
    (wanted : String) : (group name attributes children).tree.textsAt [wanted] =
      (children.filter (·.name == wanted)).map (·.tree.text) := by
  simp [Element.textsAt, Element.descend, elementsNamed_group]

theorem attribute?_include {value : String} (name : String) (children : List Markup) :
    (group name [("Include", value)] children).tree.attribute? "Include" = some value := by
  simp [tree, ordinaryAttributes, Element.attribute?]

theorem attribute?_bare (name value : String) :
    (bare name [("Include", value)]).tree.attribute? "Include" = some value := by
  simp [tree, ordinaryAttributes, Element.attribute?]

end Markup

end DatabaseProject.Xml
