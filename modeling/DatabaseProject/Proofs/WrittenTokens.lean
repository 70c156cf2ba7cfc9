import DatabaseProject.Proofs.Escaping
import Mathlib.Data.List.Basic

/-!
# Tokens of written markup

Markup whose names are names and whose texts are plain is cut into the tokens that it was written
from: the indentation before each tag, the tags with their escaped attributes, and escaped text.
-/

namespace DatabaseProject.Xml

/-- A name without a namespace prefix. -/
def IsName (name : String) : Prop :=
  startsName name.toList = true ∧ ∀ c ∈ name.toList, isNameChar c = true ∧ c ≠ ':'

/-- The characters of a name. -/
def isNameText (chars : List Char) : Bool :=
  startsName chars && chars.all fun c => isNameChar c && c != ':'

/-- A name given by its characters, as a literal is. -/
theorem IsName.ofList {chars : List Char} (h : isNameText chars = true) : IsName (String.ofList chars) := by
  simp only [isNameText, Bool.and_eq_true, List.all_eq_true, bne_iff_ne] at h
  simpa [IsName] using h

/-- Attributes with different names and plain values; a default namespace is none of the standard's
own. -/
structure ReadableAttributes (attributes : Attributes) : Prop where
  names : ∀ a ∈ attributes, IsName a.1
  nodup : (attributes.map (·.1)).Nodup
  values : ∀ a ∈ attributes, PlainText a.2
  spaces : ∀ a ∈ attributes, a.1 = "xmlns" → a.2 ≠ xmlnsSpace ∧ a.2 ≠ xmlSpace

namespace ReadableAttributes

theorem nil : ReadableAttributes [] := by
  constructor <;> simp

/-- One more attribute, which is no declaration of a namespace. -/
theorem cons {name value : String} {attributes : Attributes} (hn : IsName name) (hx : name ≠ "xmlns")
    (hv : PlainText value) (hnew : name ∉ attributes.map (·.1)) (h : ReadableAttributes attributes) :
    ReadableAttributes ((name, value) :: attributes) := by
  refine ⟨List.forall_mem_cons.2 ⟨hn, h.names⟩, ?_, List.forall_mem_cons.2 ⟨hv, h.values⟩,
    List.forall_mem_cons.2 ⟨fun he => absurd he hx, h.spaces⟩⟩
  rw [List.map_cons, List.nodup_cons]
  exact ⟨hnew, h.nodup⟩

theorem one {name value : String} (hn : IsName name) (hx : name ≠ "xmlns") (hv : PlainText value) :
    ReadableAttributes [(name, value)] := cons hn hx hv (by simp) nil

end ReadableAttributes

namespace Markup

/-- Markup with names for names, and plain text for text and values. -/
inductive Readable : Markup → Prop
  | leaf {name : String} {attributes : Attributes} {text : String} (hn : IsName name)
      (ha : ReadableAttributes attributes) (ht : PlainText text) : Readable (.leaf name attributes text)
  | bare {name : String} {attributes : Attributes} (hn : IsName name)
      (ha : ReadableAttributes attributes) : Readable (.bare name attributes)
  | group {name : String} {attributes : Attributes} {children : List Markup} (hn : IsName name)
      (ha : ReadableAttributes attributes) (hc : ∀ child ∈ children, Readable child) :
      Readable (.group name attributes children)

/-- A field with a literal name. -/
theorem readable_field {name : List Char} {text : String} (hn : isNameText name = true)
    (ht : PlainText text) : (field (String.ofList name) text).Readable :=
  .leaf (.ofList hn) .nil ht

/-- A field with a literal name and a literal text. -/
theorem readable_literal {name text : List Char} (hn : isNameText name = true)
    (ht : text.all isPlain = true) : (field (String.ofList name) (String.ofList text)).Readable :=
  readable_field hn (.ofList ht)

end Markup

/-- A name in no namespace. -/
def unqualified (name : String) : QualifiedName := ⟨"", name⟩

@[simp] theorem qualifier_unqualified (name : String) : (unqualified name).qualifier = "" := rfl

@[simp] theorem name_unqualified (name : String) : (unqualified name).name = name := rfl

/-- An attribute as a reader finds it. -/
def rawAttribute (a : String × String) : RawAttribute := ⟨unqualified a.1, escapeAll a.2.toList⟩

/-- The characters of an attribute behind its blank. -/
def attributeChars (a : String × String) : List Char :=
  a.1.toList ++ '=' :: '"' :: escapeAll a.2.toList ++ ['"']

/-- The characters of a tag between its brackets. -/
def tagChars (name : String) (attributes : Attributes) : List Char :=
  name.toList ++ attributes.flatMap fun a => ' ' :: attributeChars a

/-- What ends the start tag of an element, and of an empty one. -/
def tagEnd (isEmpty : Bool) : List Char := if isEmpty then ['/', '>'] else ['>']

/-- A line end and the blanks of the next line. -/
def indentation (depth : Nat) : List Char := '\n' :: List.replicate (2 * depth) ' '

theorem toList_tagText (name : String) (attributes : Attributes) :
    (Markup.tagText name attributes).toList = tagChars name attributes := by
  have hjoin : ∀ rest : Attributes, (String.join (rest.map Markup.attributeText)).toList =
      rest.flatMap fun a => ' ' :: attributeChars a := by
    intro rest
    induction rest with
    | nil => rfl
    | cons a rest ih => simp [Markup.attributeText, attributeChars, ih]
  rw [Markup.tagText, String.toList_append, hjoin, tagChars]

theorem not_space_of_isNameStart {c : Char} (h : isNameStart c = true) :
    isSpace c = false ∧ c ∉ ['!', '?', '/', '>'] := by
  constructor
  · cases hs : isSpace c with
    | false => rfl
    | true =>
      simp only [isSpace, Bool.or_eq_true, beq_iff_eq] at hs
      rcases hs with ((rfl | rfl) | rfl) | rfl <;> exact absurd h (by decide)
  · intro hm
    simp only [List.mem_cons, List.not_mem_nil, or_false] at hm
    rcases hm with rfl | rfl | rfl | rfl <;> exact absurd h (by decide)

theorem IsName.exists_cons {name : String} (h : IsName name) :
    ∃ c rest, name.toList = c :: rest ∧ isNameStart c = true := by
  obtain ⟨hstart, -⟩ := h
  cases hn : name.toList with
  | nil =>
    rw [hn] at hstart
    cases hstart
  | cons c rest =>
    rw [hn] at hstart
    exact ⟨c, rest, rfl, hstart⟩

/-- A name is read up to the first character that is part of no name. -/
theorem readName?_append {name : String} {c : Char} {rest : List Char} (hn : IsName name)
    (hc : isNameChar c = false) :
    readName? (name.toList ++ c :: rest) = some (unqualified name, c :: rest) := by
  have hall : ∀ d ∈ name.toList, isNameChar d = true := fun d hd => (hn.2 d hd).1
  have hsplit : name.toList.splitOnP (· == ':') = [name.toList] := by
    apply List.splitOnP_eq_singleton
    intro d hd
    simpa using (hn.2 d hd).2
  have hqualified : qualifiedName? name.toList = some (unqualified name) := by
    unfold qualifiedName?
    rw [hsplit]
    simp [hn.1, unqualified]
  unfold readName?
  rw [List.takeWhile_append_of_pos hall, List.dropWhile_append_of_pos hall, List.takeWhile_cons,
    List.dropWhile_cons, hc]
  simp [hqualified]

/-- Escaped characters are read up to the quote behind them. -/
theorem readQuoted?_escapeAll (s rest : List Char) :
    readQuoted? ('"' :: escapeAll s ++ '"' :: rest) = some (escapeAll s, rest) := by
  have hall : ∀ c ∈ escapeAll s, (c != '"' && c != '<') = true := by
    intro c hc
    have hquote : c ≠ '"' := by
      rintro rfl
      exact not_mem_escapeAll (by decide) (by decide) s hc
    have hbracket : c ≠ '<' := by
      rintro rfl
      exact not_mem_escapeAll (by decide) (by decide) s hc
    simp [hquote, hbracket]
  rw [List.cons_append, readQuoted?, if_pos (.inl rfl), List.dropWhile_append_of_pos hall,
    List.takeWhile_append_of_pos hall]
  simp

theorem readAttribute?_append {a : String × String} (hn : IsName a.1) (rest : List Char) :
    readAttribute? (attributeChars a ++ rest) = some (rawAttribute a, rest) := by
  have hname : readName? (attributeChars a ++ rest) =
      some (unqualified a.1, '=' :: '"' :: escapeAll a.2.toList ++ '"' :: rest) := by
    unfold attributeChars
    simpa using readName?_append (c := '=') hn (by decide)
  have hquoted := readQuoted?_escapeAll a.2.toList rest
  unfold readAttribute?
  rw [hname]
  show Option.map _ (readQuoted? ('"' :: escapeAll a.2.toList ++ '"' :: rest)) = _
  rw [hquoted]
  rfl

theorem readAttributes?_tagEnd (isEmpty : Bool) (rest : List Char) :
    readAttributes? (tagEnd isEmpty ++ rest) = some (([], isEmpty), rest) := by
  cases isEmpty with
  | false =>
    have hskip : skipSpaces (tagEnd false ++ rest) = '>' :: rest := rfl
    rw [readAttributes?, hskip]
    rfl
  | true =>
    have hskip : skipSpaces (tagEnd true ++ rest) = '/' :: '>' :: rest := rfl
    rw [readAttributes?, hskip]
    rfl

/-- An attribute behind a blank is read before those that follow it. -/
theorem readAttributes?_blank {a : String × String} (hn : IsName a.1) (rest : List Char) :
    readAttributes? (' ' :: (attributeChars a ++ rest)) =
      (readAttributes? rest).map fun found => ((rawAttribute a :: found.1.1, found.1.2), found.2) := by
  have hread := readAttribute?_append hn rest
  obtain ⟨c, cs, hc, hstart⟩ := hn.exists_cons
  obtain ⟨hspace, hmark⟩ := not_space_of_isNameStart hstart
  obtain ⟨tail, htail⟩ : ∃ tail, attributeChars a ++ rest = c :: tail := by
    unfold attributeChars
    rw [hc]
    exact ⟨_, rfl⟩
  have hskip : skipSpaces (' ' :: c :: tail) = c :: tail := by
    show skipSpaces (c :: tail) = _
    simp [skipSpaces, hspace]
  rw [htail] at hread ⊢
  rw [readAttributes?, hskip]
  split
  · rename_i he
    exact absurd (List.cons.inj he).1 fun h => hmark (by simp [h])
  · rename_i he
    exact absurd (List.cons.inj he).1 fun h => hmark (by simp [h])
  · have hblank : (' ' :: c :: tail).head?.any isSpace = true := rfl
    rw [if_pos hblank]
    split
    · rename_i hnone
      rw [hread] at hnone
      cases hnone
    · rename_i hsome
      rw [hread] at hsome
      cases hsome
      rfl

/-- The attributes of a tag are read up to its end. -/
theorem readAttributes?_append {attributes : Attributes} (hn : ∀ a ∈ attributes, IsName a.1)
    (isEmpty : Bool) (rest : List Char) :
    readAttributes? ((attributes.flatMap fun a => ' ' :: attributeChars a) ++ (tagEnd isEmpty ++ rest)) =
      some ((attributes.map rawAttribute, isEmpty), rest) := by
  induction attributes with
  | nil => exact readAttributes?_tagEnd isEmpty rest
  | cons a more ih =>
    rw [List.forall_mem_cons] at hn
    rw [List.flatMap_cons, List.cons_append, List.cons_append, List.append_assoc,
      readAttributes?_blank hn.1, ih hn.2]
    rfl

/-- A start tag, or the tag of an empty element. -/
theorem readToken?_startTag {name : String} {attributes : Attributes} (hn : IsName name)
    (ha : ReadableAttributes attributes) (isEmpty : Bool) (rest : List Char) :
    readToken? ('<' :: (tagChars name attributes ++ (tagEnd isEmpty ++ rest))) =
      some (.startTag (unqualified name) (attributes.map rawAttribute) isEmpty, rest) := by
  have hattributes := readAttributes?_append ha.names isEmpty rest
  have hname : readName? (tagChars name attributes ++ (tagEnd isEmpty ++ rest)) = some (unqualified name,
      (attributes.flatMap fun a => ' ' :: attributeChars a) ++ (tagEnd isEmpty ++ rest)) := by
    unfold tagChars
    rw [List.append_assoc]
    cases attributes with
    | nil => cases isEmpty <;> exact readName?_append hn (by decide)
    | cons a more => exact readName?_append hn (by decide)
  obtain ⟨c, cs, hc, hstart⟩ := hn.exists_cons
  obtain ⟨-, hmark⟩ := not_space_of_isNameStart hstart
  have hfirst : tagChars name attributes ++ (tagEnd isEmpty ++ rest) =
      c :: (tagChars name attributes ++ (tagEnd isEmpty ++ rest)).tail := by
    unfold tagChars
    rw [hc]
    rfl
  have htag : readToken? ('<' :: (tagChars name attributes ++ (tagEnd isEmpty ++ rest))) =
      readStartTag? (tagChars name attributes ++ (tagEnd isEmpty ++ rest)) := by
    rw [hfirst, readToken?]
    -- No other token starts with the bracket and the start of a name.
    all_goals
      intros
      rename_i h
      exact hmark (by simp [(List.cons.inj h).1])
  rw [htag]
  unfold readStartTag?
  rw [hname]
  simp only [hattributes, Option.map_some]

theorem readToken?_endTag {name : String} (hn : IsName name) (rest : List Char) :
    readToken? ('<' :: '/' :: (name.toList ++ '>' :: rest)) = some (.endTag (unqualified name), rest) := by
  show readEndTag? (name.toList ++ '>' :: rest) = _
  unfold readEndTag?
  rw [readName?_append hn (by decide)]
  rfl

/-- Text is read up to the next tag. -/
theorem readToken?_text {s rest : List Char} (hne : s ≠ []) (hs : '<' ∉ s) :
    readToken? (s ++ '<' :: rest) = some (.text s, '<' :: rest) := by
  obtain ⟨c, cs, rfl⟩ := List.exists_cons_of_ne_nil hne
  have hc : c ≠ '<' := fun h => hs (by simp [h])
  have hall : ∀ d ∈ cs, (d != '<') = true := by
    intro d hd
    have hne : d ≠ '<' := by
      rintro rfl
      exact hs (List.mem_cons_of_mem c hd)
    simpa using hne
  rw [List.cons_append, readToken?]
  · rw [List.takeWhile_append_of_pos hall, List.dropWhile_append_of_pos hall]
    simp
  all_goals simp [hc]

/-- The tokens at the start of a text, and what follows them. -/
inductive Reads : List Char → List Token → List Char → Prop
  | nil (s : List Char) : Reads s [] s
  | cons {s mid rest : List Char} {token : Token} {tokens : List Token}
      (first : readToken? s = some (token, mid)) (more : Reads mid tokens rest) :
      Reads s (token :: tokens) rest

namespace Reads

variable {s mid rest : List Char} {tokens others : List Token}

theorem append (h : Reads s tokens mid) (h' : Reads mid others rest) : Reads s (tokens ++ others) rest := by
  induction h with
  | nil => exact h'
  | cons first _ ih => exact .cons first (ih h')

/-- Parts that are read one by one are read one after the other. -/
theorem flatMap {α : Type} {written : α → List Char} {read : α → List Token} {parts : List α}
    (h : ∀ part ∈ parts, ∀ rest, Reads (written part ++ rest) (read part) rest) (rest : List Char) :
    Reads (parts.flatMap written ++ rest) (parts.flatMap read) rest := by
  induction parts with
  | nil => exact .nil rest
  | cons part more ih =>
    rw [List.forall_mem_cons] at h
    rw [List.flatMap_cons, List.flatMap_cons, List.append_assoc]
    exact (h.1 _).append (ih h.2)

theorem tokens?_eq (h : Reads s tokens []) : tokens? s = some tokens := by
  generalize he : ([] : List Char) = last at h
  induction h with
  | nil =>
    subst he
    rw [tokens?]
  | @cons s mid _ token more first _ ih =>
    cases s with
    | nil => cases first
    | cons c cs =>
      rw [tokens?]
      split
      · rename_i hnone
        rw [first] at hnone
        cases hnone
      · rename_i hsome
        rw [first] at hsome
        cases hsome
        rw [ih he, Option.map_some]

end Reads

namespace Markup

/-- The characters of an element at a depth, each line behind its line end. -/
def chars (depth : Nat) (markup : Markup) : List Char :=
  (markup.lines depth).flatMap fun line => '\n' :: line.toList

/-- The tokens of an element at a depth. -/
def tokens (depth : Nat) : Markup → List Token
  | leaf name attributes text =>
    [.text (indentation depth), .startTag (unqualified name) (attributes.map rawAttribute) false]
      ++ (if text = "" then [] else [.text (escapeAll text.toList)]) ++ [.endTag (unqualified name)]
  | bare name attributes =>
    [.text (indentation depth), .startTag (unqualified name) (attributes.map rawAttribute) true]
  | group name attributes children =>
    [.text (indentation depth), .startTag (unqualified name) (attributes.map rawAttribute) false]
      ++ children.flatMap (tokens (depth + 1))
      ++ [.text (indentation depth), .endTag (unqualified name)]

theorem chars_leaf (depth : Nat) (name : String) (attributes : Attributes) (text : String) :
    (leaf name attributes text).chars depth = indentation depth ++ '<' :: (tagChars name attributes ++
      (tagEnd false ++ (escapeAll text.toList ++ '<' :: '/' :: (name.toList ++ ['>'])))) := by
  simp [chars, lines, indent, indentation, toList_tagText, tagEnd]

theorem chars_bare (depth : Nat) (name : String) (attributes : Attributes) :
    (bare name attributes).chars depth =
      indentation depth ++ '<' :: (tagChars name attributes ++ tagEnd true) := by
  simp [chars, lines, indent, indentation, toList_tagText, tagEnd]

theorem chars_group (depth : Nat) (name : String) (attributes : Attributes) (children : List Markup) :
    (group name attributes children).chars depth = indentation depth ++ '<' :: (tagChars name attributes ++
      (tagEnd false ++ (children.flatMap (chars (depth + 1)) ++
        (indentation depth ++ '<' :: '/' :: (name.toList ++ ['>']))))) := by
  have hchildren : (children.flatMap (lines (depth + 1))).flatMap (fun line => '\n' :: line.toList) =
      children.flatMap (chars (depth + 1)) := List.flatMap_assoc
  simp [chars, lines, indent, indentation, toList_tagText, tagEnd, hchildren]

theorem reads_indentation (depth : Nat) (rest : List Char) :
    readToken? (indentation depth ++ '<' :: rest) = some (.text (indentation depth), '<' :: rest) :=
  readToken?_text (by simp [indentation]) (by simp [indentation])

/-- Readable markup is cut into its tokens, whatever follows. -/
theorem Readable.reads {markup : Markup} (h : markup.Readable) (depth : Nat) (rest : List Char) :
    Reads (markup.chars depth ++ rest) (markup.tokens depth) rest := by
  induction h generalizing depth rest with
  | @leaf name attributes text hn ha ht =>
    rw [chars_leaf, tokens, List.append_assoc, List.cons_append, List.append_assoc, List.append_assoc,
      List.append_assoc]
    refine .cons (reads_indentation depth _) (.cons (readToken?_startTag hn ha false _) ?_)
    have hend := readToken?_endTag hn rest
    split
    · rename_i he
      subst he
      simpa using Reads.cons hend (.nil rest)
    · rename_i hne
      have hchars : escapeAll text.toList ≠ [] := escapeAll_ne_nil fun h => hne (by simpa using h)
      have hopen : '<' ∉ escapeAll text.toList := not_mem_escapeAll (by decide) (by decide) _
      simpa using Reads.cons (readToken?_text hchars hopen) (.cons hend (.nil rest))
  | @bare name attributes hn ha =>
    rw [chars_bare, tokens, List.append_assoc, List.cons_append, List.append_assoc]
    exact .cons (reads_indentation depth _) (.cons (readToken?_startTag hn ha true _) (.nil rest))
  | @group name attributes children hn ha hc ih =>
    have hchildren := Reads.flatMap fun child hm => ih child hm (depth + 1)
    rw [chars_group, tokens, List.append_assoc, List.cons_append, List.append_assoc, List.append_assoc,
      List.append_assoc, List.append_assoc]
    refine .cons (reads_indentation depth _) (.cons (readToken?_startTag hn ha false _) ?_)
    refine (hchildren _).append (.cons (reads_indentation depth _) (.cons ?_ (.nil rest)))
    simpa using readToken?_endTag hn rest

end Markup

/-- Tokens of elements and text only, in which every start tag is closed by its own end tag. -/
inductive Nested : List Token → Prop
  | nil : Nested []
  | text (content : List Char) {rest : List Token} (hr : Nested rest) : Nested (.text content :: rest)
  | empty (name : QualifiedName) (attributes : List RawAttribute) {rest : List Token}
      (hr : Nested rest) : Nested (.startTag name attributes true :: rest)
  | element (name : QualifiedName) (attributes : List RawAttribute) {inner rest : List Token}
      (hi : Nested inner) (hr : Nested rest) :
      Nested (.startTag name attributes false :: (inner ++ .endTag name :: rest))

theorem Nested.append {tokens others : List Token} (h : Nested tokens) (h' : Nested others) :
    Nested (tokens ++ others) := by
  induction h with
  | nil => exact h'
  | text content _ ih => exact .text content ih
  | empty name attributes _ ih => exact .empty name attributes ih
  | element name attributes hi _ _ ih =>
    rw [List.cons_append, List.append_assoc, List.cons_append]
    exact .element name attributes hi ih

theorem Nested.flatMap {α : Type} {read : α → List Token} {parts : List α}
    (h : ∀ part ∈ parts, Nested (read part)) : Nested (parts.flatMap read) := by
  induction parts with
  | nil => exact .nil
  | cons part more ih =>
    rw [List.forall_mem_cons] at h
    exact h.1.append (ih h.2)

theorem Markup.Readable.nested {markup : Markup} (h : markup.Readable) (depth : Nat) :
    Nested (markup.tokens depth) := by
  induction h generalizing depth with
  | leaf hn ha ht =>
    rw [tokens]
    refine .text _ (.element _ _ ?_ .nil)
    split
    · exact .nil
    · exact .text _ .nil
  | bare hn ha =>
    rw [tokens]
    exact .text _ (.empty _ _ .nil)
  | @group name attributes children hn ha hc ih =>
    have hchildren := Nested.flatMap fun child hm => ih child hm (depth + 1)
    have hinner := hchildren.append (.text (indentation depth) .nil)
    have helement := Nested.element (unqualified name) (attributes.map rawAttribute) hinner .nil
    simpa [tokens] using Nested.text (indentation depth) helement

end DatabaseProject.Xml
