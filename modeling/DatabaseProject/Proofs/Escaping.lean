import DatabaseProject.Xml.Document
import DatabaseProject.Xml.Markup
import Mathlib.Data.List.Basic

/-!
# Escaped text

Text that a document can hold without a tab or a line end is escaped character by character. What is
written has no character that ends text or a value, and reading it, as text or as a value, gives the
text again.
-/

namespace DatabaseProject.Xml

open Markup (escapeChar escape)

/-- A character that a document may hold, and no tab, line feed or carriage return. -/
def isPlain (c : Char) : Bool := isXmlChar c && c != '\t' && c != '\n' && c != '\r'

/-- Text of plain characters only. -/
def PlainText (text : String) : Prop := ∀ c ∈ text.toList, isPlain c = true

instance (text : String) : Decidable (PlainText text) := decidable_of_iff _ List.all_eq_true

/-- The characters of escaped text. -/
def escapeAll (s : List Char) : List Char := s.flatMap escapeChar

@[simp] theorem toList_escape (text : String) : (escape text).toList = escapeAll text.toList := by
  simp [escape, escapeAll]

@[simp] theorem escapeAll_nil : escapeAll [] = [] := rfl

@[simp] theorem escapeAll_cons (c : Char) (s : List Char) :
    escapeAll (c :: s) = escapeChar c ++ escapeAll s := rfl

namespace PlainText

theorem append {first second : String} (hf : PlainText first) (hs : PlainText second) :
    PlainText (first ++ second) := by
  intro c hc
  rw [String.toList_append, List.mem_append] at hc
  exact hc.elim (hf c) (hs c)

/-- A text given by its characters, as a literal is. -/
theorem ofList {chars : List Char} (h : chars.all isPlain = true) : PlainText (String.ofList chars) := by
  simpa [PlainText, List.all_eq_true] using h

end PlainText

theorem isPlain_iff {c : Char} :
    isPlain c = true ↔ isXmlChar c = true ∧ c ≠ '\t' ∧ c ≠ '\n' ∧ c ≠ '\r' := by
  simp [isPlain, and_assoc]

/-- The only white space among plain characters is the blank. -/
theorem eq_blank_of_isSpace {c : Char} (h : isPlain c = true) (hs : isSpace c = true) : c = ' ' := by
  obtain ⟨-, ht, hn, hr⟩ := isPlain_iff.1 h
  simpa [isSpace, ht, hn, hr] using hs

/-- The characters that are written as references. -/
def marks : List Char := ['<', '>', '&', '\'', '"']

theorem escapeChar_of_not_mem {c : Char} (h : c ∉ marks) : escapeChar c = [c] := by
  unfold escapeChar
  split
  all_goals first | rfl | exact absurd (by decide) h

/-- A character is written as it is, or as a reference by name that stands for it. -/
theorem escapeChar_cases (c : Char) : (c ∉ marks ∧ escapeChar c = [c]) ∨
    ∃ name, escapeChar c = '&' :: name ++ [';'] ∧ referenced? name = some c ∧
      ∀ d ∈ name, d ≠ ';' ∧ d ∉ marks ∧ isXmlChar d = true := by
  by_cases hm : c ∈ marks
  · right
    simp only [marks, List.mem_cons, List.not_mem_nil, or_false] at hm
    rcases hm with rfl | rfl | rfl | rfl | rfl
    · exact ⟨['l', 't'], rfl, rfl, by simp [marks, isXmlChar]⟩
    · exact ⟨['g', 't'], rfl, rfl, by simp [marks, isXmlChar]⟩
    · exact ⟨['a', 'm', 'p'], rfl, rfl, by simp [marks, isXmlChar]⟩
    · exact ⟨['a', 'p', 'o', 's'], rfl, rfl, by simp [marks, isXmlChar]⟩
    · exact ⟨['q', 'u', 'o', 't'], rfl, rfl, by simp [marks, isXmlChar]⟩
  · exact .inl ⟨hm, escapeChar_of_not_mem hm⟩

theorem escapeAll_of_no_marks {s : List Char} (h : ∀ c ∈ s, c ∉ marks) : escapeAll s = s := by
  induction s with
  | nil => rfl
  | cons c rest ih =>
    rw [List.forall_mem_cons] at h
    rw [escapeAll_cons, escapeChar_of_not_mem h.1, ih h.2, List.singleton_append]

/-- Nothing that ends text or a value is written. -/
theorem not_mem_escapeAll {c : Char} (hc : c ∈ marks) (hne : c ≠ '&') (s : List Char) :
    c ∉ escapeAll s := by
  intro hm
  obtain ⟨d, -, hd⟩ := List.mem_flatMap.1 hm
  rcases escapeChar_cases d with ⟨hd', he⟩ | ⟨name, he, -, hname⟩
  · rw [he, List.mem_singleton] at hd
    exact hd' (hd ▸ hc)
  · rw [he] at hd
    simp only [List.cons_append, List.mem_cons, List.mem_append, List.not_mem_nil, or_false] at hd
    rcases hd with h | h | rfl
    · exact hne h
    · exact (hname c h).2.1 hc
    · exact absurd hc (by decide)

theorem isXmlChar_escapeAll {s : List Char} (h : ∀ c ∈ s, isXmlChar c = true) :
    ∀ c ∈ escapeAll s, isXmlChar c = true := by
  intro c hc
  obtain ⟨d, hs, hd⟩ := List.mem_flatMap.1 hc
  rcases escapeChar_cases d with ⟨-, he⟩ | ⟨name, he, -, hname⟩
  · rw [he, List.mem_singleton] at hd
    exact hd ▸ h d hs
  · rw [he] at hd
    simp only [List.cons_append, List.mem_cons, List.mem_append, List.not_mem_nil, or_false] at hd
    rcases hd with rfl | hm | rfl
    · decide
    · exact (hname c hm).2.2
    · decide

theorem escapeAll_ne_nil {s : List Char} (h : s ≠ []) : escapeAll s ≠ [] := by
  obtain ⟨c, rest, rfl⟩ := List.exists_cons_of_ne_nil h
  rcases escapeChar_cases c with ⟨-, he⟩ | ⟨name, he, -⟩ <;> simp [he]

theorem reference?_of_name {name : List Char} {c : Char} (hn : ∀ d ∈ name, d ≠ ';')
    (hr : referenced? name = some c) (rest : List Char) : reference? (name ++ ';' :: rest) = some (c, rest) := by
  have hall : ∀ d ∈ name, (d != ';') = true := fun d hd => by simpa using hn d hd
  unfold reference?
  rw [List.dropWhile_append_of_pos hall, List.takeWhile_append_of_pos hall]
  simp [hr]

theorem textChars?_of_name {name rest : List Char} {c : Char} {asIs : Bool} (hn : ∀ d ∈ name, d ≠ ';')
    (hr : referenced? name = some c) : textChars? asIs ('&' :: name ++ ';' :: rest) =
      (textChars? true rest).map (⟨c, true⟩ :: ·) := by
  have href := reference?_of_name hn hr rest
  rw [List.cons_append, textChars?]
  split
  · rename_i h
    rw [href] at h
    cases h
  · rename_i found rest' h
    rw [href] at h
    cases h
    rfl

/-- Escaped text reads as its characters. -/
theorem textChars?_escapeAll (asIs : Bool) (s : List Char) :
    ∃ chars, textChars? asIs (escapeAll s) = some chars ∧ chars.map (·.char) = s := by
  induction s generalizing asIs with
  | nil => exact ⟨[], by simp [escapeAll, textChars?], rfl⟩
  | cons c rest ih =>
    rcases escapeChar_cases c with ⟨hc, he⟩ | ⟨name, he, hr, hname⟩
    · have hand : c ≠ '&' := by
        rintro rfl
        exact hc (by decide)
      obtain ⟨chars, hchars, hmap⟩ := ih false
      refine ⟨⟨c, asIs⟩ :: chars, ?_, by rw [List.map_cons, hmap]⟩
      rw [escapeAll_cons, he, List.singleton_append, textChars?]
      · rw [hchars, Option.map_some]
      · exact fun h => hand h
    · obtain ⟨chars, hchars, hmap⟩ := ih true
      refine ⟨⟨c, true⟩ :: chars, ?_, by rw [List.map_cons, hmap]⟩
      rw [escapeAll_cons, he, List.append_assoc, List.singleton_append,
        textChars?_of_name (fun d hd => (hname d hd).1) hr, hchars, Option.map_some]

/-- Text without carriage returns has no line ends to make alike. -/
theorem lineFeeds_of_no_return {chars : List TextChar} (h : ∀ c ∈ chars, c.char ≠ '\r') :
    lineFeeds chars = chars.map (·.char) := by
  induction chars with
  | nil => rfl
  | cons c rest ih =>
    rw [List.forall_mem_cons] at h
    cases rest with
    | nil => simp [lineFeeds, h.1]
    | cons d rest =>
      rw [lineFeeds, if_neg fun hr => h.1 hr.1, ih h.2]
      rfl

/-- A text does not occur where one of its characters does not. -/
theorem upTo?_eq_none {stop s : List Char} {c : Char} (hc : c ∈ stop) (hs : c ∉ s) : upTo? stop s = none := by
  induction s with
  | nil => rfl
  | cons d rest ih =>
    have hstart : stop.isPrefixOf? (d :: rest) = none := by
      cases hp : stop.isPrefixOf? (d :: rest) with
      | none => rfl
      | some found =>
        have he := List.append_eq_of_isPrefixOf?_eq_some hp
        exact absurd (he ▸ List.mem_append_left found hc) hs
    unfold upTo?
    rw [hstart, ih fun hm => hs (List.mem_cons_of_mem d hm)]
    rfl

/-- Escaped characters without a carriage return read as they are. -/
theorem characterData?_escapeAll {s : List Char} (h : '\r' ∉ s) :
    characterData? (escapeAll s) = some (String.ofList s) := by
  obtain ⟨chars, hchars, rfl⟩ := textChars?_escapeAll false s
  have hends : hasInfix [']', ']', '>'] (escapeAll (chars.map (·.char))) = false := by
    unfold hasInfix
    rw [upTo?_eq_none (c := '>') (by decide) (not_mem_escapeAll (by decide) (by decide) _)]
    rfl
  have hreturn : ∀ c ∈ chars, c.char ≠ '\r' := by
    intro c hc he
    exact h (he ▸ List.mem_map_of_mem hc)
  unfold characterData?
  rw [hends, hchars, if_neg (by decide), Option.map_some, lineFeeds_of_no_return hreturn]

/-- Escaped text reads as the text. -/
theorem characterData?_escape {text : String} (h : PlainText text) :
    characterData? (escapeAll text.toList) = some text := by
  rw [characterData?_escapeAll fun hr => (isPlain_iff.1 (h _ hr)).2.2.2 rfl, String.ofList_toList]

theorem attributeChars?_of_name {name rest : List Char} {c : Char} (hn : ∀ d ∈ name, d ≠ ';')
    (hr : referenced? name = some c) : attributeChars? ('&' :: name ++ ';' :: rest) =
      (attributeChars? rest).map (c :: ·) := by
  have href := reference?_of_name hn hr rest
  rw [List.cons_append, attributeChars?]
  split
  · rename_i h
    rw [href] at h
    cases h
  · rename_i found rest' h
    rw [href] at h
    cases h
    rfl

theorem attributeChars?_of_plain {c : Char} {rest : List Char} (hp : isPlain c = true) (hc : c ≠ '&') :
    attributeChars? (c :: rest) = (attributeChars? rest).map (c :: ·) := by
  have hreturn := (isPlain_iff.1 hp).2.2.2
  have hread : (if isSpace c then ' ' else c) = c := by
    split
    · rename_i hs
      exact (eq_blank_of_isSpace hp hs).symm
    · rfl
  rw [attributeChars?]
  · rw [hread]
  · exact fun h => hc h
  · exact fun _ h _ => hreturn h

/-- An escaped value reads as the value. -/
theorem attributeValue?_escape {text : String} (h : PlainText text) :
    attributeValue? (escapeAll text.toList) = some text := by
  have hchars : ∀ s : List Char, (∀ c ∈ s, isPlain c = true) → attributeChars? (escapeAll s) = some s := by
    intro s hs
    induction s with
    | nil => simp [escapeAll, attributeChars?]
    | cons c rest ih =>
      rw [List.forall_mem_cons] at hs
      rcases escapeChar_cases c with ⟨hc, he⟩ | ⟨name, he, hr, hname⟩
      · have hand : c ≠ '&' := by
          rintro rfl
          exact hc (by decide)
        rw [escapeAll_cons, he, List.singleton_append, attributeChars?_of_plain hs.1 hand, ih hs.2,
          Option.map_some]
      · rw [escapeAll_cons, he, List.append_assoc, List.singleton_append,
          attributeChars?_of_name (fun d hd => (hname d hd).1) hr, ih hs.2, Option.map_some]
  unfold attributeValue?
  rw [hchars _ h, Option.map_some, String.ofList_toList]

end DatabaseProject.Xml
