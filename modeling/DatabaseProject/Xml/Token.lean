import DatabaseProject.Xml.Scan

/-!
# Tokens of XML documents

Cuts a document into start tags, end tags, text, character data sections, comments and processing
instructions. Names are checked here; references, namespaces and nesting are not.
-/

namespace DatabaseProject.Xml

/-- A name with its namespace prefix, which is empty when there is none. -/
structure QualifiedName where
  qualifier : String
  name : String
  deriving DecidableEq, Repr

/-- An attribute as written between its quotes. -/
structure RawAttribute where
  name : QualifiedName
  value : List Char
  deriving DecidableEq, Repr

inductive Token where
  | startTag (name : QualifiedName) (attributes : List RawAttribute) (isEmpty : Bool)
  | endTag (name : QualifiedName)
  | text (content : List Char)
  | cdata (content : List Char)
  | comment
  | instruction
  deriving DecidableEq, Repr

/-- The word begins as names do. -/
def startsName (word : List Char) : Bool := word.head?.any isNameStart

/-- A name with at most one colon. -/
def qualifiedName? (word : List Char) : Option QualifiedName :=
  match word.splitOnP (· == ':') with
  | [name] => if startsName name then some ⟨"", String.ofList name⟩ else none
  | [qualifier, name] =>
    if (qualifier.isEmpty || startsName qualifier) && startsName name then
      some ⟨String.ofList qualifier, String.ofList name⟩
    else none
  | _ => none

/-- Reads a name and gives what follows. -/
def readName? (s : List Char) : Option (QualifiedName × List Char) :=
  (qualifiedName? (s.takeWhile isNameChar)).map (·, s.dropWhile isNameChar)

/-- Reads a value in quotes; it may not hold `<`. -/
def readQuoted? : List Char → Option (List Char × List Char)
  | [] => none
  | quote :: s =>
    if quote = '"' ∨ quote = '\'' then
      match s.dropWhile fun c => c != quote && c != '<' with
      | [] => none
      | c :: rest => if c = quote then some (s.takeWhile (fun c => c != quote && c != '<'), rest) else none
    else none

/-- Reads an attribute: name, `=` and value, with or without white space around the `=`. -/
def readAttribute? (s : List Char) : Option (RawAttribute × List Char) :=
  match readName? s with
  | none => none
  | some (name, s') =>
    match skipSpaces s' with
    | '=' :: s'' => (readQuoted? (skipSpaces s'')).map fun found => (⟨name, found.1⟩, found.2)
    | _ => none

theorem length_le_of_readName? {s rest : List Char} {name : QualifiedName}
    (h : readName? s = some (name, rest)) : rest.length ≤ s.length := by
  simp only [readName?, Option.map_eq_some_iff, Prod.mk.injEq] at h
  obtain ⟨_, _, _, rfl⟩ := h
  exact (List.dropWhile_sublist _).length_le

theorem length_lt_of_readQuoted? {s value rest : List Char} (h : readQuoted? s = some (value, rest)) :
    rest.length < s.length := by
  cases s with
  | nil => simp [readQuoted?] at h
  | cons quote s =>
    have hle := (List.dropWhile_sublist (l := s) fun c => c != quote && c != '<').length_le
    simp only [readQuoted?] at h
    split at h
    · split at h
      · simp at h
      · rename_i hd
        split at h
        · simp only [Option.some.injEq, Prod.mk.injEq] at h
          obtain ⟨_, rfl⟩ := h
          rw [hd] at hle
          simp only [List.length_cons] at hle ⊢
          omega
        · simp at h
    · simp at h

theorem length_lt_of_readAttribute? {s rest : List Char} {a : RawAttribute}
    (h : readAttribute? s = some (a, rest)) : rest.length < s.length := by
  unfold readAttribute? at h
  split at h
  · simp at h
  · rename_i name s' hn
    have h1 := length_le_of_readName? hn
    have h2 := length_skipSpaces_le s'
    split at h
    · rename_i s'' hs
      simp only [Option.map_eq_some_iff, Prod.mk.injEq] at h
      obtain ⟨⟨value, rest'⟩, hq, _, rfl⟩ := h
      have h3 := length_lt_of_readQuoted? hq
      have h4 := length_skipSpaces_le s''
      rw [hs] at h2
      simp only [List.length_cons] at h2 ⊢
      omega
    · simp at h

/-- What follows the name of a start tag: attributes, each behind white space, and the end of the
tag, which tells whether the element is empty. -/
def readAttributes? (s : List Char) : Option ((List RawAttribute × Bool) × List Char) :=
  match skipSpaces s with
  | '/' :: '>' :: rest => some (([], true), rest)
  | '>' :: rest => some (([], false), rest)
  | _ =>
    if s.head?.any isSpace then
      match _h : readAttribute? (skipSpaces s) with
      | none => none
      | some (a, rest) =>
        (readAttributes? rest).map fun found => ((a :: found.1.1, found.1.2), found.2)
    else none
termination_by s.length
decreasing_by
  have h1 := length_lt_of_readAttribute? _h
  have h2 := length_skipSpaces_le s
  omega

theorem length_lt_of_readAttributes? {s rest : List Char} {found : List RawAttribute × Bool}
    (h : readAttributes? s = some (found, rest)) : rest.length < s.length := by
  fun_induction readAttributes? s generalizing found rest with
  | case1 s rest' hs =>
    have := length_skipSpaces_le s
    rw [hs] at this
    simp only [Option.some.injEq, Prod.mk.injEq] at h
    obtain ⟨_, rfl⟩ := h
    simp only [List.length_cons] at this
    omega
  | case2 s rest' hs =>
    have := length_skipSpaces_le s
    rw [hs] at this
    simp only [Option.some.injEq, Prod.mk.injEq] at h
    obtain ⟨_, rfl⟩ := h
    simp only [List.length_cons] at this
    omega
  | case3 => simp at h
  | case4 s _ a rest' ha _ _ ih =>
    simp only [Option.map_eq_some_iff, Prod.mk.injEq] at h
    obtain ⟨⟨_, r⟩, hr, _, rfl⟩ := h
    have h1 := ih hr
    have h2 := length_lt_of_readAttribute? ha
    have h3 := length_skipSpaces_le s
    simp only
    omega
  | case5 => simp at h

/-- Reads a start tag behind its `<`. -/
def readStartTag? (s : List Char) : Option (Token × List Char) :=
  match readName? s with
  | none => none
  | some (name, s') =>
    (readAttributes? s').map fun found => (.startTag name found.1.1 found.1.2, found.2)

/-- Reads an end tag behind its `</`. -/
def readEndTag? (s : List Char) : Option (Token × List Char) :=
  match readName? s with
  | none => none
  | some (name, s') =>
    match skipSpaces s' with
    | '>' :: rest => some (.endTag name, rest)
    | _ => none

/-- Reads a comment behind its `<!--`; inside, `--` does not occur and `-` is not last. -/
def readComment? (s : List Char) : Option (Token × List Char) :=
  match upTo? ['-', '-', '>'] s with
  | none => none
  | some (content, rest) =>
    if hasInfix ['-', '-'] content || content.getLast? == some '-' then none
    else some (.comment, rest)

/-- Reads a processing instruction behind its `<?`; an XML declaration is none. -/
def readInstruction? (s : List Char) : Option (Token × List Char) :=
  if ['x', 'm', 'l', ' '].isPrefixOf s || !startsName s then none
  else (upTo? ['?', '>'] (skipSpaces (s.dropWhile isNameChar))).map fun found =>
    (.instruction, found.2)

/-- Reads the token that begins here. -/
def readToken? : List Char → Option (Token × List Char)
  | [] => none
  | '<' :: '!' :: '-' :: '-' :: s => readComment? s
  | '<' :: '!' :: '[' :: 'C' :: 'D' :: 'A' :: 'T' :: 'A' :: '[' :: s =>
    (upTo? [']', ']', '>'] s).map fun found => (.cdata found.1, found.2)
  | '<' :: '?' :: s => readInstruction? s
  | '<' :: '/' :: s => readEndTag? s
  | '<' :: s => readStartTag? s
  | c :: s => some (.text (c :: s.takeWhile (· != '<')), s.dropWhile (· != '<'))

theorem length_lt_of_readStartTag? {s rest : List Char} {t : Token}
    (h : readStartTag? s = some (t, rest)) : rest.length < s.length := by
  unfold readStartTag? at h
  split at h
  · simp at h
  · rename_i hn
    have h1 := length_le_of_readName? hn
    simp only [Option.map_eq_some_iff, Prod.mk.injEq] at h
    obtain ⟨⟨_, r⟩, hr, _, rfl⟩ := h
    have h2 := length_lt_of_readAttributes? hr
    simp only
    omega

theorem length_lt_of_readEndTag? {s rest : List Char} {t : Token}
    (h : readEndTag? s = some (t, rest)) : rest.length < s.length := by
  unfold readEndTag? at h
  split at h
  · simp at h
  · rename_i s' hn
    have h1 := length_le_of_readName? hn
    have h2 := length_skipSpaces_le s'
    split at h
    · rename_i hs
      rw [hs] at h2
      simp only [Option.some.injEq, Prod.mk.injEq] at h
      obtain ⟨_, rfl⟩ := h
      simp only [List.length_cons] at h2
      omega
    · simp at h

theorem length_lt_of_readComment? {s rest : List Char} {t : Token}
    (h : readComment? s = some (t, rest)) : rest.length < s.length := by
  unfold readComment? at h
  split at h
  · simp at h
  · rename_i hu
    have h1 := length_lt_of_upTo? (by simp) hu
    split at h
    · simp at h
    · simp only [Option.some.injEq, Prod.mk.injEq] at h
      obtain ⟨_, rfl⟩ := h
      exact h1

theorem length_lt_of_readInstruction? {s rest : List Char} {t : Token}
    (h : readInstruction? s = some (t, rest)) : rest.length < s.length := by
  unfold readInstruction? at h
  split at h
  · simp at h
  · simp only [Option.map_eq_some_iff, Prod.mk.injEq] at h
    obtain ⟨⟨_, r⟩, hr, _, rfl⟩ := h
    have h1 := length_lt_of_upTo? (by simp) hr
    have h2 := length_skipSpaces_le (s.dropWhile isNameChar)
    have h3 := (List.dropWhile_sublist (l := s) isNameChar).length_le
    simp only at h1 ⊢
    omega

theorem length_lt_of_readToken? {s rest : List Char} {t : Token}
    (h : readToken? s = some (t, rest)) : rest.length < s.length := by
  unfold readToken? at h
  split at h
  · simp at h
  · have := length_lt_of_readComment? h
    simp only [List.length_cons]
    omega
  · simp only [Option.map_eq_some_iff, Prod.mk.injEq] at h
    obtain ⟨⟨_, r⟩, hr, _, rfl⟩ := h
    have := length_lt_of_upTo? (by simp) hr
    simp only [List.length_cons] at this ⊢
    omega
  · have := length_lt_of_readInstruction? h
    simp only [List.length_cons]
    omega
  · have := length_lt_of_readEndTag? h
    simp only [List.length_cons]
    omega
  · have := length_lt_of_readStartTag? h
    simp only [List.length_cons]
    omega
  · rename_i c s _ _ _ _ _
    simp only [Option.some.injEq, Prod.mk.injEq] at h
    obtain ⟨_, rfl⟩ := h
    have := (List.dropWhile_sublist (l := s) (· != '<')).length_le
    simp only [List.length_cons]
    omega

/-- All tokens of a document. -/
def tokens? (s : List Char) : Option (List Token) :=
  match s with
  | [] => some []
  | c :: cs =>
    match _h : readToken? (c :: cs) with
    | none => none
    | some (t, rest) => (tokens? rest).map (t :: ·)
termination_by s.length
decreasing_by exact length_lt_of_readToken? _h

/-- Reads an attribute of the XML declaration, of which only the form counts. -/
def skipAttribute? (s : List Char) : Option (List Char) := (readAttribute? s).map (·.2)

/-- Skips the white space that ends a part of the XML declaration. -/
def skipDeclarationSpaces? (s : List Char) : Option (List Char) :=
  if s.head?.any isSpace || ['?', '>'].isPrefixOf s then some (skipSpaces s) else none

/-- Skips an attribute of the XML declaration whose name starts like this, where it comes next. -/
def skipOptional? (start : String) (spaces : Bool) (s : List Char) : Option (List Char) :=
  if start.toList.isPrefixOf s then do
    let s ← skipAttribute? s
    if spaces then skipDeclarationSpaces? s else return s
  else some s

/-- What follows the XML declaration, for a text that begins with one. -/
def skipDeclaration? (s : List Char) : Option (List Char) := do
  match ['<', '?', 'x', 'm', 'l', ' '].isPrefixOf? s with
  | none => return s
  | some s =>
    let s := skipSpaces s
    guard ("version".toList.isPrefixOf s)
    let s ← skipOptional? "version" true s
    let s ← skipOptional? "encoding" true s
    let s ← skipOptional? "standalone" false s
    ['?', '>'].isPrefixOf? (skipSpaces s)

end DatabaseProject.Xml
