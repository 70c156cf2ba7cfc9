import DatabaseProject.Xml.Scan

/-!
# Text of XML documents

Reads character data and attribute values: references are replaced by what they stand for, and
line ends become one line feed in text and one space in attribute values. A character that comes
from a reference, and in text also the one right behind it, is taken as it is.
-/

namespace DatabaseProject.Xml

/-- The value of a digit in a base up to 16. -/
def digitValue? (base : Nat) (c : Char) : Option Nat :=
  let value :=
    if '0' ≤ c ∧ c ≤ '9' then some (c.toNat - '0'.toNat)
    else if 'a' ≤ c ∧ c ≤ 'f' then some (c.toNat - 'a'.toNat + 10)
    else if 'A' ≤ c ∧ c ≤ 'F' then some (c.toNat - 'A'.toNat + 10)
    else none
  value.filter (· < base)

/-- Code points are written in 32 bits. -/
def codePointLimit : Nat := UInt32.size

/-- The character of digits in a base; a number that is no character stands for U+FFFD. -/
def charOfDigits? (base : Nat) (digits : List Char) : Option Char := do
  guard (!digits.isEmpty)
  let values ← digits.mapM (digitValue? base)
  let number := values.foldl (fun n d => base * n + d) 0
  guard (number < codePointLimit)
  let c := if number.isValidChar then Char.ofNat number else '\uFFFD'
  guard (isXmlChar c)
  return c

/-- The entities that every document has. -/
def entityOfName? (name : List Char) : Option Char :=
  match String.ofList name with
  | "quot" => some '"'
  | "amp" => some '&'
  | "apos" => some '\''
  | "lt" => some '<'
  | "gt" => some '>'
  | _ => none

/-- The character that a reference stands for, given what is between `&` and `;`. -/
def referenced? : List Char → Option Char
  | '#' :: 'x' :: digits => charOfDigits? 16 digits
  | '#' :: digits => charOfDigits? 10 digits
  | name => entityOfName? name

/-- Reads a reference behind its `&`; also gives what follows its `;`. -/
def reference? (s : List Char) : Option (Char × List Char) :=
  match s.dropWhile (· != ';') with
  | [] => none
  | _ :: rest => (referenced? (s.takeWhile (· != ';'))).map (·, rest)

theorem length_lt_of_reference? {s rest : List Char} {c : Char} (h : reference? s = some (c, rest)) :
    rest.length < s.length := by
  unfold reference? at h
  have hle := (List.dropWhile_sublist (l := s) (· != ';')).length_le
  split at h
  · simp at h
  · rename_i hd
    simp only [Option.map_eq_some_iff, Prod.mk.injEq] at h
    obtain ⟨_, _, _, rfl⟩ := h
    rw [hd] at hle
    simp only [List.length_cons] at hle
    omega

/-- A character of text; one taken as it is keeps its place in a line end. -/
structure TextChar where
  char : Char
  asIs : Bool

/-- The characters of text with references replaced. `asIs` tells of the first one. -/
def textChars? (asIs : Bool) (s : List Char) : Option (List TextChar) :=
  match s with
  | [] => some []
  | '&' :: rest =>
    match _h : reference? rest with
    | none => none
    | some (c, rest') => (textChars? true rest').map (⟨c, true⟩ :: ·)
  | c :: rest => (textChars? false rest).map (⟨c, asIs⟩ :: ·)
termination_by s.length
decreasing_by
  · have := length_lt_of_reference? _h
    simp only [List.length_cons]
    omega
  · simp

/-- Makes one line feed of a carriage return and of the line feed behind it. -/
def lineFeeds : List TextChar → List Char
  | [] => []
  | [c] => if c.char = '\r' ∧ c.asIs = false then ['\n'] else [c.char]
  | c :: d :: rest =>
    if c.char = '\r' ∧ d.asIs = false then
      if d.char = '\n' then '\n' :: lineFeeds rest else '\n' :: lineFeeds (d :: rest)
    else c.char :: lineFeeds (d :: rest)

/-- Character data of an element; it may not hold `]]>`. -/
def characterData? (s : List Char) : Option String :=
  if hasInfix [']', ']', '>'] s then none
  else (textChars? false s).map fun chars => String.ofList (lineFeeds chars)

/-- The text of a character data section. -/
def sectionText (s : List Char) : String := String.ofList (lineFeeds (s.map (⟨·, false⟩)))

/-- The characters of an attribute value. -/
def attributeChars? (s : List Char) : Option (List Char) :=
  match s with
  | [] => some []
  | '&' :: rest =>
    match _h : reference? rest with
    | none => none
    | some (c, rest') => (attributeChars? rest').map (c :: ·)
  | '\r' :: '\n' :: rest => (attributeChars? rest).map (' ' :: ·)
  | c :: rest => (attributeChars? rest).map ((if isSpace c then ' ' else c) :: ·)
termination_by s.length
decreasing_by
  · have := length_lt_of_reference? _h
    simp only [List.length_cons]
    omega
  · simp only [List.length_cons]; omega
  · simp

/-- The value of an attribute. -/
def attributeValue? (s : List Char) : Option String := (attributeChars? s).map String.ofList

end DatabaseProject.Xml
