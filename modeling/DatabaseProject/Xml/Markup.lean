/-!
# Written XML

The element trees that project files are written from, and their text: one element start, element
end or whole leaf a line, indented by two blanks a level.
-/

namespace DatabaseProject.Xml

/-- Attributes of a written element, in order. -/
abbrev Attributes := List (String × String)

/-- An element to write: with text only, without content, or with child elements. -/
inductive Markup where
  | leaf (name : String) (attributes : Attributes) (text : String)
  | bare (name : String) (attributes : Attributes)
  | group (name : String) (attributes : Attributes) (children : List Markup)
  deriving Repr

namespace Markup

/-- The characters that text and attribute values cannot hold as they are. -/
def escapeChar (c : Char) : List Char :=
  match c with
  | '<' => "&lt;".toList
  | '>' => "&gt;".toList
  | '&' => "&amp;".toList
  | '\'' => "&apos;".toList
  | '"' => "&quot;".toList
  | c => [c]

/-- Text or an attribute value as a document writes it. -/
def escape (text : String) : String := String.ofList (text.toList.flatMap escapeChar)

/-- An attribute behind a blank. -/
def attributeText (a : String × String) : String := " " ++ a.1 ++ "=\"" ++ escape a.2 ++ "\""

/-- The name and attributes of a tag. -/
def tagText (name : String) (attributes : Attributes) : String :=
  name ++ String.join (attributes.map attributeText)

/-- The blanks before a line. -/
def indent (depth : Nat) : String := String.ofList (List.replicate (2 * depth) ' ')

/-- The lines of an element at a depth. -/
def lines (depth : Nat) : Markup → List String
  | leaf name attributes text =>
    [indent depth ++ "<" ++ tagText name attributes ++ ">" ++ escape text ++ "</" ++ name ++ ">"]
  | bare name attributes => [indent depth ++ "<" ++ tagText name attributes ++ "/>"]
  | group name attributes children =>
    [indent depth ++ "<" ++ tagText name attributes ++ ">"]
      ++ children.flatMap (lines (depth + 1))
      ++ [indent depth ++ "</" ++ name ++ ">"]

/-- The line that starts every document. -/
def declaration : String := "<?xml version=\"1.0\" encoding=\"utf-8\"?>"

/-- The document of a root element. -/
def document (root : Markup) : String :=
  String.join ((declaration :: root.lines 0).map (· ++ "\n"))

/-- A leaf without attributes. -/
def field (name text : String) : Markup := leaf name [] text

end Markup

end DatabaseProject.Xml
