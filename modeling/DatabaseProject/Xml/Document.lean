import DatabaseProject.Xml.Node
import DatabaseProject.Xml.Text
import DatabaseProject.Xml.Token

/-!
# Documents

Builds the tree of a document from its tokens: tags nest, names have declared namespace prefixes,
an element has each attribute once, and there is exactly one root element. `Document.root?` is the
root of a text that is a well-formed document without a document type declaration.
-/

namespace DatabaseProject.Xml

/-- A namespace that the standard itself names, by the segments of the name. -/
def standardSpace (segments : List String) : String :=
  "/".intercalate (["http:", "", "www.w3.org"] ++ segments)

/-- The namespace that the prefix `xml` stands for. -/
def xmlSpace : String := standardSpace ["XML", "1998", "namespace"]

/-- The namespace that the prefix `xmlns` stands for. -/
def xmlnsSpace : String := standardSpace ["2000", "xmlns", ""]

/-- Namespaces by prefix; the latest declaration of a prefix comes first. -/
abbrev Scope := List (String × String)

/-- The namespace declarations and the ordinary attributes of an element. -/
structure AttributeParts where
  declared : Scope
  ordinary : List (QualifiedName × String)

namespace AttributeParts

/-- Adds a prefix declaration; an element declares a prefix once. -/
def declare? (parts : AttributeParts) (qualifier space : String) : Option AttributeParts := do
  guard (space != xmlnsSpace)
  if qualifier == "xml" then
    guard (space == xmlSpace)
    return parts
  else
    guard (space != xmlSpace)
    guard (parts.declared.lookup qualifier).isNone
    return { parts with declared := (qualifier, space) :: parts.declared }

/-- Passes a declaration of the default namespace. It is not kept, since no name without a prefix
is looked up, so an element may have several. -/
def declareDefault? (parts : AttributeParts) (space : String) : Option AttributeParts := do
  guard (space != xmlnsSpace && space != xmlSpace)
  return parts

/-- Adds an attribute as written; one whose local name is `xmlns` declares the default namespace,
whatever its prefix. -/
def add? (parts : AttributeParts) (raw : RawAttribute) : Option AttributeParts := do
  let value ← attributeValue? raw.value
  if raw.name.qualifier == "xmlns" then parts.declare? raw.name.name value
  else if raw.name.name == "xmlns" then parts.declareDefault? value
  else return { parts with ordinary := parts.ordinary ++ [(raw.name, value)] }

end AttributeParts

/-- Adds an attribute, of which an element has only one of a name and namespace. -/
def addAttribute? (scope : Scope) (attributes : List Attribute) (name : QualifiedName)
    (value : String) : Option (List Attribute) := do
  let space ←
    if name.qualifier == "" then some none
    else if name.qualifier == "xml" then some (some xmlSpace)
    else (scope.lookup name.qualifier).map some
  guard !(attributes.any fun a => a.space == space && a.name == name.name)
  return attributes ++ [⟨space, name.name, value⟩]

/-- The namespaces in scope and the attributes of an element inside a scope. -/
def openElement? (outer : Scope) (name : QualifiedName) (raw : List RawAttribute) :
    Option (Scope × List Attribute) := do
  let parts ← raw.foldlM AttributeParts.add? ⟨[], []⟩
  let scope := parts.declared ++ outer
  guard (name.qualifier != "xmlns")
  guard (name.qualifier == "" || (scope.lookup name.qualifier).isSome)
  let attributes ← parts.ordinary.foldlM (fun found a => addAttribute? scope found a.1 a.2) []
  return (scope, attributes)

/-- An element whose end tag is still to come; its latest child comes first. -/
structure OpenElement where
  name : QualifiedName
  attributes : List Attribute
  scope : Scope
  children : List Node

namespace OpenElement

def addChild (e : OpenElement) (node : Node) : OpenElement :=
  { e with children := node :: e.children }

/-- The element, once its end tag has come. -/
def close (e : OpenElement) : Element := ⟨e.name.name, e.attributes, e.children.reverse⟩

end OpenElement

/-- Where the reading of a document stands: the open elements, innermost first, and the root
element once it is closed. -/
structure Progress where
  stack : List OpenElement
  root : Option Element

namespace Progress

/-- Adds a node to the innermost element; outside all elements it is no part of the tree. -/
def addNode (p : Progress) (node : Node) : Progress :=
  match p.stack with
  | [] => p
  | e :: outer => { p with stack := e.addChild node :: outer }

/-- Adds a finished element to the one around it, or as the root. -/
def addElement? (p : Progress) (e : Element) : Option Progress :=
  match p.stack, p.root with
  | outer :: rest, _ => some { p with stack := outer.addChild e.toNode :: rest }
  | [], none => some { p with root := some e }
  | [], some _ => none

/-- Takes the next token. -/
def step? (p : Progress) : Token → Option Progress
  | .text content =>
    if p.stack.isEmpty then if content.all isSpace then some p else none
    else (characterData? content).map fun text => p.addNode (.text text)
  | .cdata content =>
    if p.stack.isEmpty then none else some (p.addNode (.text (sectionText content)))
  | .comment => some (p.addNode .comment)
  | .instruction => some (p.addNode .instruction)
  | .startTag name raw isEmpty => do
    let outer := (p.stack.head?.map (·.scope)).getD []
    let (scope, attributes) ← openElement? outer name raw
    guard (!p.stack.isEmpty || p.root.isNone)
    let e : OpenElement := ⟨name, attributes, scope, []⟩
    if isEmpty then p.addElement? e.close else return { p with stack := e :: p.stack }
  | .endTag name =>
    match p.stack with
    | [] => none
    | e :: outer =>
      if e.name = name then { p with stack := outer }.addElement? e.close else none

/-- The root element, when everything is closed. -/
def finish? (p : Progress) : Option Element := if p.stack.isEmpty then p.root else none

end Progress

namespace Document

/-- The text without a byte order mark at its start. -/
def skipMark : List Char → List Char
  | '\uFEFF' :: s => s
  | s => s

/-- The root element of a document. -/
def root? (text : String) : Option Element := do
  let s := skipMark text.toList
  guard (s.all isXmlChar)
  let tokens ← tokens? (← skipDeclaration? s)
  let progress ← tokens.foldlM Progress.step? ⟨[], none⟩
  progress.finish?

end Document

end DatabaseProject.Xml
