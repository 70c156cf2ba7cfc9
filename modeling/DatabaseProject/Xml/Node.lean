/-!
# XML trees

The tree of a document below its root element. Elements carry local names only; an attribute
without a namespace and one of the same name in a namespace are different attributes.
-/

namespace DatabaseProject.Xml

structure Attribute where
  /-- The namespace, for an attribute whose name has a namespace prefix. -/
  space : Option String
  name : String
  value : String
  deriving DecidableEq, Repr

inductive Node where
  | element (name : String) (attributes : List Attribute) (children : List Node)
  | text (content : String)
  | comment
  | instruction
  deriving Repr

/-- An element with its name, attributes and children. -/
structure Element where
  name : String
  attributes : List Attribute
  children : List Node
  deriving Repr

namespace Node

/-- The element, when the node is one. -/
def element? : Node → Option Element
  | element name attributes children => some ⟨name, attributes, children⟩
  | _ => none

/-- The characters of a text node. -/
def text? : Node → Option String
  | text content => some content
  | _ => none

end Node

namespace Element

def toNode (e : Element) : Node := .element e.name e.attributes e.children

/-- The child elements, in document order. -/
def elements (e : Element) : List Element := e.children.filterMap Node.element?

/-- The child elements of a name. -/
def elementsNamed (e : Element) (name : String) : List Element :=
  e.elements.filter (·.name == name)

/-- The first child element of a name. -/
def elementNamed? (e : Element) (name : String) : Option Element :=
  e.elements.find? (·.name == name)

/-- The value of the attribute of a name that is in no namespace. -/
def attribute? (e : Element) (name : String) : Option String :=
  (e.attributes.find? fun a => a.space.isNone && a.name == name).map (·.value)

/-- The element's own text, without that of its child elements. -/
def text (e : Element) : String := String.join (e.children.filterMap Node.text?)

end Element

end DatabaseProject.Xml
