import BlockScript.Table

/-! # XML elements

What a workspace needs of an XML document: names without their namespaces, attributes, child
elements, and the text that stands in an element directly. -/

namespace BlockScript.Xml

structure Element where
  name : String
  attributes : Table String := []
  text : String := ""
  children : List Element := []

namespace Element

def attribute? (e : Element) (name : String) : Option String := e.attributes.get? name

/-- The first child of a name. -/
def child? (e : Element) (name : String) : Option Element :=
  e.children.find? fun child => child.name = name

end Element

end BlockScript.Xml
