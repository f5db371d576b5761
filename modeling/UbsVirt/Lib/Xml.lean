import UbsVirt.Lib.Dict

/-!
# Documents as trees of elements

A parsed document is a tree of elements with a tag, attributes and a text. Elements are found by
the local part of their tag.
-/

namespace UbsVirt.Xml

/-- The name of an element or an attribute, with its namespace if it has one. -/
structure QName where
  ns : Option String
  localName : String
  deriving DecidableEq, Repr

abbrev Attributes := Dict QName String

/-- An element: its tag, its attributes, the text before its first child, and its children. -/
inductive Element where
  | mk (tag : QName) (attrib : Attributes) (text : String) (children : List Element)

namespace Element

def tag : Element → QName
  | mk tag _ _ _ => tag

def attrib : Element → Attributes
  | mk _ attrib _ _ => attrib

def text : Element → String
  | mk _ _ text _ => text

def children : Element → List Element
  | mk _ _ _ children => children

def get? (e : Element) (key : String) : Option String := e.attrib.get? ⟨none, key⟩

def plain (name : String) (attrib : List (String × String)) (children : List Element) : Element :=
  mk ⟨none, name⟩ (.ofList (attrib.map fun a => (⟨none, a.1⟩, a.2))) "" children

def childrenNamed (e : Element) (name : String) : List Element :=
  e.children.filter fun child => child.tag.localName = name

def descend (e : Element) (names : List String) : List Element :=
  names.foldl (fun es name => es.flatMap (·.childrenNamed name)) [e]

end Element

end UbsVirt.Xml
