/-
# SvgAssets.Xml.Namespace -- prefixes and what they are bound to

An attribute named `xmlns`, or with the prefix `xmlns`, binds a prefix for the element that bears
it and all that is inside. The prefix `xml` is bound from the start; it cannot be bound to anything
else, and nothing else can be bound to its namespace.
-/
import SvgAssets.Xml.Fault
import SvgAssets.Xml.Name

namespace SvgAssets.Xml

/-- The namespaces of the prefixes that are bound at a place, the innermost first. The empty prefix
is that of names without one; bound to the empty namespace, it counts as unbound. -/
abbrev Bindings := List (Text × Text)

/-- The prefix for what the standard itself defines. -/
def xmlPrefix : Text := ['x', 'm', 'l']

/-- The prefix that attributes which bind prefixes have. -/
def xmlnsPrefix : Text := ['x', 'm', 'l', 'n', 's']

/-- What the names of the two namespaces of the standard begin with. -/
def standardRoot : Text := "http://www.w3.org/".toList

/-- The namespace of the prefix `xml`. -/
def xmlNamespace : Text := standardRoot ++ "XML/1998/namespace".toList

/-- The namespace of the attributes that bind prefixes. -/
def xmlnsNamespace : Text := standardRoot ++ "2000/xmlns/".toList

namespace Bindings

/-- The bindings around a document. -/
def initial : Bindings := [(xmlPrefix, xmlNamespace)]

/-- The namespace of a prefix. -/
def namespace? (b : Bindings) (qualifier : Text) : Option Text :=
  (b.find? fun (q, _) => q == qualifier).map (·.2)

/-- Bind a prefix. A namespace name must not hold a closing brace. -/
def bind (b : Bindings) (qualifier uri : Text) : Except Cause Bindings :=
  if uri.isEmpty && !qualifier.isEmpty then .error .undeclaredPrefix
  else if qualifier = xmlnsPrefix then .error .reservedXmlnsPrefix
  else if uri.contains '\x7d' then .error .badSyntax
  else if qualifier = xmlPrefix then
    if uri = xmlNamespace then .ok ((qualifier, uri) :: b) else .error .reservedXmlPrefix
  else if uri = xmlNamespace ∨ uri = xmlnsNamespace then .error .reservedNamespace
  else .ok ((qualifier, uri) :: b)

end Bindings

/-- The prefix that an attribute binds, if it binds one. -/
def boundPrefix? (name : QualifiedName) : Option Text :=
  match name.qualifier with
  | none => if name.localName = xmlnsPrefix then some [] else none
  | some q => if q = xmlnsPrefix then some name.localName else none

end SvgAssets.Xml
