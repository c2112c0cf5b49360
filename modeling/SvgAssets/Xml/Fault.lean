/-
# SvgAssets.Xml.Fault -- why a document is not well formed, and where

A fault has a cause and a place. The place is kept as the number of characters from there to the
end of the document, so that a reader, which only ever holds the rest of the document, can name
it; line and column follow from the text in front of it. Lines are counted from one and columns
from zero; a line ends at a line feed, a carriage return or the two together.
-/
import SvgAssets.Text.Basic

namespace SvgAssets.Xml

/-- What is wrong with a document. -/
inductive Cause where
  | noElement
  | invalidToken
  | unclosedToken
  | mismatchedTag
  | duplicateAttribute
  | junkBehindRoot
  | parameterReference
  | undefinedEntity
  /-- An entity that may be declared elsewhere, but whose text is not at hand. -/
  | unresolvedEntity (name : Text)
  | recursiveEntity
  | unbalancedEntity
  | badCharacterNumber
  | binaryEntity
  | externalEntityInAttribute
  | misplacedDeclaration
  | unclosedCdata
  | unboundPrefix
  | undeclaredPrefix
  | malformedDeclaration
  | illegalPublicId
  | reservedXmlPrefix
  | reservedXmlnsPrefix
  | reservedNamespace
  | badSyntax
  deriving DecidableEq

/-- The wording of a cause. -/
def Cause.message : Cause → String
  | .noElement => "no element found"
  | .invalidToken => "not well-formed (invalid token)"
  | .unclosedToken => "unclosed token"
  | .mismatchedTag => "mismatched tag"
  | .duplicateAttribute => "duplicate attribute"
  | .junkBehindRoot => "junk after document element"
  | .parameterReference => "illegal parameter entity reference"
  | .undefinedEntity => "undefined entity"
  | .unresolvedEntity name => "undefined entity &" ++ String.ofList name ++ ";"
  | .recursiveEntity => "recursive entity reference"
  | .unbalancedEntity => "asynchronous entity"
  | .badCharacterNumber => "reference to invalid character number"
  | .binaryEntity => "reference to binary entity"
  | .externalEntityInAttribute => "reference to external entity in attribute"
  | .misplacedDeclaration => "XML or text declaration not at start of entity"
  | .unclosedCdata => "unclosed CDATA section"
  | .unboundPrefix => "unbound prefix"
  | .undeclaredPrefix => "must not undeclare prefix"
  | .malformedDeclaration => "XML declaration not well-formed"
  | .illegalPublicId => "illegal character(s) in public id"
  | .reservedXmlPrefix =>
    "reserved prefix (xml) must not be undeclared or bound to another namespace name"
  | .reservedXmlnsPrefix => "reserved prefix (xmlns) must not be declared or undeclared"
  | .reservedNamespace => "prefix must not be bound to one of the reserved namespace names"
  | .badSyntax => "syntax error"

/-- A cause and its place, as the number of characters behind that place. -/
structure Fault where
  cause : Cause
  remaining : Nat
  deriving DecidableEq

/-- The fault at the start of the rest `rest` of the document. -/
def Fault.ofRest (cause : Cause) (rest : Text) : Fault := ⟨cause, rest.length⟩

/-- A place for a reader of the document. -/
structure Position where
  line : Nat
  column : Nat
  deriving DecidableEq

namespace Position

/-- The place behind `s`, when `s` begins at the given place. -/
def behind (p : Position) : Text → Position
  | [] => p
  | '\r' :: '\n' :: s => behind ⟨p.line + 1, 0⟩ s
  | '\r' :: s => behind ⟨p.line + 1, 0⟩ s
  | '\n' :: s => behind ⟨p.line + 1, 0⟩ s
  | _ :: s => behind ⟨p.line, p.column + 1⟩ s

/-- Where a document begins. -/
def start : Position := ⟨1, 0⟩

end Position

namespace Fault

/-- The place of a fault in the document `s`. -/
def position (f : Fault) (s : Text) : Position :=
  Position.start.behind (s.take (s.length - f.remaining))

end Fault

end SvgAssets.Xml
