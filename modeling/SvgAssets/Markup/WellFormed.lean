/-
# SvgAssets.Markup.WellFormed -- the strict reading of markup

Markup is usually taken as it comes. Under the strict reading it has to be a well-formed document
whose root element has the name of the root, in whatever namespace.
-/
import SvgAssets.Markup.Tag
import SvgAssets.Xml.Document
import SvgAssets.Xml.Encoding

namespace SvgAssets.Markup

open Xml

/-- Why markup does not pass the strict reading. -/
inductive Malformation where
  | fault (cause : Cause) (position : Position)
  | otherRoot (name : Text)
  deriving DecidableEq

/-- The wording of a malformation. -/
def Malformation.message : Malformation → String
  | .fault cause position =>
    cause.message ++ ": line " ++ toString position.line ++ ", column " ++ toString position.column
  | .otherRoot name => "root element is <" ++ String.ofList name ++ ">, not <svg>"

/-- The first malformation of a document. Half a unit at the end of a document is a token that is
not closed. -/
def malformationOf (d : Decoded) : Option Malformation :=
  let half : Malformation := .fault .unclosedToken (Position.start.behind d.text)
  match Xml.rootName d.text with
  | .error f =>
    if d.isCut ∧ f.cause = .noElement then some half
    else some (.fault f.cause (f.position d.text))
  | .ok name =>
    if d.isCut then some half
    else if name = Markup.rootName then none
    else some (.otherRoot name)

/-- The first malformation of a text, if it has one. -/
def malformation? (s : Text) : Option Malformation := malformationOf (Xml.decode s)

end SvgAssets.Markup
