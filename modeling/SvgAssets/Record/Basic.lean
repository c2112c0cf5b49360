/-
# SvgAssets.Record.Basic -- render-ready assets

A record is what remains of an asset when all work on it is done, and all that the generated
sources are made of. As a table it lists its fields in a fixed order and leaves out those that are
missing. A record with defaults for variables is dynamic.
-/
import SvgAssets.Geometry.Basic
import SvgAssets.Value

namespace SvgAssets

/-- One asset, ready to be rendered. -/
structure AssetRecord where
  name : Text
  path : Text
  hash : Text
  svg : Text
  css : Option Text
  width : Option Dimension
  height : Option Dimension
  viewBox : Option ViewBox
  /-- The types of the variables, as a descriptor. -/
  interface : Option Text
  defaults : Option (Entries Value)

/-- A field of a record. -/
inductive RecordField where
  | name
  | path
  | hash
  | svg
  | css
  | width
  | height
  | viewBox
  | interface
  | defaults
  deriving DecidableEq

namespace RecordField

/-- All fields, in the order of a table. -/
def all : List RecordField :=
  [.name, .path, .hash, .svg, .css, .width, .height, .viewBox, .interface, .defaults]

/-- The name of a field in a table. -/
def key : RecordField → Text
  | .name => "name".toList
  | .path => "path".toList
  | .hash => "svgHash".toList
  | .svg => "svg".toList
  | .css => "css".toList
  | .width => "width".toList
  | .height => "height".toList
  | .viewBox => "viewBox".toList
  | .interface => "contextInterface".toList
  | .defaults => "contextDefaults".toList

/-- The other name under which a field may be given, with its words joined by underscores. -/
def joinedKey : RecordField → Text
  | .hash => "svg_hash".toList
  | .viewBox => "view_box".toList
  | .interface => "context_interface".toList
  | .defaults => "context_defaults".toList
  | f => f.key

end RecordField

/-- A side as a value. -/
def Dimension.toValue : Dimension → Value
  | .number n => .number n
  | .text t => .text t

/-- A view box as a value. -/
def ViewBox.toValue (b : ViewBox) : Value :=
  .table
    [("minx".toList, .number b.minX), ("miny".toList, .number b.minY),
      ("width".toList, .number b.width), ("height".toList, .number b.height)]

namespace AssetRecord

/-- The record has variables. -/
def isDynamic (r : AssetRecord) : Bool := r.defaults.isSome

/-- The value of a field, if the record has one. -/
def get? (r : AssetRecord) : RecordField → Option Value
  | .name => some (.text r.name)
  | .path => some (.text r.path)
  | .hash => some (.text r.hash)
  | .svg => some (.text r.svg)
  | .css => r.css.map .text
  | .width => r.width.map Dimension.toValue
  | .height => r.height.map Dimension.toValue
  | .viewBox => r.viewBox.map ViewBox.toValue
  | .interface => r.interface.map .text
  | .defaults => r.defaults.map .table

/-- The record as a table, without the fields in `omitted`. -/
def toTable (r : AssetRecord) (omitted : List RecordField) : Entries Value :=
  RecordField.all.filterMap fun f =>
    if f ∈ omitted then none else (r.get? f).map fun v => (f.key, v)

end AssetRecord

end SvgAssets
