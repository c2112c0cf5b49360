/-
# SvgAssets.Record.Assembly -- the record of an asset

The record of a dynamic asset describes its variables twice: their types, the reserved variable
first, as a number, and their defaults, the reserved variable last, with the default zero. A static
asset has neither. A view box with a side of length zero is left out, and so are empty styles.
-/
import SvgAssets.Pipeline.Asset
import SvgAssets.Template.Descriptor

namespace SvgAssets.Pipeline.Asset

/-- A table without the reserved variable. -/
def unreserved (config : Config) (tree : Entries Value) : Entries Value :=
  tree.filter fun (name, _) => name != config.instanceVariable

/-- The types of all variables, the reserved one included. -/
def allTypes (a : Asset) (config : Config) : Entries Value :=
  (config.instanceVariable, .text "number".toList) :: unreserved config a.declared.types

/-- The defaults of all variables, the reserved one included. -/
def allDefaults (a : Asset) (config : Config) : Entries Value :=
  unreserved config a.declared.defaults ++ [(config.instanceVariable, .int 0)]

/-- The record of the asset. -/
def assemble (a : Asset) (config : Config) : AssetRecord where
  name := a.source.name
  path := a.source.path
  hash := a.source.hash
  svg := a.source.svg
  css := if a.source.css.isEmpty then none else some a.source.css
  width := a.geometry.bind (·.width)
  height := a.geometry.bind (·.height)
  viewBox := (a.geometry.bind (·.viewBox)).filter ViewBox.isUsable
  interface :=
    if a.isDynamic config then some (Template.describe (a.allTypes config)) else none
  defaults := if a.isDynamic config then some (a.allDefaults config) else none

end SvgAssets.Pipeline.Asset
