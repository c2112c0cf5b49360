/-
# SvgAssets.Blueprint.Angular -- assets and components of a module

All files are put below a directory named after the module: the assets with their index, a component
for each dynamic asset with the index of the components, and the module.
-/
import SvgAssets.Angular.Module
import SvgAssets.Blueprint.TypeScript

namespace SvgAssets

namespace Angular

/-- The element that shows an asset. -/
def selector (settings : Settings) (r : AssetRecord) : Text :=
  Naming.kebabCase settings.moduleName ++ '-' :: Naming.kebabCase r.name

/-- The text of the component of an asset. -/
def componentText (settings : Settings) (r : AssetRecord) : Text :=
  (component r (selector settings r)).text

/-- A path below the directory of the module. -/
def modulePath (settings : Settings) (names : List Text) : Text :=
  Path.joinAll settings.output (settings.moduleName :: names)

/-- The part of the class of an image that is the same for all of its instances: the name of the
module, or the hash of the asset. -/
def classPrefix (settings : Settings) : Text :=
  if settings.scopeByModule then Naming.kebabCase settings.moduleName
  else "$\x7bsvg.svgHash\x7d".toList

end Angular

namespace Blueprint

open Angular in
/-- The assets as components of a module. -/
def angular : Blueprint where
  name := "angular".toList
  render settings r := .ok (componentText settings r)
  assetFiles settings r := do
    let source :=
      GeneratedFile.mk (modulePath settings ["assets".toList, sourceName r]) (← r.sourceText)
    if r.isDynamic then
      let component := r.name ++ ".component.ts".toList
      return [source,
        ⟨modulePath settings ["components".toList, component], componentText settings r⟩]
    else return [source]
  indexFiles settings records :=
    let components := records.filter AssetRecord.isDynamic
    let moduleFile := Naming.kebabCase settings.moduleName ++ ".module.ts".toList
    .ok
      [⟨modulePath settings ["assets".toList, "index.ts".toList],
          (assetIndex records (classPrefix settings)).text⟩,
        ⟨modulePath settings ["components".toList, "index.ts".toList],
          (componentIndex components).text⟩,
        ⟨modulePath settings [moduleFile],
          (ngModule components settings.moduleName).text⟩]

/-- The built-in blueprints. -/
def builtIn : Catalog := ⟨[angular, typeScript], by decide⟩

end Blueprint

end SvgAssets
