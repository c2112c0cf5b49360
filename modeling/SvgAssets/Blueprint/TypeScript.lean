/-
# SvgAssets.Blueprint.TypeScript -- one source for each asset, and an index
-/
import SvgAssets.Blueprint.Basic
import SvgAssets.TypeScript.Asset

namespace SvgAssets

/-- The text of the source of an asset. -/
def AssetRecord.sourceText (r : AssetRecord) : Except RenderError Text :=
  match r.assetSource with
  | .error e => .error (.descriptor e)
  | .ok source => .ok source.text

namespace Blueprint

/-- The file name of the source of an asset. -/
def sourceName (r : AssetRecord) : Text := r.name ++ ".ts".toList

/-- Plain sources: one for each asset, and an index. -/
def typeScript : Blueprint where
  name := "typescript".toList
  render _ r := r.sourceText
  assetFiles settings r := do
    return [⟨Path.join settings.output (sourceName r), ← r.sourceText⟩]
  indexFiles settings records :=
    .ok [⟨Path.join settings.output "index.ts".toList, (TypeScript.barrel records).text⟩]

end Blueprint

end SvgAssets
