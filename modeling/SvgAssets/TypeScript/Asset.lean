/-
# SvgAssets.TypeScript.Asset -- assets as sources

Each asset has a source of its own, which exports the asset as a constant and, for a dynamic one,
the type of its variables in front of it. An index exports the names of all assets again.
-/
import SvgAssets.Naming
import SvgAssets.Record.Basic
import SvgAssets.Template.Descriptor
import SvgAssets.TypeScript.Literal
import SvgAssets.TypeScript.Statement

namespace SvgAssets

namespace AssetRecord

open TypeScript

/-- The name of the constant of an asset. -/
def symbol (r : AssetRecord) : Text := Naming.symbolName r.name

/-- The name of the type of its variables. -/
def contextSymbol (r : AssetRecord) : Text := r.symbol ++ "Context".toList

/-- The constant of an asset. Where the file was found and how its variables are described is not
part of it. -/
def constant (r : AssetRecord) : Statement :=
  .exportConst r.symbol (literal (.table (r.toTable [.path, .interface])))

/-- The source of an asset. -/
def assetSource (r : AssetRecord) : Except Template.DescriptorError TypeScript.Source :=
  match r.interface with
  | none | some [] => .ok [r.constant]
  | some descriptor => do
    let types ← Template.Descriptor.read descriptor
    return [.exportInterface r.contextSymbol (interfaceBody types), r.constant]

/-- The names of an asset, exported again by an index. -/
def reexport (r : AssetRecord) : Statement :=
  .exportNames (if r.isDynamic then [r.symbol, r.contextSymbol] else [r.symbol])
    ("./".toList ++ r.name)

end AssetRecord

/-- The index of assets. -/
def TypeScript.barrel (records : List AssetRecord) : TypeScript.Source :=
  records.map AssetRecord.reexport

end SvgAssets
