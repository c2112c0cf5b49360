/-
# SvgAssets.Blueprint.Manifest -- a list of all assets for other tools

The manifest names the module and lists the names and the contents of all records, without the paths
they came from.
-/
import SvgAssets.Json.Printer
import SvgAssets.Record.Basic
import SvgAssets.Blueprint.Basic

namespace SvgAssets.Manifest

/-- The manifest as a table. -/
def table (moduleName : Text) (records : List AssetRecord) : Value :=
  .table
    [("module".toList, .text moduleName),
      ("exports".toList, .list (records.map fun r => .text r.name)),
      ("files".toList, .list (records.map fun r => .table (r.toTable [.path])))]

/-- The file of the manifest. -/
def file (settings : Settings) (records : List AssetRecord) : GeneratedFile where
  path := settings.manifestPath
  content := Json.print 0 (table settings.moduleName records) ++ ['\n']

end SvgAssets.Manifest
