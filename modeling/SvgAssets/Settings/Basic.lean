/-
# SvgAssets.Settings.Basic -- what a run is asked to do
-/
import SvgAssets.Files.Path
import SvgAssets.Pipeline.Config

namespace SvgAssets

/-- The settings of a run. -/
structure Settings where
  /-- The directory whose images are converted. -/
  input : Text := "./svg".toList
  /-- The directory that the generated sources are written to. -/
  output : Text := "./svg-out".toList
  /-- The name of the blueprint that shapes the generated sources. -/
  blueprint : Text := "typescript".toList
  /-- The name of the generated module. -/
  moduleName : Text := "svgmint".toList
  /-- The least level of the messages that are shown. -/
  logLevel : Text := "info".toList
  /-- A view box without lengths stands for the full size of the surroundings. -/
  percentFallback : Bool := true
  /-- Styles are put under the name of the module and not under the hash of the asset. -/
  scopeByModule : Bool := false
  /-- Images that are not well formed are left out. -/
  strictXml : Bool := false
  /-- A manifest is written beside the generated sources. -/
  manifest : Bool := false
  deriving DecidableEq

namespace Settings

/-- The choices for the stages. -/
def pipeline (s : Settings) : Pipeline.Config where
  percentFallback := s.percentFallback
  scopeByModule := s.scopeByModule
  moduleName := s.moduleName
  strictXml := s.strictXml

/-- The path of the manifest. -/
def manifestPath (s : Settings) : Text :=
  Path.join s.output (s.moduleName ++ ".svgmint.json".toList)

end Settings

end SvgAssets
