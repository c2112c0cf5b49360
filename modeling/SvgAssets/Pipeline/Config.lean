/-
# SvgAssets.Pipeline.Config -- what is configured for one run
-/
import SvgAssets.Text.Basic

namespace SvgAssets.Pipeline

/-- The choices that all stages of a run share. -/
structure Config where
  /-- The length of the hashes. -/
  hashLength : Int := 6
  /-- The variable that holds the number of an instance; it is reserved. -/
  instanceVariable : Text := "uuid".toList
  /-- A view box without lengths stands for the full size of the surroundings. -/
  percentFallback : Bool := true
  /-- Styles are put under the name of the module and not under the hash of the asset. -/
  scopeByModule : Bool := false
  /-- The name of the module that is generated. -/
  moduleName : Text := "svgmint".toList
  /-- Markup has to be well formed. -/
  strictXml : Bool := false

end SvgAssets.Pipeline
