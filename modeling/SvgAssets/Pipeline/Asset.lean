/-
# SvgAssets.Pipeline.Asset -- an asset while it is worked on

A source is one file as it was read; its markup and its styles change as the work goes on.
What is found out on the way stands beside it. A stage that cannot go on either skips the asset,
for one of a few reasons, or fails.
-/
import SvgAssets.Naming
import SvgAssets.Pipeline.Config
import SvgAssets.Record.Basic
import SvgAssets.Template.Scan

namespace SvgAssets.Pipeline

/-- One file: where it was found, its name and hash, its markup and its styles. -/
structure Source where
  path : Text
  name : Text
  svg : Text
  hash : Text
  css : Text
  deriving DecidableEq

/-- An asset that is worked on. -/
structure Asset where
  source : Source
  geometry : Option Geometry
  declared : Template.Variables
  /-- The identifiers that the markup defines. -/
  ids : List Text
  record : Option AssetRecord

namespace Asset

/-- An asset about which nothing is known yet. -/
def ofSource (source : Source) : Asset := ⟨source, none, .empty, [], none⟩

/-- The asset has variables besides the reserved one. -/
def isDynamic (a : Asset) (config : Config) : Bool :=
  a.declared.types.names.any (· != config.instanceVariable)

/-- The name under which the styles of the asset are put. -/
def scopeId (a : Asset) (config : Config) : Text :=
  if config.scopeByModule then Naming.kebabCase config.moduleName else a.source.hash

/-- The asset with other markup. -/
def withSvg (a : Asset) (svg : Text) : Asset := { a with source := { a.source with svg } }

/-- The asset with other styles. -/
def withCss (a : Asset) (css : Text) : Asset := { a with source := { a.source with css } }

end Asset

/-- Why an asset is left out. -/
inductive SkipReason where
  | unspecified
  | notSvg
  | malformedXml
  | unresolvedGeometry
  | invalidStyle
  deriving DecidableEq

/-- The wording of a reason. -/
def SkipReason.message : SkipReason → String
  | .unspecified => "skipped"
  | .notSvg => "Not a valid SVG document"
  | .malformedXml => "Malformed XML"
  | .unresolvedGeometry => "Unable to determine dimensions of"
  | .invalidStyle => "Invalid CSS content in"

/-- An asset is left out. -/
structure Skip where
  reason : SkipReason
  path : Text
  detail : Text
  deriving DecidableEq

/-- The wording of a skip; the detail is shown when there is one. -/
def Skip.message (s : Skip) : String :=
  s.reason.message ++ ": " ++ String.ofList s.path ++
    (if s.detail.isEmpty then "" else " (" ++ String.ofList s.detail ++ ")")

/-- Why a stage did not come to its end. -/
inductive StageFailure where
  | skip (s : Skip)
  /-- Anything else, with its wording. -/
  | error (message : String)
  deriving DecidableEq

/-- The wording of a failure. -/
def StageFailure.message : StageFailure → String
  | .skip s => s.message
  | .error message => message

end SvgAssets.Pipeline
