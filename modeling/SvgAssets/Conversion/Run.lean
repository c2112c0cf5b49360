/-
# SvgAssets.Conversion.Run -- converting all images of a directory

The images below the input directory are converted one after the other, in the order of the walk,
which is made before anything is written. An image that cannot be read or that is left out by the
stages is reported, and the conversion goes on. The files of an image are written at once; when all
images are done the index follows, and then the manifest.
-/
import SvgAssets.Blueprint.Angular
import SvgAssets.Blueprint.Manifest
import SvgAssets.Conversion.Report
import SvgAssets.Pipeline.BuiltIn
import SvgAssets.Pipeline.Source

namespace SvgAssets

/-- Why a conversion stopped. -/
inductive ConversionError where
  | inputMissing (path : Text)
  | blueprint (e : Blueprint.CatalogError)
  | noHash (e : HashError)
  | plan (e : Pipeline.PlanError)
  | output (e : Blueprint.OutputError)

/-- The wording of an error. -/
def ConversionError.message : ConversionError → String
  | .inputMissing path => "Invalid input dir: " ++ String.ofList path
  | .blueprint e => e.message
  | .noHash e => e.message
  | .plan e => e.message
  | .output e => e.message

/-- Where a conversion stands: the files, the hashes to come, and the records accepted so far, in
order. -/
structure Conversion where
  tree : FileTree
  supply : HashSupply
  records : List AssetRecord

namespace Conversion

/-- Work on a conversion. -/
abbrev Progress := Attempt ConversionError Report Conversion

/-- Nothing has been converted. -/
def start (tree : FileTree) (supply : HashSupply) : Conversion := ⟨tree, supply, []⟩

/-- Write files that a blueprint generates. -/
def write (c : Conversion) (files : Except RenderError (List GeneratedFile)) : Progress :=
  let a := Blueprint.writeFiles c.tree files
  ⟨{ c with tree := a.state }, [], a.failure.map .output⟩

/-- The conversion with one more record. -/
def accept (c : Conversion) (r : AssetRecord) : Conversion :=
  { c with records := c.records ++ [r] }

/-- Convert the image at a path. -/
def convertFile (settings : Settings) (blueprint : Blueprint) (c : Conversion) (path : Text) :
    Progress :=
  match Pipeline.Source.load c.tree path c.supply with
  | .error (.unreadable e) => ⟨c, [.unreadable path e], none⟩
  | .error (.noHash e) => .fail c (.noHash e)
  | .ok (source, supply) =>
    let c := { c with supply }
    match Pipeline.builtIn.process settings.pipeline source with
    | .error e => .fail c (.plan e)
    | .ok a =>
      let told : Progress := ⟨c, a.notices.map .notice, none⟩
      match a.state.result? with
      | none => told
      | some r => told.andThen fun c =>
        (c.write (blueprint.assetFiles settings r)).andThen fun c => .done (c.accept r)

/-- The images below the input directory, in the order of the walk. -/
def images (tree : FileTree) (settings : Settings) : List Text :=
  (tree.filesBelow settings.input).filter Path.isSvg

/-- Write the manifest, if it is asked for. -/
def writeManifest (settings : Settings) (c : Conversion) : Progress :=
  if settings.manifest then
    (c.write (.ok [Manifest.file settings c.records])).andThen fun c =>
      ⟨c, [.manifestWritten settings.manifestPath], none⟩
  else .done c

/-- Convert images and write the files of all of them together. -/
def convertAll (settings : Settings) (blueprint : Blueprint) (c : Conversion)
    (paths : List Text) : Progress :=
  (Attempt.forEach (convertFile settings blueprint) c paths).andThen fun c =>
    (c.write (blueprint.indexFiles settings c.records)).andThen fun c =>
      (writeManifest settings c).andThen fun c =>
        ⟨c, [.finished c.records.length settings.output], none⟩

/-- Convert all images below the input directory. -/
def run (settings : Settings) (tree : FileTree) (supply : HashSupply) : Progress :=
  let c := start tree supply
  if tree.isDirectory settings.input then
    match Blueprint.builtIn.get settings.blueprint with
    | .error e => .fail c (.blueprint e)
    | .ok blueprint =>
      let told : Progress := ⟨c, [.started settings.input blueprint.name], none⟩
      told.andThen fun c => convertAll settings blueprint c (images tree settings)
  else .fail c (.inputMissing settings.input)

end Conversion

end SvgAssets
