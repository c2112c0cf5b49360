/-
# SvgAssets.Pipeline.BuiltIn -- the stages from a source to its record

The markup is checked and its geometry found; styles and scripts are taken out; variables are
collected from what is left, first from the markup and then from the styles, and their declarations
are reduced to plain placeholders; identifiers get names of their own; and the markup is compacted
and its root element taken off. Identifiers are collected before placeholders are reduced, so that
an identifier that holds a declaration still matches its references.
-/
import SvgAssets.Geometry.Inference
import SvgAssets.Markup.Block
import SvgAssets.Markup.Compact
import SvgAssets.Markup.Identifier
import SvgAssets.Markup.WellFormed
import SvgAssets.Pipeline.Run
import SvgAssets.Record.Assembly
import SvgAssets.Stylesheet.Reference
import SvgAssets.Stylesheet.Scope

namespace SvgAssets.Pipeline

open Template

/-- The work of a stage that leaves the configuration as it is. -/
abbrev Work := Config → Asset → Attempt StageFailure Redeclaration Asset

/-- Leave the asset out. -/
def leaveOut (a : Asset) (reason : SkipReason) (detail : Text) :
    Attempt StageFailure Redeclaration Asset :=
  .fail a (.skip ⟨reason, a.source.path, detail⟩)

namespace Work

/-- The work, done on the asset of a subject. -/
def onSubject (work : Work) (s : Subject) : Attempt StageFailure Redeclaration Subject :=
  (work s.config s.asset).onState fun asset => { s with asset }

/-- Require the opening tag of a root element. -/
def signature : Work := fun _ a =>
  if Markup.hasSignature a.source.svg then .done a else leaveOut a .notSvg []

/-- Require well-formed markup. -/
def strictXml : Work := fun _ a =>
  match Markup.malformation? a.source.svg with
  | none => .done a
  | some m => leaveOut a .malformedXml m.message.toList

/-- Find the geometry. -/
def geometry : Work := fun config a =>
  match Geometry.infer a.source.svg config.percentFallback with
  | .error e => .fail a (.error e.message)
  | .ok none => leaveOut a .unresolvedGeometry []
  | .ok (some g) => .done { a with geometry := some g }

/-- Take the styles out of the markup. Markup whose styles cannot be read is not kept. -/
def styles : Work := fun config a =>
  match Stylesheet.ofDocument a.source.svg (a.scopeId config) config.instanceVariable with
  | .error e => leaveOut ((a.withSvg []).withCss []) .invalidStyle e.message.toList
  | .ok css => .done ((a.withCss css).withSvg (Markup.removeStyles a.source.svg))

/-- Drop the scripts. -/
def scripts : Work := fun _ a => .done (a.withSvg (Markup.removeScripts a.source.svg))

/-- Collect the identifiers. -/
def identifiers : Work := fun _ a => .done { a with ids := Markup.collectIds a.source.svg }

/-- Collect the variables of the markup and of the styles. -/
def scanning : Work := fun _ a =>
  let found := (a.declared.takeIn a.source.svg).andThen fun v => v.takeIn a.source.css
  ⟨{ a with declared := found.state }, found.notices,
    found.failure.map fun e => .error e.message⟩

/-- Reduce declarations to placeholders. -/
def placeholders : Work := fun _ a =>
  .done ((a.withSvg (normalize a.source.svg)).withCss (normalize a.source.css))

/-- Rename the identifiers and the references to them. -/
def namespacing : Work := fun config a =>
  if a.ids.isEmpty then .done a
  else
    let names : Markup.Renaming :=
      ⟨a.ids.map normalize, a.source.hash, config.instanceVariable⟩
    .done ((a.withSvg (names.apply a.source.svg)).withCss
      (Stylesheet.renameReferences names a.source.css))

/-- Compact the markup and take off its root element. -/
def compaction : Work := fun _ a =>
  .done (a.withSvg (Markup.unwrap (Markup.compact a.source.svg)))

/-- Assemble the record. -/
def assembly : Work := fun config a => .done { a with record := some (a.assemble config) }

end Work

/-- The built-in stages. -/
def builtInStages : List Stage :=
  [{ id := "S0.01".toList, layer := .validation, dependencies := [],
      description := "Require an <svg> open tag",
      isEnabled := fun _ => true, work := Work.signature.onSubject },
    { id := "S0.02".toList, layer := .validation, dependencies := ["S0.01".toList],
      description := "Reject markup that is not well-formed XML",
      isEnabled := fun config => config.strictXml, work := Work.strictXml.onSubject },
    { id := "S0.03".toList, layer := .validation, dependencies := ["S0.01".toList],
      description := "Infer width, height and viewBox",
      isEnabled := fun _ => true, work := Work.geometry.onSubject },
    { id := "S1.01".toList, layer := .extraction, dependencies := ["S0.03".toList],
      description := "Extract, minify and scope inline styles",
      isEnabled := fun _ => true, work := Work.styles.onSubject },
    { id := "S1.02".toList, layer := .extraction, dependencies := ["S1.01".toList],
      description := "Drop inline <script> blocks",
      isEnabled := fun _ => true, work := Work.scripts.onSubject },
    { id := "S1.03".toList, layer := .extraction, dependencies := ["S1.02".toList],
      description := "Collect document ids",
      isEnabled := fun _ => true, work := Work.identifiers.onSubject },
    { id := "S2.01".toList, layer := .templating, dependencies := ["S1.01".toList],
      description :=
        "Build type and default maps from \x7b\x7bdefault|name\x7d\x7d placeholders",
      isEnabled := fun _ => true, work := Work.scanning.onSubject },
    { id := "S2.02".toList, layer := .templating,
      dependencies := ["S2.01".toList, "S1.03".toList],
      description := "Rewrite \x7b\x7bdefault|name\x7d\x7d to \x7b\x7bname\x7d\x7d",
      isEnabled := fun _ => true, work := Work.placeholders.onSubject },
    { id := "S3.01".toList, layer := .namespacing, dependencies := ["S2.02".toList],
      description := "Namespace ids and their references",
      isEnabled := fun _ => true, work := Work.namespacing.onSubject },
    { id := "S4.01".toList, layer := .assembly, dependencies := ["S3.01".toList],
      description := "Collapse whitespace and strip the root wrapper",
      isEnabled := fun _ => true, work := Work.compaction.onSubject },
    { id := "S4.02".toList, layer := .assembly, dependencies := ["S4.01".toList],
      description := "Assemble the output record",
      isEnabled := fun _ => true, work := Work.assembly.onSubject }]

/-- The registry of the built-in stages. -/
def builtIn : Registry := ⟨builtInStages, by decide⟩

end SvgAssets.Pipeline
