import SvgAssets.Angular.Component
import SvgAssets.Angular.Module
import SvgAssets.Attempt
import SvgAssets.Blueprint.Angular
import SvgAssets.Blueprint.Basic
import SvgAssets.Blueprint.Manifest
import SvgAssets.Blueprint.TypeScript
import SvgAssets.CommandLine.Arguments
import SvgAssets.CommandLine.Run
import SvgAssets.CommandLine.Switch
import SvgAssets.Conversion.Report
import SvgAssets.Conversion.Run
import SvgAssets.Entries
import SvgAssets.Files.Path
import SvgAssets.Files.Reading
import SvgAssets.Files.Tree
import SvgAssets.Geometry.Basic
import SvgAssets.Geometry.Inference
import SvgAssets.Hash.Allocator
import SvgAssets.Hash.Digest512
import SvgAssets.Hash.Twister
import SvgAssets.Hash.WordSource
import SvgAssets.Json.Printer
import SvgAssets.Json.Reader
import SvgAssets.Main
import SvgAssets.Markup.Attribute
import SvgAssets.Markup.Block
import SvgAssets.Markup.Compact
import SvgAssets.Markup.Identifier
import SvgAssets.Markup.Tag
import SvgAssets.Markup.WellFormed
import SvgAssets.Naming
import SvgAssets.Number
import SvgAssets.Number.Binary64
import SvgAssets.Number.Reading
import SvgAssets.Number.Scaling
import SvgAssets.Number.Shortest
import SvgAssets.Pipeline.Asset
import SvgAssets.Pipeline.BuiltIn
import SvgAssets.Pipeline.Config
import SvgAssets.Pipeline.Plan
import SvgAssets.Pipeline.Run
import SvgAssets.Pipeline.Source
import SvgAssets.Pipeline.Stage
import SvgAssets.Proofs.Angular.Exports
import SvgAssets.Proofs.Conversion.Batch
import SvgAssets.Proofs.Conversion.Context
import SvgAssets.Proofs.Conversion.Rendering
import SvgAssets.Proofs.Conversion.Storing
import SvgAssets.Proofs.Files.Writing
import SvgAssets.Proofs.Geometry.DerivedSide
import SvgAssets.Proofs.Geometry.LengthErrors
import SvgAssets.Proofs.Hash.Allocation
import SvgAssets.Proofs.Markup.Compaction
import SvgAssets.Proofs.Markup.LineBreaks
import SvgAssets.Proofs.Markup.NormalizedIdentifiers
import SvgAssets.Proofs.Markup.Renaming
import SvgAssets.Proofs.Markup.RootTag
import SvgAssets.Proofs.Markup.StyleIsolation
import SvgAssets.Proofs.Markup.TagByTag
import SvgAssets.Proofs.Markup.TagCompaction
import SvgAssets.Proofs.Markup.TagNormalForm
import SvgAssets.Proofs.Markup.Unwrapping
import SvgAssets.Proofs.Naming.KebabCase
import SvgAssets.Proofs.Naming.Symbols
import SvgAssets.Proofs.Number.Arithmetic
import SvgAssets.Proofs.Number.DecimalText
import SvgAssets.Proofs.Number.Nearest
import SvgAssets.Proofs.Number.Numerals
import SvgAssets.Proofs.Number.Rounding
import SvgAssets.Proofs.Number.ShortestDigits
import SvgAssets.Proofs.Pipeline.Bookkeeping
import SvgAssets.Proofs.Pipeline.Classification
import SvgAssets.Proofs.Pipeline.LayerRuns
import SvgAssets.Proofs.Pipeline.Loading
import SvgAssets.Proofs.Pipeline.RecordGeometry
import SvgAssets.Proofs.Pipeline.ScriptRemoval
import SvgAssets.Proofs.Pipeline.WellFormedness
import SvgAssets.Proofs.Stylesheet.DescendantCombinators
import SvgAssets.Proofs.Stylesheet.HiddenAddresses
import SvgAssets.Proofs.Stylesheet.HiddenText
import SvgAssets.Proofs.Stylesheet.Markers
import SvgAssets.Proofs.Stylesheet.MinifiedGrammar
import SvgAssets.Proofs.Stylesheet.Packing
import SvgAssets.Proofs.Stylesheet.ReferenceRenaming
import SvgAssets.Proofs.Stylesheet.ScopedText
import SvgAssets.Proofs.Stylesheet.SelectorLists
import SvgAssets.Proofs.Stylesheet.Structure
import SvgAssets.Proofs.Stylesheet.StyleDeclarations
import SvgAssets.Proofs.Template.AssignmentLaws
import SvgAssets.Proofs.Template.ColonFreeNames
import SvgAssets.Proofs.Template.DescriptorRoundTrip
import SvgAssets.Proofs.Template.Normalization
import SvgAssets.Proofs.Template.Rebuilding
import SvgAssets.Proofs.Template.Redeclarations
import SvgAssets.Proofs.Template.References
import SvgAssets.Proofs.Template.SameShape
import SvgAssets.Proofs.Text.CharacterClasses
import SvgAssets.Proofs.Text.Replacing
import SvgAssets.Proofs.Text.Spacing
import SvgAssets.Proofs.Text.Words
import SvgAssets.Proofs.TypeScript.Escaping
import SvgAssets.Proofs.TypeScript.LiteralFuel
import SvgAssets.Proofs.TypeScript.LiteralGrammar
import SvgAssets.Proofs.TypeScript.LiteralReading
import SvgAssets.Proofs.TypeScript.LiteralTokens
import SvgAssets.Record.Assembly
import SvgAssets.Record.Basic
import SvgAssets.Record.Reading
import SvgAssets.Settings.Basic
import SvgAssets.Settings.ConfigFile
import SvgAssets.Settings.EnvFile
import SvgAssets.Settings.Reading
import SvgAssets.Stylesheet.Marker
import SvgAssets.Stylesheet.Minify
import SvgAssets.Stylesheet.Parse
import SvgAssets.Stylesheet.Reference
import SvgAssets.Stylesheet.Scope
import SvgAssets.Stylesheet.Tree
import SvgAssets.Template.Declaration
import SvgAssets.Template.Descriptor
import SvgAssets.Template.Literal
import SvgAssets.Template.Scan
import SvgAssets.Template.VariableTree
import SvgAssets.Text.Basic
import SvgAssets.Text.Blank
import SvgAssets.Text.Casing
import SvgAssets.Text.Digit
import SvgAssets.Text.LineBreak
import SvgAssets.Text.Order
import SvgAssets.Text.Pattern
import SvgAssets.Text.Quoted
import SvgAssets.Text.Spacing
import SvgAssets.Text.Utf8
import SvgAssets.Text.WordChar
import SvgAssets.TypeScript.Asset
import SvgAssets.TypeScript.Literal
import SvgAssets.TypeScript.Statement
import SvgAssets.Value
import SvgAssets.Xml.Content
import SvgAssets.Xml.Declaration
import SvgAssets.Xml.Doctype
import SvgAssets.Xml.Document
import SvgAssets.Xml.Element
import SvgAssets.Xml.Encoding
import SvgAssets.Xml.Fault
import SvgAssets.Xml.Name
import SvgAssets.Xml.Namespace
import SvgAssets.Xml.Prolog
import SvgAssets.Xml.Reader
import SvgAssets.Xml.Token
