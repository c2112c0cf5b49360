/-
# SvgAssets.Blueprint.Basic -- the shape of the generated sources

A blueprint turns records into files: some for each record, and some for all records together.
Blueprints are chosen by name from a catalog, which holds no name twice.
-/
import SvgAssets.Files.Reading
import SvgAssets.Record.Basic
import SvgAssets.Settings.Basic
import SvgAssets.Template.Descriptor

namespace SvgAssets

/-- A file that is generated. -/
structure GeneratedFile where
  path : Text
  content : Text
  deriving DecidableEq

/-- Why nothing can be generated. -/
inductive RenderError where
  /-- The description of the variables of a record cannot be read. -/
  | descriptor (e : Template.DescriptorError)
  /-- The blueprint does not say what to generate. -/
  | unspecified

/-- The wording of an error. -/
def RenderError.message : RenderError → String
  | .descriptor e => e.message
  | .unspecified => ""

/-- The shape of generated sources. -/
structure Blueprint where
  name : Text
  /-- The source that is shown for a record. -/
  render : Settings → AssetRecord → Except RenderError Text
  /-- The files of one record. -/
  assetFiles : Settings → AssetRecord → Except RenderError (List GeneratedFile)
  /-- The files of all records together. -/
  indexFiles : Settings → List AssetRecord → Except RenderError (List GeneratedFile)

namespace Blueprint

/-- The blueprint that says nothing yet. -/
def unspecified : Blueprint where
  name := []
  render _ _ := .error .unspecified
  assetFiles _ _ := .error .unspecified
  indexFiles _ _ := .error .unspecified

/-- Why files could not be generated or written. -/
inductive OutputError where
  | render (e : RenderError)
  | file (e : FileError)

/-- The wording of an error. -/
def OutputError.message : OutputError → String
  | .render e => e.message
  | .file e => e.message

/-- Write one generated file. -/
def writeFile (t : FileTree) (f : GeneratedFile) : Attempt OutputError Empty FileTree :=
  let a := t.writeText f.path f.content
  ⟨a.state, a.notices, a.failure.map .file⟩

/-- Write generated files, unless they could not be generated. -/
def writeFiles (t : FileTree) (files : Except RenderError (List GeneratedFile)) :
    Attempt OutputError Empty FileTree :=
  match files with
  | .error e => .fail t (.render e)
  | .ok files => Attempt.forEach writeFile t files

/-! ## Choosing by name -/

/-- A set of blueprints with names of their own. -/
structure Catalog where
  blueprints : List Blueprint
  nodup : (blueprints.map (·.name)).Nodup

/-- Why a blueprint could not be added or found. -/
inductive CatalogError where
  | duplicate (name : Text)
  | unknown (name : Text) (available : List Text)
  deriving DecidableEq

/-- The wording of an error. -/
def CatalogError.message : CatalogError → String
  | .duplicate name => "Duplicate blueprint: " ++ String.ofList name
  | .unknown name available =>
    "Unknown blueprint " ++ String.ofList (Text.quoted name) ++ " (available: " ++
      String.ofList ([',', ' '].intercalate available) ++ ")"

namespace Catalog

/-- The names of all blueprints, in order. -/
def names (c : Catalog) : List Text := Text.sort (c.blueprints.map (·.name))

/-- Add a blueprint. -/
def add (c : Catalog) (b : Blueprint) : Except CatalogError Catalog :=
  if h : b.name ∈ c.blueprints.map (·.name) then .error (.duplicate b.name)
  else
    .ok ⟨c.blueprints ++ [b], by
      rw [List.map_append, List.nodup_append]
      refine ⟨c.nodup, by simp, ?_⟩
      intro name hn name' hn' he
      simp only [List.map_cons, List.map_nil, List.mem_singleton] at hn'
      exact h (hn' ▸ he ▸ hn)⟩

/-- The blueprint of a name. -/
def get (c : Catalog) (name : Text) : Except CatalogError Blueprint :=
  match c.blueprints.find? (·.name == name) with
  | some b => .ok b
  | none => .error (.unknown name c.names)

end Catalog

end Blueprint

end SvgAssets
