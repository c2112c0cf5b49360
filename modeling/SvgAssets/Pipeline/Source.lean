/-
# SvgAssets.Pipeline.Source -- sources from files

A source is named after its file, and its markup is the text of the file without line breaks. It
takes a hash only when its file could be read.
-/
import SvgAssets.Files.Reading
import SvgAssets.Hash.Allocator
import SvgAssets.Pipeline.Asset

namespace SvgAssets.Pipeline.Source

/-- The source that a text in a file gives. -/
def ofText (path content hash : Text) : Source where
  path := path
  name := Naming.safeName (Path.stem path)
  svg := Text.dropLineBreaks content
  hash := hash
  css := []

/-- Why a source could not be loaded. -/
inductive LoadError where
  | unreadable (e : ReadError)
  | noHash (e : HashError)

/-- Load the file at a path. -/
def load (t : FileTree) (path : Text) (supply : HashSupply) :
    Except LoadError (Source × HashSupply) :=
  match t.readText path with
  | .error e => .error (.unreadable e)
  | .ok content =>
    match supply.next with
    | .error e => .error (.noHash e)
    | .ok (hash, supply) => .ok (ofText path content hash, supply)

end SvgAssets.Pipeline.Source
