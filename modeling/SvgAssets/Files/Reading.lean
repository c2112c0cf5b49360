/-
# SvgAssets.Files.Reading -- the text of a file

A file is read as UTF-8, with a line feed for every line break.
-/
import SvgAssets.Files.Tree
import SvgAssets.Text.LineBreak

namespace SvgAssets

/-- Why the text of a file could not be read. -/
inductive ReadError where
  | file (e : FileError)
  | text (e : Utf8.DecodeError)
  deriving DecidableEq

/-- The wording of an error. -/
def ReadError.message : ReadError → String
  | .file e => e.message
  | .text e => e.message

namespace FileTree

/-- The text of the file at a path. -/
def readText (t : FileTree) (path : Text) : Except ReadError Text :=
  match t.read path with
  | .error e => .error (.file e)
  | .ok bytes =>
    match Utf8.decode bytes with
    | .error e => .error (.text e)
    | .ok s => .ok (Text.unifyLineBreaks s)

/-- Write a text to the file at a path. -/
def writeText (t : FileTree) (path content : Text) : Attempt FileError Empty FileTree :=
  t.write path (Utf8.encode content)

end FileTree

end SvgAssets
